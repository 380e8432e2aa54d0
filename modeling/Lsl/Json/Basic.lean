/- # JSON values

Values of the interchange format. Fields keep the order in which they are
written, and nothing forbids writing a name twice: readers of a value decide
what that means (`Json.field?`). A number without fraction and exponent is an
integer of any size; any other number is kept as it is written.

A text may be well formed and still hold no value, for instance a string with
half a surrogate pair. Its place in the tree is kept by `unusable`: whoever looks
at it fails, and whoever passes over it need not know.

Key definitions: `Json`, `Json.height`.
-/

namespace Lsl

/-- A JSON value, with the fields of an object in written order. -/
inductive Json where
  | null
  | bool (value : Bool)
  | int (value : Int)
  | real (text : String)
  | str (text : String)
  | arr (items : List Json)
  | obj (fields : List (String × Json))
  | unusable
deriving Repr, Inhabited

namespace Json

def nat (n : Nat) : Json := .int n

/-- The value, or `null` where there is none. -/
def orNull (encode : α → Json) : Option α → Json
  | none => .null
  | some a => encode a

def list (encode : α → Json) (items : List α) : Json := .arr (items.map encode)

mutual

/-- How many arrays and objects stand around the innermost value. -/
def height : Json → Nat
  | .arr items => heightItems items + 1
  | .obj fields => heightFields fields + 1
  | _ => 0

/-- The greatest height among the items. -/
def heightItems : List Json → Nat
  | [] => 0
  | v :: rest => max (height v) (heightItems rest)

/-- The greatest height among the fields. -/
def heightFields : List (String × Json) → Nat
  | [] => 0
  | (_, v) :: rest => max (height v) (heightFields rest)

end

end Json

end Lsl
