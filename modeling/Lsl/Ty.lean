/- # Types of values

The seven value types of the language, and `void` for what has no value.

Key definitions: `Ty`, `Ty.name`, `Ty.ofName?`.
-/

namespace Lsl

/-- A type of the language; `void` is the result of a function that returns nothing. -/
inductive Ty where
  | integer
  | float
  | string
  | key
  | vector
  | rotation
  | list
  | void
deriving DecidableEq, Repr, Inhabited

namespace Ty

def name : Ty → String
  | integer => "integer"
  | float => "float"
  | string => "string"
  | key => "key"
  | vector => "vector"
  | rotation => "rotation"
  | list => "list"
  | void => "void"

/-- The name with a capital letter, as it stands inside host identifiers. -/
def title : Ty → String
  | integer => "Integer"
  | float => "Float"
  | string => "String"
  | key => "Key"
  | vector => "Vector"
  | rotation => "Rotation"
  | list => "List"
  | void => "Void"

def all : List Ty :=
  [integer, float, string, key, vector, rotation, list, void]

/-- The type with exactly this name. -/
def ofTag? (text : String) : Option Ty :=
  all.find? (·.name == text)

/-- The type that a keyword of the language names: `quaternion` is a second
word for `rotation`. -/
def ofName? (text : String) : Option Ty :=
  if text == "quaternion" then some rotation else ofTag? text

def isNumeric : Ty → Bool
  | integer | float => true
  | _ => false

/-- Strings and keys convert into each other without a cast. -/
def isStringLike : Ty → Bool
  | string | key => true
  | _ => false

def isVoid (t : Ty) : Bool := t == void

theorem ofTag?_name (t : Ty) : ofTag? t.name = some t := by
  cases t <;> decide

end Ty

end Lsl
