/- # Decoding JSON

Small readers from which the readers of records and enumerations are put
together. A record is an object: fields it does not know are ignored, a field
it knows may stand only once. An enumeration is a tag, written as a string when
it has no payload and as the only field of an object when it has one; a tag
without payload may also stand as a field with `null`. No reader takes
`Json.unusable`, so it does harm only where a value is asked for.

Key definitions: `DecodeError`, `Json.field?`, `Json.required`,
`Json.defaulted`, `Json.variant`.
-/
import Lsl.Json.Basic

namespace Lsl

/-- Why a JSON value is not the record or enumeration it is read as. -/
inductive DecodeError where
  | expected (what : String)
  | missingField (name : String)
  | repeatedField (name : String)
  | unknownTag (tag : String)
deriving DecidableEq, Repr, Inhabited

namespace DecodeError

def message : DecodeError → String
  | expected what => "expected " ++ what
  | missingField name => "missing field `" ++ name ++ "`"
  | repeatedField name => "repeated field `" ++ name ++ "`"
  | unknownTag tag => "unknown variant `" ++ tag ++ "`"

end DecodeError

namespace Json

/-- A reader of one kind of value. -/
abbrev Decoder (α : Type) := Json → Except DecodeError α

def asString : Decoder String
  | .str text => .ok text
  | _ => .error (.expected "a string")

def asBool : Decoder Bool
  | .bool b => .ok b
  | _ => .error (.expected "a boolean")

/-- The largest offset that a span may hold. -/
def offsetLimit : Nat := 0xffffffffffffffff

/-- An integer from 0 up to `offsetLimit`. -/
def asOffset : Decoder Nat
  | .int (.ofNat n) => if n ≤ offsetLimit then .ok n else .error (.expected "a 64-bit offset")
  | _ => .error (.expected "a 64-bit offset")

/-- Reads every item, the first one first. -/
def decodeAll (decode : Decoder α) : List Json → Except DecodeError (List α)
  | [] => .ok []
  | v :: rest => do
    let a ← decode v
    return a :: (← decodeAll decode rest)

def asList (decode : Decoder α) : Decoder (List α)
  | .arr items => decodeAll decode items
  | _ => .error (.expected "an array")

/-- The value, or nothing for `null`. -/
def nullable (decode : Decoder α) : Decoder (Option α)
  | .null => .ok none
  | v => do return some (← decode v)

/-- The field of this name, if the object has one. -/
def field? (v : Json) (name : String) : Except DecodeError (Option Json) :=
  match v with
  | .obj fields =>
    match fields.filter (·.1 == name) with
    | [] => .ok none
    | [(_, value)] => .ok (some value)
    | _ => .error (.repeatedField name)
  | _ => .error (.expected "an object")

/-- A field that has to be there. -/
def required (v : Json) (name : String) (decode : Decoder α) : Except DecodeError α := do
  match ← v.field? name with
  | some value => decode value
  | none => .error (.missingField name)

/-- A field that stands for `default` when it is missing. -/
def defaulted (v : Json) (name : String) (default : α) (decode : Decoder α) :
    Except DecodeError α := do
  match ← v.field? name with
  | some value => decode value
  | none => return default

/-- A field that may be missing or `null`. -/
def optional (v : Json) (name : String) (decode : Decoder α) : Except DecodeError (Option α) :=
  v.defaulted name none (nullable decode)

/-- The tag of an enumeration and its payload; a bare tag has the payload `null`
marked as absent. -/
def variant : Decoder (String × Option Json)
  | .str tag => .ok (tag, none)
  | .obj [(tag, payload)] => .ok (tag, some payload)
  | _ => .error (.expected "a tag or an object with one field")

/-- The tag of an enumeration whose tags carry nothing. -/
def asTag (ofTag? : String → Option α) : Decoder α := fun v => do
  let (tag, payload) ← v.variant
  match payload, ofTag? tag with
  | none, some a | some .null, some a => return a
  | _, some _ => .error (.expected "a tag without payload")
  | _, none => .error (.unknownTag tag)

end Json

end Lsl
