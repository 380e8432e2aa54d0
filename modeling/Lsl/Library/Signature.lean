/- # Signatures of library entries

What a runtime offers to scripts: functions, constants and events. A function
may end in a variadic parameter, which takes any number of arguments; one of
type `void` takes arguments of every type.

Key definitions: `LibraryParam`, `LibraryFunction`, `LibraryConstant`,
`LibraryEvent`, `LibraryFunction.paramTypeAt`.
-/
import Lsl.Ty

namespace Lsl

/-- A parameter of a library function or event. -/
structure LibraryParam where
  name : String
  ty : Ty
  /-- Takes any number of further arguments. -/
  variadic : Bool := false
deriving DecidableEq, Repr, Inhabited

/-- One overload of a library function. -/
structure LibraryFunction where
  name : String
  returnType : Ty := .void
  params : List LibraryParam := []
  /-- Called through the generic entry points of the runtime. -/
  modInvoke : Bool := false
  deprecated : Bool := false
deriving DecidableEq, Repr, Inhabited

/-- A named value, in the form it has in a script. -/
structure LibraryConstant where
  name : String
  ty : Ty
  value : String
  /-- Generated code shows the value and not the name. -/
  expand : Bool := false
  deprecated : Bool := false
deriving DecidableEq, Repr, Inhabited

/-- An event that a state may handle. -/
structure LibraryEvent where
  name : String
  params : List LibraryParam := []
  deprecated : Bool := false
deriving DecidableEq, Repr, Inhabited

namespace LibraryFunction

def isVariadic (f : LibraryFunction) : Bool :=
  f.params.getLast?.any (·.variadic)

/-- The number of arguments that every call has to bring. -/
def fixedCount (f : LibraryFunction) : Nat :=
  if f.isVariadic then f.params.length - 1 else f.params.length

/-- The declared type of the parameter that takes the argument at `index`. -/
def paramTypeAt (f : LibraryFunction) (index : Nat) : Option Ty :=
  match f.params[index]? with
  | some p => some p.ty
  | none => (f.params.getLast?.filter (·.variadic)).map (·.ty)

/-- What tells two overloads of a name apart: the types of the parameters and
which of them are variadic. -/
def shape (f : LibraryFunction) : List (Ty × Bool) :=
  f.params.map fun p => (p.ty, p.variadic)

/-- Only the last parameter may be variadic. -/
def wellPlaced (f : LibraryFunction) : Bool :=
  f.params.dropLast.all (!·.variadic)

/-- A parameter as it is shown in a signature. -/
def showParam (p : LibraryParam) : String :=
  (if p.variadic then "params " else "") ++ p.ty.name ++ " " ++ p.name

/-- The signature as it is shown to a reader; a `void` result is left out. -/
def signature (f : LibraryFunction) : String :=
  (if f.returnType.isVoid then "" else f.returnType.name ++ " ") ++ f.name ++ "("
    ++ ", ".intercalate (f.params.map showParam) ++ ")"

end LibraryFunction

/-- The signature that a handler of the event has to have. -/
def LibraryEvent.signature (e : LibraryEvent) : String :=
  e.name ++ "(" ++ ", ".intercalate (e.params.map fun p => p.ty.name ++ " " ++ p.name) ++ ")"

end Lsl
