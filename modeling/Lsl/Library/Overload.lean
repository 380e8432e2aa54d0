/- # Choosing an overload

A call is checked against the overloads of a library function. An argument
whose type is unknown, because it is already wrong, fits every parameter.
Among several overloads that accept the arguments, one that needs no
conversion is taken.

Key definitions: `Argument`, `LibraryFunction.mismatch?`, `selectOverload`.
-/
import Lsl.Library.Signature
import Lsl.Typing

namespace Lsl

/-- What is known about an argument of a call. -/
inductive Argument where
  | typed (ty : Ty)
  /-- The argument is wrong, and its type is unknown. -/
  | untyped
deriving DecidableEq, Repr, Inhabited

/-- The type an argument is shown with. -/
def Argument.ty : Argument → Ty
  | typed t => t
  | untyped => .void

/-- Why an overload does not accept the arguments of a call. -/
inductive Mismatch where
  | count
  /-- The argument at `index`, counted from 0, does not fit its parameter. -/
  | type (index : Nat) (expected : Ty)
deriving DecidableEq, Repr, Inhabited

namespace LibraryFunction

/-- Whether the argument at `index` fits. An argument that a variadic parameter
of type `void` takes needs to have a value, and no more. -/
def argumentMismatch? (f : LibraryFunction) (index : Nat) : Argument → Option Mismatch
  | .untyped => none
  | .typed found =>
    match f.paramTypeAt index with
    | none => some .count
    | some expected =>
      if f.isVariadic && f.fixedCount ≤ index && expected.isVoid then
        if found.isVoid then some (.type index expected) else none
      else if assignable expected found then none
      else some (.type index expected)

/-- The first argument, from `index` on, that does not fit. -/
def firstMismatch? (f : LibraryFunction) (index : Nat) : List Argument → Option Mismatch
  | [] => none
  | a :: rest => (f.argumentMismatch? index a).or (f.firstMismatch? (index + 1) rest)

def countFits (f : LibraryFunction) (count : Nat) : Bool :=
  if f.isVariadic then f.fixedCount ≤ count else count == f.fixedCount

/-- Why the overload does not accept the arguments, if it does not. -/
def mismatch? (f : LibraryFunction) (args : List Argument) : Option Mismatch :=
  if f.countFits args.length then f.firstMismatch? 0 args else some .count

def accepts (f : LibraryFunction) (args : List Argument) : Bool := (f.mismatch? args).isNone

/-- Whether the arguments, from `index` on, need no conversion. -/
def exactFrom (f : LibraryFunction) (index : Nat) : List Argument → Bool
  | [] => true
  | a :: rest =>
    (f.paramTypeAt index).any (fun t => t == a.ty || t.isVoid) && f.exactFrom (index + 1) rest

/-- Whether the arguments need no conversion. -/
def exactly (f : LibraryFunction) (args : List Argument) : Bool := f.exactFrom 0 args

end LibraryFunction

/-- Why no overload is chosen. -/
inductive SelectionFailure where
  | noMatch
  | ambiguous
deriving DecidableEq, Repr, Inhabited

/-- The overload that a call with these arguments means. -/
def selectOverload (overloads : List LibraryFunction) (args : List Argument) :
    Except SelectionFailure LibraryFunction :=
  match overloads.filter (·.accepts args) with
  | [] => .error .noMatch
  | [f] => .ok f
  | candidates =>
    match candidates.filter (·.exactly args) with
    | [f] => .ok f
    | _ => .error .ambiguous

end Lsl
