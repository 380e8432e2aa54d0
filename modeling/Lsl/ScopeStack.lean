/- # Open scopes

The scopes of a body that are open while it is resolved, the innermost first,
each with the local variables declared in it so far. A name is looked up from
the innermost scope outward.

Key definitions: `ScopeStack`, `ScopeStack.lookup?`, `ScopeStack.define`,
`ScopeStack.isOpen`.
-/
import Lsl.Tree.Node

namespace Lsl

/-- An open scope with its local variables, in the order of their declaration. -/
structure Frame where
  scopeId : Nat
  locals : List (String × NodeId) := []
deriving DecidableEq, Repr, Inhabited

/-- The open scopes, the innermost first. -/
structure ScopeStack where
  frames : List Frame := []
deriving DecidableEq, Repr, Inhabited

namespace ScopeStack

def push (s : ScopeStack) (scopeId : Nat) : ScopeStack := ⟨{ scopeId } :: s.frames⟩

/-- The innermost scope, and the stack without it. -/
def pop? (s : ScopeStack) : Option (Frame × ScopeStack) :=
  match s.frames with
  | [] => none
  | f :: rest => some (f, ⟨rest⟩)

/-- The declaration that the innermost scope knowing the name has for it. -/
def lookup? (s : ScopeStack) (name : String) : Option NodeId :=
  s.frames.findSome? (·.locals.lookup name)

/-- Declares a name in the innermost scope, or gives the declaration that the
name already has there. Without an open scope nothing is declared. -/
def define (s : ScopeStack) (name : String) (decl : NodeId) : Except NodeId ScopeStack :=
  match s.frames with
  | [] => .ok s
  | f :: rest =>
    match f.locals.lookup name with
    | some existing => .error existing
    | none => .ok ⟨{ f with locals := f.locals ++ [(name, decl)] } :: rest⟩

def isOpen (s : ScopeStack) (scopeId : Nat) : Bool := s.frames.any (·.scopeId == scopeId)

end ScopeStack

end Lsl
