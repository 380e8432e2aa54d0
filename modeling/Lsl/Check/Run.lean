/- # A run of the checker

What the checker knows beforehand (`Env`) and what it builds up (`Run`): the
tree, the notices in the order they come up, the open scopes, and the labels of
the body that are still to be met. Steps on expressions cannot fail; steps on
statements can, if the tree does not have the form expected of it.

Key definitions: `Env`, `Run`, `Check`, `CheckBody`.
-/
import Lsl.InternalError
import Lsl.Library.Catalog
import Lsl.Notice
import Lsl.ScopeStack
import Lsl.Tree.Basic

namespace Lsl

/-- The function or event handler whose body is being resolved. -/
structure Body where
  name : String
  returnType : Ty
  isEvent : Bool
  /-- The parameters by name; the first of a name counts. -/
  params : List (String × NodeId)
  /-- The labels by name; the first of a name counts. -/
  labels : List (String × NodeId)
deriving Repr, Inhabited

/-- What names stand for while a part of the script is resolved. -/
structure Env where
  library : Catalog
  warnUnused : Bool := true
  functions : List (String × NodeId) := []
  states : List (String × NodeId) := []
  globals : List (String × NodeId) := []
  /-- The body being resolved; none while an initializer of a global is. -/
  body : Option Body := none

namespace Env

/-- Initializers of globals may not compute anything. -/
def isStatic (env : Env) : Bool := env.body.isNone

def param? (env : Env) (name : String) : Option NodeId :=
  env.body.bind (·.params.lookup name)

def label? (env : Env) (name : String) : Option NodeId :=
  env.body.bind (·.labels.lookup name)

end Env

/-- What the checker has built so far. -/
structure Run where
  tree : Tree := {}
  notices : List Notice := []
  scopes : ScopeStack := {}
  /-- The labels of the body that are still to be met, in written order. -/
  labels : List NodeId := []
  /-- The number of the scope opened last in the body. -/
  lastScope : Nat := 0
deriving Repr, Inhabited

/-- A step that cannot fail. -/
abbrev Check := StateM Run

/-- A step that fails if the tree does not have the form expected of it. -/
abbrev CheckBody := StateT Run (Except InternalError)

instance : MonadLift Check CheckBody where
  monadLift step := fun run => .ok (step run)

namespace Check

def tree : Check Tree := return (← get).tree

def modifyTree (f : Tree → Tree) : Check Unit :=
  modify fun run => { run with tree := f run.tree }

def alloc (kind : NodeKind) (span : Span) : Check NodeId :=
  modifyGet fun run =>
    let (tree, id) := run.tree.alloc kind span
    (id, { run with tree })

def allocError (span : Span) : Check NodeId :=
  modifyGet fun run =>
    let (tree, id) := run.tree.allocError span
    (id, { run with tree })

def allocStmt (kind : StmtKind) (span : Span) : Check NodeId :=
  alloc (.stmt { kind }) span

def fill (id : NodeId) (kind : NodeKind) : Check Unit :=
  modifyTree fun t => (t.fill id kind).1

def report (notice : Notice) : Check Unit :=
  modify fun run => { run with notices := run.notices ++ [notice] }

def fault (kind : Fault) (span : Span) : Check Unit := report (.fault kind span)

def warn (kind : Warning) (span : Span) : Check Unit := report (.warning kind span)

/-- Reports an error and marks the node it is about. -/
def faultAt (id : NodeId) (kind : Fault) (span : Span) : Check Unit := do
  modifyTree (·.markError id)
  fault kind span

end Check

namespace CheckBody

/-- What a lookup finds; finding nothing means that the tree is malformed. -/
def expect (found : Option α) (id : NodeId) (expected : String) : CheckBody α :=
  match found with
  | some a => pure a
  | none => throw (.unexpectedNode id expected)

end CheckBody

/-- A wrong expression whose type is unknown. What depends on it is not
checked, so that one mistake is reported once. -/
def Tree.untyped (t : Tree) (id : NodeId) : Bool := t.hasErrors id && (t.exprType id).isVoid

end Lsl
