/- # The tree of a resolved script

A tree is a sequence of nodes, numbered in the order of their creation. Every
node knows its parent, which is set when the parent takes it as a child, and
whether it or anything below it is wrong. Marking a node as wrong marks all
nodes above it.

Links may point anywhere, so walks along them are bounded by the number of
nodes: a walk up a tree passes no node twice.

A tree also tells what was done to it, so that it can be said what held of it
all the while.

Key definitions: `TreeOp`, `Tree`, `Tree.alloc`, `Tree.fill`, `Tree.markError`,
`Tree.ancestors`.
-/
import Lsl.Tree.Node

namespace Lsl

/-- What is done to a tree, one thing at a time. -/
inductive TreeOp where
  | alloc (kind : NodeKind) (span : Span)
  | allocError (span : Span)
  | fill (id : NodeId) (kind : NodeKind)
  | markError (id : NodeId)
  /-- A node gets another kind and keeps its children. -/
  | update (id : NodeId) (kind : NodeKind)
deriving DecidableEq, Repr, Inhabited

/-- The nodes of a script, each at the place that is its number. -/
structure Tree where
  nodes : Array Node := #[]
  /-- What was done to the tree, the last thing first. -/
  log : List TreeOp := []
deriving DecidableEq, Repr, Inhabited

namespace Tree

def size (t : Tree) : Nat := t.nodes.size

/-! ### Looking at nodes -/

def node? (t : Tree) (id : NodeId) : Option Node := t.nodes[id]?

def kind? (t : Tree) (id : NodeId) : Option NodeKind := (t.node? id).map (·.kind)

/-- The span of a node; a node that does not exist has the empty span at 0. -/
def span (t : Tree) (id : NodeId) : Span := ((t.node? id).map (·.span)).getD {}

def parent? (t : Tree) (id : NodeId) : Option NodeId := (t.node? id).bind (·.parent)

def hasErrors (t : Tree) (id : NodeId) : Bool := (t.node? id).any (·.hasErrors)

def isError (t : Tree) (id : NodeId) : Bool := (t.kind? id).any (· == .error)

def expr? (t : Tree) (id : NodeId) : Option ExprNode := (t.kind? id).bind (·.expr?)

/-- The type of an expression; `void` for whatever is no expression. -/
def exprType (t : Tree) (id : NodeId) : Ty := ((t.expr? id).map (·.ty)).getD .void

def isConstant (t : Tree) (id : NodeId) : Bool := (t.expr? id).any (·.constant)

def stmt? (t : Tree) (id : NodeId) : Option StmtNode := (t.kind? id).bind (·.stmt?)

def scope? (t : Tree) (id : NodeId) : Option CodeScope := (t.kind? id).bind (·.scope?)

def function? (t : Tree) (id : NodeId) : Option FunctionNode := (t.kind? id).bind (·.function?)

/-- The variable that a node declares. -/
def var? (t : Tree) (id : NodeId) : Option Variable := (t.kind? id).bind (·.var?)

/-- A declaration of a local variable that can never run. -/
def isDeadDeclaration (t : Tree) (id : NodeId) : Bool :=
  (t.stmt? id).any fun s => s.kind.isDeclaration && s.info.dead.isDead

def children (t : Tree) (id : NodeId) : List NodeId :=
  ((t.kind? id).map (·.children)).getD []

/-- Parents from `next` upward, at most `steps` of them. -/
def climb (t : Tree) : Nat → Option NodeId → List NodeId
  | 0, _ | _, none => []
  | steps + 1, some id => id :: t.climb steps (t.parent? id)

/-- The nodes above a node, the nearest first. -/
def ancestors (t : Tree) (id : NodeId) : List NodeId := t.climb t.size (t.parent? id)

/-- The expression inside enclosing parentheses, at most `steps` of them. -/
def stripParens (t : Tree) : Nat → NodeId → NodeId
  | 0, id => id
  | steps + 1, id =>
    match t.expr? id with
    | some ⟨.paren inner, _, _⟩ => t.stripParens steps inner
    | _ => id

/-- The expression inside all enclosing parentheses. -/
def unparen (t : Tree) (id : NodeId) : NodeId := t.stripParens t.size id

/-! ### Changing nodes -/

/-- Changes a node. This and what is made of it alone is a part of what is done to a
tree, and is not told. -/
def modify (t : Tree) (id : NodeId) (f : Node → Node) : Tree :=
  { t with nodes := t.nodes.modify id f }

def changeKind (t : Tree) (id : NodeId) (f : NodeKind → NodeKind) : Tree :=
  t.modify id fun n => { n with kind := f n.kind }

/-- Changes a node, if there is one, in its place. -/
def modifyKind (t : Tree) (id : NodeId) (f : NodeKind → NodeKind) : Tree :=
  { t.changeKind id f with log := ((t.kind? id).map (.update id <| f ·)).toList ++ t.log }

def modifyStmt (t : Tree) (id : NodeId) (f : StmtNode → StmtNode) : Tree :=
  t.modifyKind id (·.mapStmt f)

def modifyFunction (t : Tree) (id : NodeId) (f : FunctionNode → FunctionNode) : Tree :=
  t.modifyKind id (·.mapFunction f)

def modifyVariable (t : Tree) (id : NodeId) (f : Variable → Variable) : Tree :=
  t.modifyKind id (·.mapVariable f)

/-- Marks nodes as wrong from `next` upward, at most `steps` of them. -/
def markUpward (t : Tree) : Nat → Option NodeId → Tree
  | 0, _ | _, none => t
  | steps + 1, some id =>
    match t.node? id with
    | none => t
    | some n => (t.modify id fun n => { n with hasErrors := true }).markUpward steps n.parent

/-- Marks a node and all nodes above it. -/
def mark (t : Tree) (id : NodeId) : Tree := t.markUpward t.size (some id)

/-- Marks a node and all nodes above it as wrong. -/
def markError (t : Tree) (id : NodeId) : Tree :=
  { t.mark id with log := .markError id :: t.log }

/-- Makes a node the parent of its children; a child that is wrong makes it wrong. -/
def adoptChildren (t : Tree) (id : NodeId) : Tree :=
  let cs := t.children id
  let adopted := cs.foldl (fun t c => t.modify c fun n => { n with parent := some id }) t
  if cs.any adopted.hasErrors then adopted.mark id else adopted

/-- One node more, which nothing has to do with yet. -/
def addNode (t : Tree) (n : Node) : Tree := { t with nodes := t.nodes.push n }

/-- One node more, which becomes the parent of its children. -/
def push (t : Tree) (kind : NodeKind) (span : Span) : Tree :=
  (t.addNode { kind, span }).adoptChildren t.size

/-- A new node, which becomes the parent of its children. -/
def alloc (t : Tree) (kind : NodeKind) (span : Span) : Tree × NodeId :=
  ({ t.push kind span with log := .alloc kind span :: t.log }, t.size)

/-- A new node for what could not be resolved. -/
def allocError (t : Tree) (span : Span) : Tree × NodeId :=
  let marked := (t.push .error span).modify t.size fun n => { n with hasErrors := true }
  ({ marked with log := .allocError span :: t.log }, t.size)

/-- Gives a node another kind and makes it the parent of its children. The
flag tells whether there is such a node. -/
def fill (t : Tree) (id : NodeId) (kind : NodeKind) : Tree × Bool :=
  if id < t.size then
    ({ (t.changeKind id fun _ => kind).adoptChildren id with log := .fill id kind :: t.log }, true)
  else (t, false)

end Tree

end Lsl
