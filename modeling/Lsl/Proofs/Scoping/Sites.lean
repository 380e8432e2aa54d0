/- # Where names are used

The places of a script where a name has to be looked up, told from the script
alone: names of variables, calls and jumps, each with what is declared around
it. A name stands for the first local variable of that name in the innermost
block that declares one above the place, else for a parameter, else for a
global, else for a constant of the library. Declarations that are refused do
not count.

Nodes are made in a fixed order, parts first, so the number of the node that a
place becomes is known beforehand. Only labels are made ahead of the statements
around them.

Key definitions: `BlockView`, `Surroundings`, `Surroundings.select`, `Site`,
`Site.report?`, `Site.Bound`, `Script.sites`.
-/
import Lsl.Library.Catalog
import Lsl.Notice
import Lsl.Proofs.Check.LabelSites

namespace Lsl

/-! ### What is declared around a place -/

/-- A block around a place: its number, and the local variables that are
declared in it above the place, with their nodes. -/
structure BlockView where
  scopeId : Nat
  locals : List (String × NodeId) := []
deriving DecidableEq, Repr, Inhabited

/-- What a block has for a name. A local variable named like a constant of the
library is refused, and so is a second one of a name. -/
def BlockView.local? (library : Catalog) (b : BlockView) (name : String) : Option NodeId :=
  if library.hasConstant name then none else b.locals.lookup name

/-- The local variables that are declared around a place. -/
def visibleLocals (blocks : List BlockView) : List (String × NodeId) := blocks.flatMap (·.locals)

/-- What is declared outside the blocks around a place. -/
structure Surroundings where
  /-- All functions of the script. -/
  functions : List (String × NodeId) := []
  /-- The globals that can be used, refused ones included. -/
  globals : List (String × NodeId) := []
  params : List (String × NodeId) := []
  /-- The labels of the body. -/
  labels : List LabelSite := []
deriving Repr, Inhabited

namespace Surroundings

/-- The global that a name stands for; one named like a constant of the library
is refused, and so is a second one of a name. -/
def global? (library : Catalog) (o : Surroundings) (name : String) : Option NodeId :=
  if library.hasConstant name then none else o.globals.lookup name

/-- What a name stands for. The blocks come from the innermost outward. -/
def select (library : Catalog) (o : Surroundings) (blocks : List BlockView) (name : String) :
    Option Binding :=
  ((blocks.findSome? (·.local? library name)).map .inner).or <|
    ((o.params.lookup name).map .param).or <|
      ((o.global? library name).map .global).or <|
        (library.constant? name).map .constant

/-- The function of the script that a call runs; one named like a function of
the library is refused, and so is a second one of a name. -/
def function? (library : Catalog) (o : Surroundings) (name : String) : Option NodeId :=
  if library.hasFunction name then none else o.functions.lookup name

/-- The label that a jump means: the first of its name. -/
def label? (o : Surroundings) (name : String) : Option LabelSite :=
  o.labels.find? (·.name == name)

/-- A jump leads nowhere: there is no label of its name, or the first one is
neither in the block of the jump nor in one around it. -/
def isStray (o : Surroundings) (blocks : List BlockView) (name : String) : Bool :=
  (o.label? name).all fun site => !blocks.any (·.scopeId == site.scopeId)

end Surroundings

/-! ### Places -/

/-- A place where a name is looked up, with the node it becomes. -/
inductive Site where
  | name (node : NodeId) (name : String) (span : Span) (blocks : List BlockView)
  | call (node : NodeId) (name : String) (span : Span)
  | jump (node : NodeId) (name : String) (span : Span) (blocks : List BlockView)
deriving Repr, Inhabited

namespace Site

/-- The error of a name that stands for nothing. -/
def report? (library : Catalog) (o : Surroundings) : Site → Option Notice
  | name _ ident span blocks =>
    if (o.select library blocks ident).isNone then some (.fault (.undefinedVariable ident) span)
    else none
  | call _ ident span =>
    if (o.function? library ident).isNone && !library.hasFunction ident then
      some (.fault (.undefinedFunction ident) span)
    else none
  | jump _ label span blocks =>
    if o.isStray blocks label then some (.fault (.jumpToUndefinedLabel label) span) else none

/-- The node of a place is bound as it should be; an error stands for a name or
a call that is bound to nothing. -/
def Bound (library : Catalog) (o : Surroundings) (t : Tree) : Site → Prop
  | name node ident _ blocks =>
    match o.select library blocks ident with
    | some binding => ∃ ty constant, t.expr? node = some ⟨.ref ident binding, ty, constant⟩
    | none => t.kind? node = some .error
  | call node ident _ =>
    match o.function? library ident with
    | some f => ∃ args ty constant, t.expr? node = some ⟨.call ident args (.user f), ty, constant⟩
    | none => t.kind? node = some .error
      ∨ ∃ f ∈ library.overloads ident, ∃ args ty constant, t.expr? node
        = some ⟨.call ident args (.library f.modInvoke (f.params.map (·.ty))), ty, constant⟩
  | jump node label _ blocks =>
    ∃ target always info, t.stmt? node = some ⟨.jump label target always, info⟩
      ∧ target.isNone = o.isStray blocks label
      ∧ ∀ l ∈ target, ∃ site, o.label? label = some site ∧ t.labelSite? l = some site

end Site

mutual

/-- The number of nodes that an expression becomes. -/
def Expr.nodes : Expr → Nat
  | .integer .. | .hex .. | .float .. | .string .. | .ident .. => 1
  | .vector x y z _ => x.nodes + y.nodes + z.nodes + 1
  | .rotation x y z s _ => x.nodes + y.nodes + z.nodes + s.nodes + 1
  | .list items _ => nodesOfExprs items + 1
  | .component object _ _ => object.nodes + 1
  | .call _ args _ => nodesOfExprs args + 1
  | .binary _ left right _ => left.nodes + right.nodes + 1
  | .prefixed _ operand _ | .postfixed _ operand _ | .cast _ operand _ | .paren operand _ =>
    operand.nodes + 1

def nodesOfExprs : List Expr → Nat
  | [] => 0
  | e :: rest => e.nodes + nodesOfExprs rest

end

mutual

/-- The places in an expression whose first node is `node`. -/
def Expr.sites (blocks : List BlockView) (node : NodeId) : Expr → List Site
  | .integer .. | .hex .. | .float .. | .string .. => []
  | .ident name span => [.name node name span blocks]
  | .vector x y z _ =>
    x.sites blocks node ++ y.sites blocks (node + x.nodes)
      ++ z.sites blocks (node + x.nodes + y.nodes)
  | .rotation x y z s _ =>
    x.sites blocks node ++ y.sites blocks (node + x.nodes)
      ++ z.sites blocks (node + x.nodes + y.nodes)
      ++ s.sites blocks (node + x.nodes + y.nodes + z.nodes)
  | .list items _ => sitesOfExprs blocks node items
  | .component object _ _ => object.sites blocks node
  | .call name args span =>
    sitesOfExprs blocks node args ++ [.call (node + nodesOfExprs args) name span]
  | .binary _ left right _ => left.sites blocks node ++ right.sites blocks (node + left.nodes)
  | .prefixed _ operand _ | .postfixed _ operand _ | .cast _ operand _ | .paren operand _ =>
    operand.sites blocks node

def sitesOfExprs (blocks : List BlockView) (node : NodeId) : List Expr → List Site
  | [] => []
  | e :: rest => e.sites blocks node ++ sitesOfExprs blocks (node + e.nodes) rest

end

/-- What statements become: the number of the next node, the number of the
scope that was opened last, and the places in them. -/
structure Survey where
  node : NodeId
  last : Nat
  sites : List Site := []
deriving Repr, Inhabited

namespace Survey

/-- What follows, after the places of what comes first. -/
def after (first next : Survey) : Survey := { next with sites := first.sites ++ next.sites }

/-- Expressions that are resolved next. -/
def exprs (s : Survey) (blocks : List BlockView) (es : List Expr) : Survey :=
  { s with node := s.node + nodesOfExprs es, sites := s.sites ++ sitesOfExprs blocks s.node es }

/-- One more node, made of the ones before it. -/
def close (s : Survey) : Survey := { s with node := s.node + 1 }

end Survey

/-- The blocks behind a statement: a declaration is known from there on. Its node
is the last one that was made. -/
def blocksAfter (blocks : List BlockView) (stmt : Stmt) (next : NodeId) : List BlockView :=
  match stmt, blocks with
  | .plain (.declare d _), b :: outer =>
    { b with locals := b.locals ++ [(d.name, next - 1)] } :: outer
  | _, blocks => blocks

mutual

/-- The places in the statements of the innermost block. -/
def surveyStmts (blocks : List BlockView) (node last : Nat) : List Stmt → Survey
  | [] => { node, last }
  | s :: rest =>
    let first := surveyStmt blocks node last s
    first.after (surveyStmts (blocksAfter blocks s first.node) first.node first.last rest)

def surveyStmt (blocks : List BlockView) (node last : Nat) : Stmt → Survey
  | .block (.mk stmts _) _ =>
    (surveyStmts ({ scopeId := last + 1 } :: blocks) node (last + 1) stmts).close.close
  | .plain stmt => surveyPlain blocks node last stmt

def surveyPlain (blocks : List BlockView) (node last : Nat) : PlainStmt → Survey
  | .empty _ | .stateChange .. => { node := node + 1, last }
  -- the node of a label is there already
  | .label .. => { node, last }
  | .jump name span => { node := node + 1, last, sites := [.jump node name span blocks] }
  | .expr e _ => (Survey.exprs { node, last } blocks [e]).close
  | .declare d _ => (Survey.exprs { node, last } blocks d.init.toList).close
  | .ret value _ => (Survey.exprs { node, last } blocks value.toList).close
  | .branch cond thenBranch elseIfs elseBranch _ =>
    let head := Survey.exprs { node, last } blocks [cond]
    let first := head.after (surveyBody blocks head.node last thenBranch)
    let middle := first.after (surveyElseIfs blocks first.node first.last elseIfs)
    (middle.after (surveyElse blocks middle.node middle.last elseBranch)).close
  | .whileLoop cond body _ =>
    let head := Survey.exprs { node, last } blocks [cond]
    (head.after (surveyBody blocks head.node last body)).close
  | .doWhile body cond _ => ((surveyBody blocks node last body).exprs blocks [cond]).close
  | .forLoop init cond step body _ =>
    let head := Survey.exprs { node, last } blocks (init ++ cond.toList ++ step)
    (head.after (surveyBody blocks head.node last body)).close

/-- A body opens a block, with or without braces. -/
def surveyBody (blocks : List BlockView) (node last : Nat) : Stmt → Survey
  | .block (.mk stmts _) _ =>
    (surveyStmts ({ scopeId := last + 1 } :: blocks) node (last + 1) stmts).close
  | .plain stmt => (surveyPlain ({ scopeId := last + 1 } :: blocks) node (last + 1) stmt).close

def surveyElseIfs (blocks : List BlockView) (node last : Nat) : List ElseIf → Survey
  | [] => { node, last }
  | .mk cond body _ :: rest =>
    let head := Survey.exprs { node, last } blocks [cond]
    let first := head.after (surveyBody blocks head.node last body)
    first.after (surveyElseIfs blocks first.node first.last rest)

def surveyElse (blocks : List BlockView) (node last : Nat) : Option Stmt → Survey
  | none => { node, last }
  | some body => surveyBody blocks node last body

end

/-! ### Scripts -/

/-- Parameters by name; they are made one after the other. -/
def numberParams (node : NodeId) (params : List Param) : List (String × NodeId) :=
  (params.zipIdx node).map fun (p, id) => (p.name, id)

/-- Functions with their nodes; the parameters of a function come before it. -/
def numberFunctions (node : NodeId) : List FunctionDecl → List (FunctionDecl × NodeId)
  | [] => []
  | d :: rest =>
    (d, node + d.params.length) :: numberFunctions (node + d.params.length + 1) rest

/-- The number of nodes that functions become before their bodies are resolved. -/
def nodesOfFunctions : List FunctionDecl → Nat
  | [] => 0
  | d :: rest => d.params.length + 1 + nodesOfFunctions rest

/-- The number of nodes that globals become. -/
def nodesOfGlobals : List VarDecl → Nat
  | [] => 0
  | d :: rest => nodesOfExprs d.init.toList + 1 + nodesOfGlobals rest

/-- Globals with their nodes; the initial value of a global comes before it. -/
def numberGlobals (node : NodeId) : List VarDecl → List (VarDecl × NodeId)
  | [] => []
  | d :: rest =>
    let id := node + nodesOfExprs d.init.toList
    (d, id) :: numberGlobals (id + 1) rest

/-- The places in initial values; each sees the globals before its own. -/
def sitesOfGlobals (o : Surroundings) (node : NodeId) : List VarDecl → List (Surroundings × Site)
  | [] => []
  | d :: rest =>
    let id := node + nodesOfExprs d.init.toList
    (sitesOfExprs [] node d.init.toList).map (o, ·)
      ++ sitesOfGlobals { o with globals := o.globals ++ [(d.name, id)] } (id + 1) rest

/-- A body whose labels are made first. The node of its scope is the last one. -/
def surveyBlock (node : NodeId) (body : Block) : Survey :=
  (surveyStmts [{ scopeId := 1 }] (node + body.labelSites.length) 1 body.stmts).close

/-- The places in bodies with their parameters, and the number of the next node. -/
def sitesOfFunctions (o : Surroundings) (node : NodeId) :
    List (FunctionDecl × NodeId) → NodeId × List (Surroundings × Site)
  | [] => (node, [])
  | (d, id) :: rest =>
    let inner := { o with
      params := numberParams (id - d.params.length) d.params, labels := d.body.labelSites }
    let body := surveyBlock node d.body
    let (next, more) := sitesOfFunctions o body.node rest
    (next, body.sites.map (inner, ·) ++ more)

/-- The places in event handlers. The parameters come first, then the body, then
the handler itself. -/
def sitesOfHandlers (o : Surroundings) (node : NodeId) :
    List HandlerDecl → NodeId × List (Surroundings × Site)
  | [] => (node, [])
  | d :: rest =>
    let inner := { o with params := numberParams node d.params, labels := d.body.labelSites }
    let body := surveyBlock (node + d.params.length) d.body
    let (next, more) := sitesOfHandlers o (body.node + 1) rest
    (next, body.sites.map (inner, ·) ++ more)

namespace Script

/-- All states, the default state first. -/
def allStates (script : Script) : List StateDecl := script.defaultState.toList ++ script.states

/-- The functions with their nodes. -/
def functionNodes (script : Script) : List (FunctionDecl × NodeId) :=
  numberFunctions 0 script.functions

/-- The number of the first node behind functions and states. -/
def firstGlobalNode (script : Script) : NodeId :=
  nodesOfFunctions script.functions + script.allStates.length

/-- The globals with their nodes. -/
def globalNodes (script : Script) : List (VarDecl × NodeId) :=
  numberGlobals script.firstGlobalNode script.globals

/-- The number of the first node behind the globals. -/
def firstBodyNode (script : Script) : NodeId :=
  script.firstGlobalNode + nodesOfGlobals script.globals

/-- All functions by name. -/
def outermost (script : Script) : Surroundings where
  functions := script.functionNodes.map fun (d, id) => (d.name, id)

/-- All functions and globals by name, as every body sees them. -/
def aroundBodies (script : Script) : Surroundings :=
  { script.outermost with globals := script.globalNodes.map fun (d, id) => (d.name, id) }

/-- The places in the bodies. -/
def bodySites (script : Script) : List (Surroundings × Site) :=
  let functions := sitesOfFunctions script.aroundBodies script.firstBodyNode script.functionNodes
  functions.2 ++ (sitesOfHandlers script.aroundBodies functions.1
    (script.allStates.flatMap (·.handlers))).2

/-- All places of the script with what is declared around them, in the order
they are resolved. -/
def sites (script : Script) : List (Surroundings × Site) :=
  sitesOfGlobals script.outermost script.firstGlobalNode script.globals ++ script.bodySites

end Script

end Lsl
