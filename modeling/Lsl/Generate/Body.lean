/- # Host code for bodies

Dead statements are left out, labels apart, since a jump may still name them;
so are statements without an effect and labels that no jump leads to. Where the
runtime may end the script, bodies of loops, functions and event handlers start
with a checkpoint, and labels hold one.

Key definitions: `initialValue`, `hostStmt`, `hostBody`.
-/
import Lsl.Generate.Expr

namespace Lsl

/-- The value of a variable that is declared without one. -/
def defaultValue : Ty → Generator HostExpr
  | .integer => return .text "0"
  | .float => return .text "0.0"
  | .string | .key => return .text "\"\""
  | .vector => return .make .vector [.text "0,0,0"]
  | .rotation => return .make .rotation [.text "0,0,0,1"]
  | .list => return .make .list []
  | .void => throw .voidDeclaration

/-- The value that a variable starts with. -/
def initialValue (t : Tree) (inContainer : Bool) (var : Variable) : Generator HostExpr :=
  match var.init with
  | some init => hostExpr t inContainer .value init
  | none => defaultValue var.ty

/-- The code of an expression that may be missing. -/
def hostOption (code : NodeId → Generator HostExpr) : Option NodeId → Generator (Option HostExpr)
  | some id => return some (← code id)
  | none => return none

/-- The code of the bodies inside a statement. -/
abbrev BodyCode := NodeId → Generator (List HostStmt)

def hostArm (t : Tree) (body : BodyCode) (arm : NodeId × NodeId) : Generator HostArm := do
  let cond ← hostCondition t arm.1
  return .mk cond (← body arm.2)

/-- The code of a statement that is not left out for being dead. -/
def stmtCode (t : Tree) (checkpoints : Bool) (body : BodyCode) : StmtKind → Generator (List HostStmt)
  | .empty => return []
  | .expr value =>
    if t.hasEffect value then return [.eval (← hostStatement t value)] else return []
  | .declare var =>
    return [.declare var.ty var.declaredIn var.name (← initialValue t false var)]
  | .ret value => return [.ret (← hostOption (hostExpr t false .value) value)]
  | .jump label _ _ => return [.goto label]
  | .label name jumps => return if jumps.isEmpty then [] else [.label name checkpoints]
  | .stateChange target _ => return [.changeState target]
  | .branch cond thenScope elseIfs elseScope => do
    let cond ← hostCondition t cond
    let thenBody ← body thenScope
    let arms ← elseIfs.mapM (hostArm t body)
    match elseScope with
    | some scope => return [.branch cond thenBody arms (some (← body scope))]
    | none => return [.branch cond thenBody arms none]
  | .whileLoop cond scope => do
    let cond ← hostCondition t cond
    return [.whileLoop cond (← body scope)]
  | .doWhile scope cond => do
    let code ← body scope
    return [.doWhile code (← hostCondition t cond)]
  | .forLoop init cond step scope => do
    let init ← init.mapM (hostStatement t)
    let cond ← hostOption (hostCondition t) cond
    let step ← step.mapM (hostStatement t)
    return [.forLoop init cond step (← body scope)]
  | .block scope => return [.block (← body scope)]

/-- The code of a statement. -/
def hostStmt (t : Tree) (checkpoints : Bool) (body : BodyCode) (id : NodeId) :
    Generator (List HostStmt) := do
  let s ← Generator.expect (t.stmt? id) id "a statement"
  if s.info.dead.isDead && !s.kind.isLabel then return []
  else stmtCode t checkpoints body s.kind

/-- Whether a body starts with a checkpoint where there are any. -/
def ScopeKind.holdsCheckpoint (k : ScopeKind) : Bool := k.isLoopBody || k.isCallableBody

/-- The code of a scope that has at most `depth` levels of scopes. -/
def hostBodyWithin (t : Tree) (checkpoints : Bool) : Nat → NodeId → Generator (List HostStmt)
  | 0, id => throw (.endless id)
  | depth + 1, id => do
    let scope ← Generator.expect (t.scope? id) id "a code scope"
    let stmts ← scope.statements.mapM (hostStmt t checkpoints (hostBodyWithin t checkpoints depth))
    let start := if checkpoints && scope.kind.holdsCheckpoint then [.checkpoint] else []
    return start ++ stmts.flatten

/-- The code of a scope. -/
def hostBody (t : Tree) (checkpoints : Bool) (id : NodeId) : Generator (List HostStmt) :=
  hostBodyWithin t checkpoints (t.size + 1) id

end Lsl
