/- # Resolving statements

Statements are resolved in the order they are written, and each is appended to
its scope at once, so that it is known to be live or dead before the next one
is looked at. A scope is closed with the warnings about its local variables and
its dead code.

What a compound statement does to the flow of control is read off its scopes:
a block always does what it does inside, and a branch with an `else` always
does what all its arms do.

Key definitions: `inScope`, `resolveStmts`, `resolvePlain`, `resolveBody`.
-/
import Lsl.Check.Expr
import Lsl.Reachability

namespace Lsl

/-! ### Scopes -/

/-- Opens the next scope of the body and gives its number. -/
def openScope : Check Nat :=
  modifyGet fun run =>
    let scope := run.lastScope + 1
    (scope, { run with lastScope := scope, scopes := run.scopes.push scope })

/-- Closes the innermost scope and gives its local variables. -/
def closeFrame : Check (List (String × NodeId)) :=
  modifyGet fun run =>
    match run.scopes.pop? with
    | some (frame, rest) => (frame.locals, { run with scopes := rest })
    | none => ([], run)

/-- A local variable that nothing refers to, though its declaration can run. -/
def isUnusedLocal (t : Tree) (decl : NodeId) : Bool :=
  (t.var? decl).any (·.references.isEmpty) && !t.isDeadDeclaration decl

def warnUnusedLocals (locals : List (String × NodeId)) : Check Unit :=
  locals.forM fun (name, decl) => do
    let t ← Check.tree
    if isUnusedLocal t decl then Check.warn (.localNeverUsed name) (t.span decl)

/-- The function around the body, if it has to return a value. -/
def Env.valueFunction? (env : Env) : Option String :=
  (env.body.filter fun b => !b.isEvent && !b.returnType.isVoid).map (·.name)

/-- Dead code is worth a warning; after a return in a function that returns a
value it is an error. -/
def reportSegment (env : Env) (segment : DeadSegment) : Check Unit :=
  match env.valueFunction?, segment.reason with
  | some name, .afterReturn => do
    segment.statements.head?.forM fun first => Check.modifyTree (·.markError first)
    Check.fault (.deadCodeAfterReturn name) segment.span
  | _, reason => Check.warn (.deadCode reason) segment.span

/-- Closes a scope whose statements the tracker has seen. -/
def closeScope (env : Env) (kind : ScopeKind) (span : Span) (tracker : Tracker) :
    Check NodeId := do
  let locals ← closeFrame
  if env.warnUnused then warnUnusedLocals locals
  let segments := tracker.segments
  segments.forM (reportSegment env)
  Check.alloc (.scope {
    scopeId := tracker.scopeId
    kind
    singleStatement := tracker.singleStatement
    statements := tracker.statements
    deadSegments := segments
    constantJumps := tracker.constantJumps
    returnPath := tracker.returnPath }) span

/-- A new scope with the statements that `fill` appends to it. -/
def inScope (env : Env) (kind : ScopeKind) (singleStatement : Bool) (span : Span)
    (fill : Tracker → CheckBody Tracker) : CheckBody NodeId := do
  let scopeId ← openScope
  let tracker ← fill { scopeId, singleStatement }
  closeScope env kind span tracker

/-- Appends a resolved statement to its scope. -/
def appendStmt (tracker : Tracker) (id : NodeId) (facts : Facts) : CheckBody Tracker := do
  let run ← get
  let appended := run.tree.append tracker id facts
  match appended.outcome with
  | .error e => throw e
  | .ok _ =>
    set { run with tree := appended.tree }
    return appended.tracker

/-! ### Plain statements -/

/-- Declares a local variable in the innermost scope. -/
def declareLocal (env : Env) (id : NodeId) (name : String) (span : Span) : Check Unit := do
  let run ← get
  if env.library.hasConstant name then Check.faultAt id (.libraryConstantRedefined name) span
  else
    match run.scopes.define name id with
    | .error previous => Check.faultAt id (.variableRedefined name (run.tree.span previous)) span
    | .ok scopes =>
      set { run with scopes }
      if (env.param? name).isSome then Check.warn (.localHidesParameter name) span
      else if (env.globals.lookup name).isSome then Check.warn (.localHidesGlobal name) span

def resolveDeclaration (env : Env) (scopeId : Nat) (singleStatement : Bool) (decl : VarDecl)
    (span : Span) : Check NodeId := do
  let init ← resolveOption env decl.init
  let id ← Check.allocStmt
    (.declare { name := decl.name, ty := decl.ty, scope := .inner, init, declaredIn := scopeId })
    span
  if singleStatement then Check.faultAt id (.declarationWithoutBraces decl.name) span
  declareLocal env id decl.name span
  init.forM (checkInitializer id decl.name decl.ty)
  return id

/-- What is wrong with a return, given the body it stands in. -/
def returnFault? (t : Tree) (body : Body) : Option NodeId → Option Fault
  | some value =>
    if body.isEvent then some .valueFromHandler
    else if body.returnType.isVoid then some (.valueFromVoidFunction body.name)
    else if t.untyped value || assignable body.returnType (t.exprType value) then none
    else some (.returnMismatch body.name body.returnType (t.exprType value))
  | none =>
    if !body.isEvent && !body.returnType.isVoid then
      some (.missingReturnValue body.name body.returnType)
    else none

def resolveReturn (env : Env) (value : Option Expr) (span : Span) : Check NodeId := do
  let value ← resolveOption env value
  let id ← Check.allocStmt (.ret value) span
  let t ← Check.tree
  (env.body.bind (returnFault? t · value)).forM fun kind => Check.faultAt id kind span
  return id

/-- The label that a jump leads to: the first of its name in the body, if its
scope is open. -/
def jumpTarget? (env : Env) (run : Run) (name : String) : Option (NodeId × StmtInfo) := do
  let target ← env.label? name
  let stmt ← run.tree.stmt? target
  if run.scopes.isOpen stmt.info.scopeId then some (target, stmt.info) else none

/-- Notes on a label a jump that leads to it. -/
def addJump (t : Tree) (label jump : NodeId) : Tree :=
  t.modifyStmt label fun s =>
    match s.kind with
    | .label name jumps => { s with kind := .label name (jumps ++ [jump]) }
    | _ => s

/-- A jump is always taken, unless its label is already known to be dead. -/
def resolveJump (env : Env) (index : Nat) (name : String) (span : Span) :
    Check (NodeId × Facts) := do
  let target := jumpTarget? env (← get) name
  let id ← Check.allocStmt (.jump name (target.map (·.1)) false) span
  match target with
  | none =>
    Check.faultAt id (.jumpToUndefinedLabel name) span
    return (id, {})
  | some (label, info) =>
    Check.modifyTree (addJump · label id)
    let jump : ConstantJump :=
      { jump := id, jumpIndex := index, label, targetScope := info.scopeId,
        targetIndex := info.index }
    return (id, { constantJump := if info.dead.isDead then none else some jump })

/-- The next of the labels found beforehand, which has to have this name. -/
def takeLabel (name : String) (span : Span) : CheckBody NodeId := do
  let run ← get
  match run.labels with
  | [] => throw (.labelOutOfSync span)
  | id :: rest =>
    set { run with labels := rest }
    match run.tree.stmt? id with
    | some ⟨.label found _, _⟩ => if found = name then return id else throw (.labelOutOfSync span)
    | _ => throw (.labelOutOfSync span)

def resolveStateChange (env : Env) (target : String) (span : Span) : Check NodeId := do
  let state := env.states.lookup target
  let id ← Check.allocStmt (.stateChange target state) span
  if state.isNone then Check.faultAt id (.stateChangeToUndefined target) span
  return id

/-! ### What compound statements do -/

/-- A jump seen from the statement around it. -/
def ConstantJump.seenFrom (j : ConstantJump) (jump : NodeId) (jumpIndex : Nat) : ConstantJump :=
  { j with jump, jumpIndex }

/-- The first constant jump that leads out of a scope. -/
def CodeScope.leavingJump? (s : CodeScope) : Option ConstantJump :=
  s.constantJumps.find? (·.targetScope != s.scopeId)

/-- The first constant jump whose label all other scopes always jump to as well. -/
def CodeScope.commonJump? (s : CodeScope) (others : List CodeScope) : Option ConstantJump :=
  s.constantJumps.find? fun j => others.all fun o => o.constantJumps.any (·.label == j.label)

def blockFacts (scope : CodeScope) (id index : Nat) : Facts where
  returns := scope.hasReturnPath
  constantJump := scope.leavingJump?.map (·.seenFrom id index)

/-- What a branch with an `else` does, given the scopes of all its arms. -/
def branchFacts (first : CodeScope) (others : List CodeScope) (id index : Nat) : Facts where
  returns := (first :: others).all (·.hasReturnPath)
  constantJump := (first.commonJump? others).map (·.seenFrom id index)

def getScope (id : NodeId) : CheckBody CodeScope := do
  CheckBody.expect ((← get).tree.scope? id) id "code scope"

def finishBlock (index : Nat) (scope : NodeId) (span : Span) : CheckBody (NodeId × Facts) := do
  let id ← Check.allocStmt (.block scope) span
  return (id, blockFacts (← getScope scope) id index)

def finishBranch (index : Nat) (cond thenScope : NodeId) (elseIfs : List (NodeId × NodeId))
    (elseScope : Option NodeId) (span : Span) : CheckBody (NodeId × Facts) := do
  let id ← Check.allocStmt (.branch cond thenScope elseIfs elseScope) span
  match elseScope with
  | none => return (id, {})
  | some last =>
    let first ← getScope thenScope
    let others ← (elseIfs.map (·.2) ++ [last]).mapM getScope
    return (id, branchFacts first others id index)

/-! ### Statements -/

mutual

/-- Resolves statements in order and appends each to its scope. -/
def resolveStmts (env : Env) : List Stmt → Tracker → CheckBody Tracker
  | [], tracker => return tracker
  | s :: rest, tracker => do
    let (id, facts) ← resolveStmt env tracker.scopeId tracker.nextIndex s
    resolveStmts env rest (← appendStmt tracker id facts)

/-- Resolves a statement of a braced scope. -/
def resolveStmt (env : Env) (scopeId index : Nat) : Stmt → CheckBody (NodeId × Facts)
  | .block (.mk stmts inner) span => do
    let scope ← inScope env .anonymousBlock false inner (resolveStmts env stmts)
    finishBlock index scope span
  | .plain stmt => resolvePlain env scopeId index false stmt

/-- Resolves a statement that is no block. -/
def resolvePlain (env : Env) (scopeId index : Nat) (singleStatement : Bool) :
    PlainStmt → CheckBody (NodeId × Facts)
  | .empty span => do
    if !singleStatement then Check.warn .uselessSemicolon span
    return (← Check.allocStmt .empty span, {})
  | .expr e span => do
    let value ← resolveExpr env e
    if !e.hasEffect then Check.warn .noEffect e.span
    return (← Check.allocStmt (.expr value) span, {})
  | .declare decl span => do
    return (← resolveDeclaration env scopeId singleStatement decl span, {})
  | .ret value span => do
    return (← resolveReturn env value span, { returns := true })
  | .jump name span => resolveJump env index name span
  | .label name span => do return (← takeLabel name span, {})
  | .stateChange target span => do return (← resolveStateChange env target span, {})
  | .branch cond thenBranch elseIfs elseBranch span => do
    let cond ← resolveCondition env cond
    let thenScope ← resolveBody env .ifBranch thenBranch
    let elseIfs ← resolveElseIfs env elseIfs
    let elseScope ← resolveElse env elseBranch
    finishBranch index cond thenScope elseIfs elseScope span
  | .whileLoop cond body span => do
    let cond ← resolveCondition env cond
    let body ← resolveBody env .whileBody body
    return (← Check.allocStmt (.whileLoop cond body) span, {})
  | .doWhile body cond span => do
    let body ← resolveBody env .doWhileBody body
    let cond ← resolveCondition env cond
    return (← Check.allocStmt (.doWhile body cond) span, {})
  | .forLoop init cond step body span => do
    let init ← resolveExprs env init
    let cond ← match cond with
      | none => pure none
      | some cond => some <$> resolveCondition env cond
    let step ← resolveExprs env step
    let body ← resolveBody env .forBody body
    return (← Check.allocStmt (.forLoop init cond step body) span, {})

/-- Resolves the body of a branch or loop, which is a scope with or without braces. -/
def resolveBody (env : Env) (kind : ScopeKind) : Stmt → CheckBody NodeId
  | .block (.mk stmts inner) _ => inScope env kind false inner (resolveStmts env stmts)
  | .plain stmt =>
    inScope env kind true stmt.span fun tracker => do
      let (id, facts) ← resolvePlain env tracker.scopeId 0 true stmt
      appendStmt tracker id facts

def resolveElseIfs (env : Env) : List ElseIf → CheckBody (List (NodeId × NodeId))
  | [] => return []
  | .mk cond body _ :: rest => do
    let cond ← resolveCondition env cond
    let body ← resolveBody env .elseIfBranch body
    return (cond, body) :: (← resolveElseIfs env rest)

def resolveElse (env : Env) : Option Stmt → CheckBody (Option NodeId)
  | none => return none
  | some body => some <$> resolveBody env .elseBranch body

end

end Lsl
