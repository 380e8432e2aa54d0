/- # Checking scripts

Functions and states are declared first, so that they may be used before they
are written; then the globals are resolved in order, each seeing those before
it; then the bodies. A function named like one of the library, a second one of
a name and a second state of a name are reported and not declared.

Key definitions: `CheckOptions`, `CheckedScript`, `Script.check`.
-/
import Lsl.Check.Stmt
import Lsl.Labels

namespace Lsl

structure CheckOptions where
  /-- Warn about functions and variables that are never used. -/
  warnUnused : Bool := true
  /-- Order the notices by their place in the source. -/
  sortNotices : Bool := true
deriving DecidableEq, Repr, Inhabited

/-- A resolved script with everything there is to say about it. -/
structure CheckedScript where
  tree : Tree
  root : NodeId
  hasErrors : Bool
  notices : List Notice
deriving Repr, Inhabited

/-- The names declared so far, with their nodes; the first of a name counts. -/
abbrev Names := List (String × NodeId)

/-! ### Declarations -/

/-- Declares parameters, given the names of those before them. -/
def declareParams (library : Catalog) : List String → List Param → Check (List NodeId)
  | _, [] => return []
  | seen, p :: rest => do
    let id ← Check.alloc (.param { name := p.name, ty := p.ty, scope := .parameter }) p.span
    if seen.contains p.name then Check.faultAt id (.parameterRedefined p.name) p.span
    else if library.hasConstant p.name then
      Check.faultAt id (.libraryConstantRedefined p.name) p.span
    return id :: (← declareParams library (p.name :: seen) rest)

/-- Takes a new declaration up, or reports that its name is taken. -/
def declareName (known : Names) (name : String) (id : NodeId) (span : Span)
    (redefined : Span → Fault) : Check Names := do
  match known.lookup name with
  | some previous =>
    let t ← Check.tree
    Check.faultAt id (redefined (t.span previous)) span
    return known
  | none => return known ++ [(name, id)]

/-- Declares functions, which get their bodies later. -/
def declareFunctions (library : Catalog) (known : Names) :
    List FunctionDecl → Check (Names × List NodeId)
  | [] => return (known, [])
  | d :: rest => do
    let params ← declareParams library [] d.params
    let id ← Check.alloc (.function { name := d.name, returnType := d.returnType, params }) d.span
    let known ←
      if library.hasFunction d.name then do
        Check.faultAt id (.libraryFunctionRedefined d.name) d.span
        pure known
      else declareName known d.name id d.span (.functionRedefined d.name)
    let (known, ids) ← declareFunctions library known rest
    return (known, id :: ids)

/-- Declares a state, which gets its handlers later. -/
def declareState (d : StateDecl) (isDefault : Bool) : Check NodeId := do
  let id ← Check.alloc (.state { name := d.name, isDefault }) d.span
  if d.handlers.isEmpty then Check.faultAt id (.stateWithoutHandlers d.name) d.span
  return id

/-- Declares the default state under its fixed name; a script has to have one. -/
def declareDefaultState (script : Script) : Check (Names × Option NodeId) :=
  match script.defaultState with
  | some d => do
    let id ← declareState d true
    return ([(defaultStateName, id)], some id)
  | none => do
    Check.fault .missingDefaultState script.span
    return ([], none)

def declareStates (known : Names) : List StateDecl → Check (Names × List NodeId)
  | [] => return (known, [])
  | d :: rest => do
    let id ← declareState d false
    let known ←
      if d.name = defaultStateName then do
        Check.faultAt id .defaultStateRedefined d.span
        pure known
      else declareName known d.name id d.span (.stateRedefined d.name)
    let (known, ids) ← declareStates known rest
    return (known, id :: ids)

/-- Resolves a global and declares it, unless its name is taken. -/
def resolveGlobal (env : Env) (d : VarDecl) : Check (Names × NodeId) := do
  let init ← resolveOption env d.init
  let id ← Check.alloc (.global { name := d.name, ty := d.ty, scope := .global, init }) d.span
  let globals ←
    if env.library.hasConstant d.name then do
      Check.faultAt id (.libraryConstantRedefined d.name) d.span
      pure env.globals
    else declareName env.globals d.name id d.span (.variableRedefined d.name)
  init.forM (checkInitializer id d.name d.ty)
  return (globals, id)

/-- Resolves globals in order; an initializer sees the globals before its own. -/
def resolveGlobals (env : Env) : List VarDecl → Check (Names × List NodeId)
  | [] => return (env.globals, [])
  | d :: rest => do
    let (globals, id) ← resolveGlobal env d
    let (globals, ids) ← resolveGlobals { env with globals } rest
    return (globals, id :: ids)

/-! ### Bodies -/

/-- Creates the labels of a body in order, and gives them by name and in order. -/
def declareLabels (known : Names) : List LabelSite → Check (Names × List NodeId)
  | [] => return (known, [])
  | site :: rest => do
    let info : StmtInfo := { index := site.index, scopeId := site.scopeId }
    let id ← Check.alloc (.stmt { kind := .label site.name [], info }) site.span
    let known ← declareName known site.name id site.span (.labelRedefined site.name)
    let (known, ids) ← declareLabels known rest
    return (known, id :: ids)

/-- The parameters of a body by name. One that has the name of a global hides it. -/
def bindParams (globals : Names) (known : Names) : List NodeId → Check Names
  | [] => return known
  | id :: rest => do
    let t ← Check.tree
    match t.var? id with
    | none => bindParams globals known rest
    | some v =>
      if (globals.lookup v.name).isSome then
        Check.warn (.parameterHidesGlobal v.name) (t.span id)
      let known := if (known.lookup v.name).isSome then known else known ++ [(v.name, id)]
      bindParams globals known rest

/-- Starts on a body: its parameters and labels are known from the start. -/
def enterBody (env : Env) (name : String) (returnType : Ty) (isEvent : Bool)
    (params : List NodeId) (body : Block) : Check Env := do
  let params ← bindParams env.globals [] params
  let (labels, inOrder) ← declareLabels [] body.labelSites
  modify fun run => { run with scopes := {}, labels := inOrder, lastScope := 0 }
  return { env with body := some { name, returnType, isEvent, params, labels } }

/-- Leaves a body. -/
def exitBody : Check Unit :=
  modify fun run => { run with scopes := {}, labels := [] }

def resolveBlock (env : Env) (kind : ScopeKind) (body : Block) : CheckBody NodeId :=
  inScope env kind false body.span (resolveStmts env body.stmts)

def warnUnusedParams (params : List NodeId) : Check Unit :=
  params.forM fun id => do
    let t ← Check.tree
    (t.var? id).forM fun v => do
      if v.references.isEmpty then Check.warn (.parameterNeverUsed v.name) (t.span id)

/-- Resolves the body of a declared function. -/
def resolveFunction (env : Env) (d : FunctionDecl) (id : NodeId) : CheckBody Unit := do
  let declared ← CheckBody.expect ((← get).tree.function? id) id "function"
  let inner ← enterBody env d.name d.returnType false declared.params d.body
  let body ← resolveBlock inner .functionBody d.body
  let returns := ((← get).tree.scope? body).any (·.hasReturnPath)
  if !d.returnType.isVoid && !returns then Check.faultAt id (.notAllPathsReturn d.name) d.span
  if env.warnUnused then warnUnusedParams declared.params
  exitBody
  let resolved ← CheckBody.expect ((← get).tree.function? id) id "function"
  Check.fill id (.function { resolved with body := some body })

/-- What is wrong with the name or the parameters of an event handler. -/
def handlerFault? (library : Catalog) (d : HandlerDecl) : Option Fault :=
  match library.event? d.name with
  | none => some (.unknownEvent d.name)
  | some event =>
    if event.params.map (·.ty) = d.params.map (·.ty) then none
    else some (.incorrectSignature d.name event.signature)

def resolveHandler (env : Env) (d : HandlerDecl) : CheckBody NodeId := do
  let params ← declareParams env.library [] d.params
  if (env.library.event? d.name).any (·.deprecated) then
    Check.warn (.deprecatedEvent d.name) d.span
  let inner ← enterBody env d.name .void true params d.body
  let body ← resolveBlock inner .eventBody d.body
  exitBody
  let id ← Check.alloc (.handler { name := d.name, params, body }) d.span
  (handlerFault? env.library d).forM fun kind => Check.faultAt id kind d.span
  return id

/-- Resolves the handlers of a state, given the names of those before them. -/
def resolveHandlers (env : Env) (state : String) :
    List String → List HandlerDecl → CheckBody (List NodeId)
  | _, [] => return []
  | seen, d :: rest => do
    let id ← resolveHandler env d
    if seen.contains d.name then Check.faultAt id (.handlerRedefined d.name state) d.span
    return id :: (← resolveHandlers env state (d.name :: seen) rest)

/-- Resolves the handlers of a declared state. -/
def resolveState (env : Env) (d : StateDecl) (id : NodeId) : CheckBody Unit := do
  let handlers ← resolveHandlers env d.name [] d.handlers
  match (← get).tree.kind? id with
  | some (.state s) => Check.fill id (.state { s with handlers })
  | _ => throw (.unexpectedNode id "state")

/-! ### The whole script -/

def warnUnusedGlobals (globals functions : List NodeId) : Check Unit := do
  globals.forM fun id => do
    let t ← Check.tree
    (t.var? id).forM fun v => do
      if v.references.isEmpty then Check.warn (.globalNeverUsed v.name) (t.span id)
  functions.forM fun id => do
    let t ← Check.tree
    (t.function? id).forM fun f => do
      if f.references.isEmpty then Check.warn (.functionNeverUsed f.name) (t.span id)

/-- Resolves a script and gives the node of the whole. -/
def resolveScript (library : Catalog) (warnUnused : Bool) (script : Script) :
    CheckBody NodeId := do
  let (functionNames, functions) ← declareFunctions library [] script.functions
  let (stateNames, defaultState) ← declareDefaultState script
  let (stateNames, states) ← declareStates stateNames script.states
  let env : Env := { library, warnUnused, functions := functionNames, states := stateNames }
  let (globalNames, globals) ← resolveGlobals env script.globals
  let env := { env with globals := globalNames }
  (script.functions.zip functions).forM fun (d, id) => resolveFunction env d id
  (script.defaultState.toList.zip defaultState.toList).forM fun (d, id) => resolveState env d id
  (script.states.zip states).forM fun (d, id) => resolveState env d id
  if warnUnused then warnUnusedGlobals globals functions
  Check.alloc (.script { globals, functions, defaultState, states }) script.span

/-- Checks a script against a library. Whatever is wrong with the script is in
the notices; a failure means that the tree was not built as it should be. -/
def Script.check (script : Script) (library : Catalog) (options : CheckOptions) :
    Except InternalError CheckedScript := do
  let (root, run) ← (resolveScript library options.warnUnused script).run {}
  return {
    tree := run.tree
    root
    hasErrors := run.notices.any (·.isFault) || run.tree.hasErrors root
    notices := if options.sortNotices then Notice.sort run.notices else run.notices }

end Lsl
