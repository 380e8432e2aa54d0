/- # Host code for scripts

Globals and functions that nothing refers to are left out. The handlers of the
named states come before those of the default state, which every script needs.

Key definitions: `hostUnit`, `CheckedScript.hostUnit`, `CheckedScript.generate`,
`CheckedScript.writeTo`.
-/
import Lsl.Check.Script
import Lsl.Generate.Body
import Lsl.Generate.Unit

namespace Lsl

/-! ### Members -/

def hostField (t : Tree) (var : Variable) : Generator HostField := do
  return ⟨var.ty, var.name, ← initialValue t true var⟩

/-- The fields of the globals that are referred to. -/
def hostFields (t : Tree) (globals : List NodeId) : Generator (List HostField) := do
  let vars ← globals.mapM fun id => Generator.expect (t.var? id) id "a global variable"
  (vars.filter (!·.references.isEmpty)).mapM (hostField t)

def hostParam (t : Tree) (id : NodeId) : Generator (Ty × String) := do
  let var ← Generator.expect (t.var? id) id "a parameter"
  return (var.ty, var.name)

def hostFunction (t : Tree) (checkpoints : Bool) (f : FunctionNode) : Generator HostMethod := do
  let params ← f.params.mapM (hostParam t)
  match f.body with
  | none => throw (.noBody f.name)
  | some body =>
    return ⟨HostName.function f.name, f.returnType, params, ← hostBody t checkpoints body⟩

/-- The methods of the functions that are called. -/
def hostFunctions (t : Tree) (checkpoints : Bool) (functions : List NodeId) :
    Generator (List HostMethod) :=
  ((functions.filterMap t.function?).filter (!·.references.isEmpty)).mapM
    (hostFunction t checkpoints)

def hostHandler (t : Tree) (checkpoints : Bool) (state : String) (id : NodeId) :
    Generator HostMethod :=
  match t.kind? id with
  | some (.handler h) => do
    let params ← h.params.mapM (hostParam t)
    return ⟨HostName.handler state h.name, .void, params, ← hostBody t checkpoints h.body⟩
  | _ => throw (.unexpectedNode id "an event handler")

/-- The methods of the handlers of a state. -/
def hostState (t : Tree) (checkpoints : Bool) (id : NodeId) : Generator (List HostMethod) :=
  match t.kind? id with
  | some (.state s) => s.handlers.mapM (hostHandler t checkpoints s.name)
  | _ => throw (.unexpectedNode id "a state")

/-! ### Scripts -/

/-- The members of a script, with the operations that came up in them. -/
def hostUnit (t : Tree) (checkpoints : Bool) (script : ScriptNode) : Generator HostUnit := do
  let globals ← hostFields t script.globals
  let functions ← hostFunctions t checkpoints script.functions
  let states ← script.states.mapM (hostState t checkpoints)
  match script.defaultState with
  | none => throw .noDefaultState
  | some state =>
    let defaultState ← hostState t checkpoints state
    let operations ← get
    return { globals, functions, states, defaultState, operations }

namespace CheckedScript

/-- The members of a script without errors. -/
def hostUnit (s : CheckedScript) (settings : Settings) : Generate HostUnit :=
  if s.hasErrors then .error .invalidScript
  else
    match s.tree.kind? s.root with
    | some (.script node) => (Lsl.hostUnit s.tree settings.coopTermination node).run' []
    | _ => .error (.unexpectedNode s.root "a script")

/-- The text that is generated for a script without errors. -/
def generate (s : CheckedScript) (settings : Settings) : Generate String := do
  return (← s.hostUnit settings).render settings

/-- Gives the generated text to an output, which may refuse it. -/
def writeTo [Monad m] (s : CheckedScript) (settings : Settings)
    (output : String → m (Except String Unit)) : m (Generate Unit) := do
  match s.generate settings with
  | .error e => return .error e
  | .ok text =>
    match ← output text with
    | .ok () => return .ok ()
    | .error reason => return .error (.writeFailed reason)

end CheckedScript

end Lsl
