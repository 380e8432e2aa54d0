/- # Resolving expressions

Names are bound, types are computed, and the rules of the language are checked,
operands first. For each kind of expression a judgement says what the new node
is and what is wrong with it, given the nodes of its operands. An operand that
is wrong and has no type silences the checks that would look at its type.

Key definitions: `Judgement`, `bindName`, `resolveExpr`.
-/
import Lsl.Check.Run
import Lsl.Library.Overload
import Lsl.Script.Basic
import Lsl.StringLiteral
import Lsl.Typing

namespace Lsl

/-- What an expression is, and what is wrong with it. -/
structure Judgement where
  node : ExprNode
  faults : List (Fault × Span) := []
deriving Repr, Inhabited

namespace Judgement

/-- A node with its type, without faults. -/
def of (kind : ExprKind) (ty : Ty) (constant : Bool) : Judgement := ⟨⟨kind, ty, constant⟩, []⟩

end Judgement

/-- What a global's initializer may not contain, if this is one. -/
def staticFaults (env : Env) (what : String) (span : Span) : List (Fault × Span) :=
  if env.isStatic then [(.notStatic what, span)] else []

/-! ### Literals -/

def judgeString (text : String) (span : Span) : Judgement :=
  let (normal, bad) := StringLiteral.normalize text
  ⟨⟨.string normal, .string, true⟩, bad.map fun c => (.invalidEscape c, span)⟩

/-- The components of a vector or rotation literal have to be numbers. -/
def componentFaults (t : Tree) (literal : String) (ids : List NodeId) : List (Fault × Span) :=
  (ids.filter fun id => !t.untyped id && !(t.exprType id).isNumeric).map fun id =>
    (.invalidLiteralComponent literal (t.exprType id), t.span id)

def judgeVector (t : Tree) (x y z : NodeId) : Judgement :=
  ⟨⟨.vector x y z, .vector, [x, y, z].all t.isConstant⟩, componentFaults t "vector" [x, y, z]⟩

def judgeRotation (t : Tree) (x y z s : NodeId) : Judgement :=
  ⟨⟨.rotation x y z s, .rotation, [x, y, z, s].all t.isConstant⟩,
    componentFaults t "rotation" [x, y, z, s]⟩

/-- The elements of a list have to have a value and may not be lists. -/
def judgeList (t : Tree) (items : List NodeId) : Judgement :=
  let bad := items.filter fun id =>
    !t.untyped id && (t.exprType id == .list || t.exprType id == .void)
  ⟨⟨.list items, .list, items.all t.isConstant⟩,
    bad.map fun id => (.invalidListElement (t.exprType id), t.span id)⟩

/-! ### Names -/

/-- What a name stands for: a local variable of the innermost scope that has
one, else a parameter, else a global, else a constant of the library. -/
def bindName (env : Env) (scopes : ScopeStack) (name : String) : Option Binding :=
  ((scopes.lookup? name).map .inner).or <|
    ((env.param? name).map .param).or <|
      ((env.globals.lookup name).map .global).or <|
        (env.library.constant? name).map .constant

/-- The type of what a name stands for. -/
def bindingType (t : Tree) : Binding → Ty
  | .constant k => k.ty
  | .global d | .inner d | .param d => ((t.var? d).map (·.ty)).getD .void

def Binding.isConstant : Binding → Bool
  | .constant _ => true
  | _ => false

def Binding.isDeprecated : Binding → Bool
  | .constant k => k.deprecated
  | _ => false

/-- Notes on the declaration that a name stands for where it is used. -/
def addReference (t : Tree) (binding : Binding) (reference : NodeId) : Tree :=
  match binding.decl? with
  | some d => t.modifyVariable d fun v => { v with references := v.references ++ [reference] }
  | none => t

def resolveName (env : Env) (name : String) (span : Span) : Check NodeId := do
  let run ← get
  match bindName env run.scopes name with
  | none =>
    Check.fault (.undefinedVariable name) span
    Check.allocError span
  | some binding =>
    if binding.isDeprecated then Check.warn (.deprecatedConstant name) span
    let node : ExprNode := ⟨.ref name binding, bindingType run.tree binding, binding.isConstant⟩
    let id ← Check.alloc (.expr node) span
    Check.modifyTree (addReference · binding id)
    return id

/-- Rotations have all four components, vectors all but `s`. -/
def hasComponent (ty : Ty) : Component → Bool
  | .s => ty == .rotation
  | _ => ty == .vector || ty == .rotation

def judgeComponent (t : Tree) (object : NodeId) (c : Component) (span : Span) : Judgement :=
  let ty := t.exprType object
  ⟨⟨.component object c, .float, t.isConstant object⟩,
    if t.untyped object || hasComponent ty c then [] else [(.invalidComponent c ty, span)]⟩

/-! ### Operators -/

/-- Why a node cannot be written to, if it cannot: only variables and their
components can, and constants of the library cannot. -/
def assignmentFault? (t : Tree) (target : NodeId) : Option Fault :=
  match t.expr? target with
  | none => none
  | some e =>
    let written : Option ExprKind := match e.kind with
      | .component object _ => (t.expr? object).map (·.kind)
      | k => some k
    match written with
    | some (.ref name (.constant _)) => some (.constantModified name)
    | some (.ref _ _) => none
    | _ => some .notAssignable

/-- The fault of writing to a node, unless the node is wrong already. -/
def assignmentFaults (t : Tree) (target : NodeId) : List (Fault × Span) :=
  match assignmentFault? t target with
  | some kind => if t.untyped target then [] else [(kind, t.span target)]
  | none => []

/-- The type of an operation, or the fault of applying it. -/
def typeOr (result : Option Ty) (kind : Fault) (span : Span) : Ty × List (Fault × Span) :=
  match result with
  | some ty => (ty, [])
  | none => (.void, [(kind, span)])

def judgeBinary (env : Env) (t : Tree) (op : BinaryOp) (left right : NodeId) (span : Span) :
    Judgement :=
  let lt := t.exprType left
  let rt := t.exprType right
  let (ty, faults) :=
    if t.untyped left || t.untyped right then (.void, [])
    else typeOr (binaryResult op lt rt) (.invalidBinary op lt rt) span
  let constant := !op.isAssignment && t.isConstant left && t.isConstant right
  ⟨⟨.binary op left right, ty, constant⟩,
    staticFaults env "an operator" span
      ++ (if op.isAssignment then assignmentFaults t left else []) ++ faults⟩

def judgePrefixed (env : Env) (t : Tree) (op : PrefixOp) (operand : NodeId) (span : Span) :
    Judgement :=
  let found := t.exprType operand
  let (ty, faults) :=
    if t.untyped operand then (.void, [])
    else typeOr (prefixResult op found) (.invalidPrefixed op found) span
  ⟨⟨.prefixed op operand, ty, !op.modifiesOperand && t.isConstant operand⟩,
    (if op == .negate then [] else staticFaults env "an operator" span)
      ++ (if op.modifiesOperand then assignmentFaults t operand else []) ++ faults⟩

def judgePostfixed (env : Env) (t : Tree) (op : PostfixOp) (operand : NodeId) (span : Span) :
    Judgement :=
  let found := t.exprType operand
  let (ty, faults) :=
    if t.untyped operand then (.void, [])
    else typeOr (postfixResult op found) (.invalidPostfixed op found) span
  ⟨⟨.postfixed op operand, ty, false⟩,
    staticFaults env "an operator" span ++ assignmentFaults t operand ++ faults⟩

def judgeCast (env : Env) (t : Tree) (ty : Ty) (operand : NodeId) (span : Span) : Judgement :=
  let source := t.exprType operand
  ⟨⟨.cast ty operand, ty, t.isConstant operand⟩,
    staticFaults env "a cast" span
      ++ if t.untyped operand || castValid ty source then [] else [(.invalidCast source ty, span)]⟩

/-- A valid cast to the type that the operand already has. -/
def castIsRedundant (t : Tree) (ty : Ty) (operand : NodeId) : Bool :=
  let source := t.exprType operand
  !t.untyped operand && castValid ty source && source == ty

def judgeParen (env : Env) (t : Tree) (inner : NodeId) (span : Span) : Judgement :=
  ⟨⟨.paren inner, t.exprType inner, t.isConstant inner⟩, staticFaults env "parentheses" span⟩

/-! ### Calls -/

def argumentOf (t : Tree) (id : NodeId) : Argument :=
  if t.untyped id then .untyped else .typed (t.exprType id)

/-- The faults of passing arguments to the parameters of a user function,
counted from `index`. -/
def userArgumentFaults (t : Tree) (name : String) :
    Nat → List Ty → List NodeId → List (Fault × Span)
  | index, expected :: params, arg :: args =>
    let found := t.exprType arg
    let rest := userArgumentFaults t name (index + 1) params args
    if t.untyped arg || assignable expected found then rest
    else (.argumentType name index expected found, t.span arg) :: rest
  | _, _, _ => []

def judgeUserCall (env : Env) (t : Tree) (name : String) (function : NodeId) (decl : FunctionNode)
    (args : List NodeId) (span : Span) : Judgement :=
  let params := decl.params.map fun p => ((t.var? p).map (·.ty)).getD .void
  let faults :=
    if params.length ≠ args.length then
      [(Fault.argumentCount name params.length args.length, span)]
    else userArgumentFaults t name 1 params args
  ⟨⟨.call name args (.user function), decl.returnType, false⟩,
    staticFaults env "a function call" span ++ faults⟩

/-- The fault that a mismatch with the only overload stands for. -/
def mismatchFault (f : LibraryFunction) (name : String) (args : List Argument) : Mismatch → Fault
  | .count => .argumentCount name f.fixedCount args.length
  | .type index expected =>
    .argumentType name (index + 1) expected ((args[index]?.map (·.ty)).getD .void)

/-- The overload that a call means with the faults of calling it, or the fault
that leaves the call without one. A call with several overloads to choose from
and a wrong argument is no further fault. -/
def chooseOverload (overloads : List LibraryFunction) (name : String) (args : List Argument) :
    Except (Option Fault) (LibraryFunction × List Fault) :=
  match overloads with
  | [] => .error (some (.undefinedFunction name))
  | [only] => .ok (only, ((only.mismatch? args).map (mismatchFault only name args)).toList)
  | many =>
    match selectOverload many args with
    | .ok f => .ok (f, [])
    | .error .ambiguous =>
      if args.contains .untyped then .error none else .error (some (.ambiguousOverload name))
    | .error .noMatch => .error (some (.noMatchingOverload name (args.map (·.ty))))

def judgeLibraryCall (env : Env) (name : String) (f : LibraryFunction) (faults : List Fault)
    (args : List NodeId) (span : Span) : Judgement :=
  ⟨⟨.call name args (.library f.modInvoke (f.params.map (·.ty))), f.returnType, false⟩,
    staticFaults env "a function call" span ++ faults.map fun k => (k, span)⟩

/-! ### Building nodes -/

/-- Creates the node of a judgement and reports what is wrong with it. -/
def finishExpr (j : Judgement) (span : Span) : Check NodeId := do
  let id ← Check.alloc (.expr j.node) span
  if !j.faults.isEmpty then Check.modifyTree (·.markError id)
  j.faults.forM fun (kind, span) => Check.fault kind span
  return id

/-- Judges the operands as the tree has them and creates the node. -/
def finishWith (judge : Tree → Judgement) (span : Span) : Check NodeId := do
  finishExpr (judge (← Check.tree)) span

def resolveCast (env : Env) (ty : Ty) (operand : NodeId) (span : Span) : Check NodeId := do
  let t ← Check.tree
  if castIsRedundant t ty operand then Check.warn (.redundantCast ty) span
  finishExpr (judgeCast env t ty operand span) span

/-- A call of a function of the script, which is noted on the function. -/
def resolveUserCall (env : Env) (name : String) (function : NodeId) (args : List NodeId)
    (span : Span) : Check NodeId := do
  let t ← Check.tree
  match t.function? function with
  | none => Check.allocError span
  | some decl =>
    let id ← finishExpr (judgeUserCall env t name function decl args span) span
    Check.modifyTree fun t => t.modifyFunction function fun f =>
      { f with references := f.references ++ [id] }
    return id

def resolveLibraryCall (env : Env) (name : String) (args : List NodeId) (span : Span) :
    Check NodeId := do
  let t ← Check.tree
  match chooseOverload (env.library.overloads name) name (args.map (argumentOf t)) with
  | .error kind =>
    kind.forM fun kind => Check.fault kind span
    Check.allocError span
  | .ok (f, faults) =>
    if f.deprecated then Check.warn (.deprecatedFunction name) span
    finishExpr (judgeLibraryCall env name f faults args span) span

/-- A function of the script goes before the library; one that has the name of
a library function is not among the functions of the script. -/
def resolveCall (env : Env) (name : String) (args : List NodeId) (span : Span) : Check NodeId :=
  match env.functions.lookup name with
  | some function => resolveUserCall env name function args span
  | none => resolveLibraryCall env name args span

mutual

/-- Resolves an expression, operands first, and gives its node. -/
def resolveExpr (env : Env) : Expr → Check NodeId
  | .integer text span => finishExpr (.of (.integer text) .integer true) span
  | .hex text span => finishExpr (.of (.hex text) .integer true) span
  | .float text span => finishExpr (.of (.float text) .float true) span
  | .string text span => finishExpr (judgeString text span) span
  | .vector x y z span => do
    let x ← resolveExpr env x
    let y ← resolveExpr env y
    let z ← resolveExpr env z
    finishWith (judgeVector · x y z) span
  | .rotation x y z s span => do
    let x ← resolveExpr env x
    let y ← resolveExpr env y
    let z ← resolveExpr env z
    let s ← resolveExpr env s
    finishWith (judgeRotation · x y z s) span
  | .list items span => do
    let items ← resolveExprs env items
    finishWith (judgeList · items) span
  | .ident name span => resolveName env name span
  | .component object c span => do
    let object ← resolveExpr env object
    finishWith (judgeComponent · object c span) span
  | .call name args span => do
    let args ← resolveExprs env args
    resolveCall env name args span
  | .binary op left right span => do
    let left ← resolveExpr env left
    let right ← resolveExpr env right
    finishWith (judgeBinary env · op left right span) span
  | .prefixed op operand span => do
    let operand ← resolveExpr env operand
    finishWith (judgePrefixed env · op operand span) span
  | .postfixed op operand span => do
    let operand ← resolveExpr env operand
    finishWith (judgePostfixed env · op operand span) span
  | .cast ty operand span => do
    let operand ← resolveExpr env operand
    resolveCast env ty operand span
  | .paren inner span => do
    let inner ← resolveExpr env inner
    finishWith (judgeParen env · inner span) span

/-- Resolves expressions from the first to the last. -/
def resolveExprs (env : Env) : List Expr → Check (List NodeId)
  | [] => return []
  | e :: rest => do
    let id ← resolveExpr env e
    let ids ← resolveExprs env rest
    return id :: ids

end

/-- Resolves an expression that may be missing. -/
def resolveOption (env : Env) : Option Expr → Check (Option NodeId)
  | none => return none
  | some e => do return some (← resolveExpr env e)

/-- Resolves a condition, which needs a value and should not always have the
same one. -/
def resolveCondition (env : Env) (cond : Expr) : Check NodeId := do
  let id ← resolveExpr env cond
  let t ← Check.tree
  if t.untyped id then return id
  if !validCondition (t.exprType id) then
    Check.faultAt id (.invalidCondition (t.exprType id)) cond.span
  else if t.isConstant id then Check.warn .constantCondition cond.span
  return id

/-- An initializer has to fit the type of its variable. -/
def checkInitializer (decl : NodeId) (name : String) (ty : Ty) (init : NodeId) : Check Unit := do
  let t ← Check.tree
  let found := t.exprType init
  if !t.untyped init && !assignable ty found then
    Check.faultAt decl (.initializerMismatch name ty found) (t.span init)

end Lsl
