/- # Operations are collected as code is made

Wherever the generator makes a call of an operator method, it takes up the
operation, and it takes up no other. So each step takes up what the code that it
gives calls, in the order in which it comes up there, and a unit carries the
operations of its members, each where it came up first.

Key theorems: `hostExprWithin_collects`, `hostBodyWithin_collects`,
`hostUnit_operations`.
-/
import Lsl.Generate.Script
import Lsl.Proofs.Generate.Steps
import Lsl.Proofs.Host.Operations

namespace Lsl

open Generator HostExpr

variable {t : Tree} {inContainer checkpoints : Bool}

/-! ### Expressions -/

namespace Position

theorem operations_enclose (pos : Position) (e : HostExpr) :
    (pos.enclose e).operations = e.operations := by
  unfold enclose
  split <;> rfl

theorem operations_discardWrite (pos : Position) (e : HostExpr) :
    (pos.discardWrite e).operations = e.operations := by
  unfold discardWrite
  split <;> rfl

theorem operations_number (pos : Position) (ty : Ty) (text : String) :
    (pos.number ty text).operations = [] := by
  unfold number
  split <;> rfl

end Position

attribute [local simp] Position.operations_enclose Position.operations_discardWrite
  Position.operations_number HostExpr.operations HostExpr.operationsOfAll
  HostExpr.operationsOfAll_eq

theorem castCode_operations (source ty : Ty) (e : HostExpr) :
    (castCode source ty e).operations = e.operations := by
  unfold castCode
  split <;> rfl

theorem prefixedCode_operations (op : PrefixOp) (ty : Ty) (dead : Bool) (pos : Position)
    (e : HostExpr) : (prefixedCode op ty dead pos e).operations = e.operations := by
  cases op <;> simp only [prefixedCode] <;> (try split) <;> simp

theorem postfixedCode_operations (op : PostfixOp) (dead : Bool) (pos : Position) (e : HostExpr) :
    (postfixedCode op dead pos e).operations = e.operations := by
  unfold postfixedCode
  split <;> simp

attribute [local simp] HostExpr.operationsOfOption HostStmt.operations HostStmt.operationsOfAll
  HostStmt.operationsOfOption castCode_operations prefixedCode_operations postfixedCode_operations

theorem Constant.operations_element (text : List Char) : (element text).operations = [] := by
  unfold element
  split
  · rfl
  · rfl
  · split <;> rfl

/-- Constants call no operations. -/
theorem LibraryConstant.operations_expanded {k : LibraryConstant} {e : HostExpr}
    (h : k.expanded? = some e) : e.operations = [] := by
  unfold expanded? at h
  split at h
  case h_1 => cases h
  all_goals obtain rfl := Option.some.inj h
  case h_8 => simp [Constant.operations_element]
  all_goals rfl

theorem absentValue_collects (ty : Ty) : (absentValue ty).Collects operations := by
  cases ty with
  | void => exact .throw
  | _ => exact .pure rfl

theorem referenceCode_collects (name : String) (ty : Ty) (binding : Binding) :
    (referenceCode t inContainer name ty binding).Collects operations := by
  cases binding with
  | global d | param d => exact .pure rfl
  | inner d =>
    simp only [referenceCode]
    split
    · exact absentValue_collects ty
    · exact .expect fun v _ => .pure rfl
  | constant k =>
    simp only [referenceCode]
    split
    · split
      · rename_i e he
        exact .pure (k.operations_expanded he)
      · exact .throw
    · exact .pure rfl

section Operands

variable {operand : OperandCode} (ho : ∀ pos c, (operand pos c).Collects operations)

include ho

theorem userArgument_collects (arg : NodeId) : (userArgument t operand arg).Collects operations :=
  .bind (ho .value arg) fun e => .pure (by split <;> rfl)

theorem callCode_collects (name : String) (args : List NodeId) (ty : Ty) (target : CallTarget) :
    (callCode t operand name args ty target).Collects operations := by
  cases target with
  | user f => exact .bind (.mapM (userArgument_collects ho) args) fun es => .pure (by simp)
  | library modInvoke params =>
    cases modInvoke
    · exact .bind (.mapM (ho .nativeArgument) args) fun es => .pure (by simp)
    · exact .bind (.mapM (ho .value) args) fun es => .pure (by simp)

/-- The operator of a compound assignment is taken up between its operands. -/
theorem deadAssignmentCode_collects (op : BinaryOp) (operation : BinaryOp → Operation)
    (left right : NodeId) (pos : Position) :
    (deadAssignmentCode operand op operation left right pos).Collects operations := by
  refine .bind (ho .value right) fun r => ?_
  split
  · split
    · exact .pure (by simp)
    · exact .call (.bind (ho .value left) fun l => .pure (by simp))
  · exact .pure (by simp)

/-- An operator is taken up before its operands. -/
theorem binaryCode_collects (op : BinaryOp) (left right : NodeId) (ty : Ty) (pos : Position) :
    (binaryCode t operand op left right ty pos).Collects operations := by
  unfold binaryCode
  simp only
  split
  · exact .bind (ho .value right) fun r => .bind (ho .value left) fun l => .pure (by simp)
  split
  · exact .bind (ho .value left) fun l => .bind (ho .value right) fun r => .pure (by simp)
  split
  · split
    · exact deadAssignmentCode_collects ho _ _ left right pos
    · exact .bind (ho .value left) fun l => .bind (ho .value right) fun r => .pure (by simp)
  · exact .call (.bind (ho .value right) fun r => .bind (ho .value left) fun l => .pure (by simp))

end Operands

/-- **The code of an expression calls what is taken up for it.** -/
theorem hostExprWithin_collects : ∀ (depth : Nat) (pos : Position) (id : NodeId),
    (hostExprWithin t inContainer depth pos id).Collects operations
  | 0, _, _ => .throw
  | depth + 1, pos, id => by
    have ho := hostExprWithin_collects depth
    refine .expect fun e _ => ?_
    rcases e with ⟨kind, ty, constant⟩
    cases kind with
    | integer | hex | float => exact .pure (by simp)
    | string => exact .pure (by split <;> simp)
    | vector x y z => exact .bind (.mapM (ho .component) [x, y, z]) fun es => .pure (by simp)
    | rotation x y z s =>
      exact .bind (.mapM (ho .component) [x, y, z, s]) fun es => .pure (by simp)
    | list items => exact .bind (.mapM (ho .value) items) fun es => .pure (by simp)
    | ref name binding => exact referenceCode_collects name ty binding
    | component object c => exact .bind (ho .value object) fun e => .pure (by simp)
    | call name args target => exact callCode_collects ho name args ty target
    | binary op left right => exact binaryCode_collects ho op left right ty pos
    | prefixed op inner => exact .bind (ho .value inner) fun e => .pure (by simp)
    | postfixed op inner => exact .bind (ho .value inner) fun e => .pure (by simp)
    | cast ty inner => exact .bind (ho .value inner) fun e => .pure (by simp)
    | paren inner => exact .bind (ho .value inner) fun e => .pure (by simp)

theorem hostExpr_collects (pos : Position) (id : NodeId) :
    (hostExpr t inContainer pos id).Collects operations := hostExprWithin_collects _ pos id

theorem hostStatement_collects (id : NodeId) : (hostStatement t id).Collects operations := by
  refine .expect fun e _ => ?_
  split
  · exact hostExpr_collects .statement id
  · exact .bind (hostExpr_collects .value id) fun e => .pure rfl

theorem hostCondition_collects (id : NodeId) : (hostCondition t id).Collects operations :=
  .bind (hostExpr_collects .value id) fun e => .pure (by split <;> rfl)

/-! ### Bodies -/

theorem defaultValue_collects (ty : Ty) : (defaultValue ty).Collects operations := by
  cases ty with
  | void => exact .throw
  | _ => exact .pure rfl

theorem initialValue_collects (var : Variable) :
    (initialValue t inContainer var).Collects operations := by
  unfold initialValue
  split
  · exact hostExpr_collects .value _
  · exact defaultValue_collects var.ty

theorem hostOption_collects {code : NodeId → Generator HostExpr}
    (hc : ∀ c, (code c).Collects operations) (value : Option NodeId) :
    (hostOption code value).Collects operationsOfOption := by
  cases value with
  | none => exact .pure rfl
  | some c => exact .bind (hc c) fun e => .pure rfl

theorem HostArm.operationsOfAll_eq (arms : List HostArm) : operationsOfAll arms
    = arms.flatMap fun a => a.cond.operations ++ HostStmt.operationsOfAll a.body := by
  induction arms with
  | nil => rfl
  | cons arm rest ih =>
    rcases arm with ⟨cond, body⟩
    simp [operationsOfAll, ih, HostArm.cond, HostArm.body]

section Bodies

variable {body : BodyCode} (hb : ∀ id, (body id).Collects HostStmt.operationsOfAll)

include hb

theorem hostArm_collects (arm : NodeId × NodeId) :
    (hostArm t body arm).Collects fun a => a.cond.operations ++ HostStmt.operationsOfAll a.body :=
  .bind (hostCondition_collects arm.1) fun _ => .bind (hb arm.2) fun _ => .pure rfl

/-- The operations of a statement come up as its parts are written. -/
theorem stmtCode_collects (k : StmtKind) :
    (stmtCode t checkpoints body k).Collects HostStmt.operationsOfAll := by
  have conditions := @hostCondition_collects t
  have statements : ∀ l : List NodeId, (l.mapM (hostStatement t)).Collects (·.flatMap operations) :=
    .mapM hostStatement_collects
  have arms := fun l => Collects.mapM (hostArm_collects (t := t) hb) l
  cases k with
  | empty | jump | stateChange => exact .pure rfl
  | label name jumps => exact .pure (by split <;> rfl)
  | expr value =>
    simp only [stmtCode]
    split
    · exact .bind (hostStatement_collects value) fun e => .pure (by simp)
    · exact .pure rfl
  | declare v => exact .bind (initialValue_collects v) fun e => .pure (by simp)
  | ret value =>
    exact .bind (hostOption_collects (hostExpr_collects .value) value) fun e => .pure (by simp)
  | branch cond thenScope elseIfs elseScope =>
    refine .bind (conditions cond) fun c => .bind (hb thenScope) fun first =>
      .bind (arms elseIfs) fun more => ?_
    cases elseScope with
    | none => exact .pure (by simp [HostArm.operationsOfAll_eq])
    | some scope => exact .bind (hb scope) fun last => .pure (by simp [HostArm.operationsOfAll_eq])
  | whileLoop cond scope =>
    exact .bind (conditions cond) fun c => .bind (hb scope) fun b => .pure (by simp)
  | doWhile scope cond =>
    exact .bind (hb scope) fun b => .bind (conditions cond) fun c => .pure (by simp)
  | forLoop init cond step scope =>
    exact .bind (statements init) fun i => .bind (hostOption_collects conditions cond) fun c =>
      .bind (statements step) fun s => .bind (hb scope) fun b => .pure (by simp)
  | block scope => exact .bind (hb scope) fun b => .pure (by simp)

theorem hostStmt_collects (id : NodeId) :
    (hostStmt t checkpoints body id).Collects HostStmt.operationsOfAll := by
  refine .expect fun s _ => ?_
  split
  · exact .pure rfl
  · exact stmtCode_collects hb s.kind

end Bodies

theorem HostStmt.operationsOfAll_append (code rest : List HostStmt) :
    operationsOfAll (code ++ rest) = operationsOfAll code ++ operationsOfAll rest := by
  induction code with
  | nil => rfl
  | cons s code ih => simp [operationsOfAll, ih]

theorem HostStmt.operationsOfAll_flatten (codes : List (List HostStmt)) :
    operationsOfAll codes.flatten = codes.flatMap operationsOfAll := by
  induction codes with
  | nil => rfl
  | cons code codes ih => simp [operationsOfAll_append, ih]

/-- **The code of a scope calls what is taken up for it.** -/
theorem hostBodyWithin_collects : ∀ (depth : Nat) (id : NodeId),
    (hostBodyWithin t checkpoints depth id).Collects HostStmt.operationsOfAll
  | 0, _ => .throw
  | depth + 1, id => by
    have hb := hostBodyWithin_collects depth
    refine .expect fun scope _ => .bind (.mapM (hostStmt_collects hb) scope.statements) fun codes => ?_
    refine .pure ?_
    split <;> simp [HostStmt.operationsOfAll_flatten]

theorem hostBody_collects (id : NodeId) :
    (hostBody t checkpoints id).Collects HostStmt.operationsOfAll := hostBodyWithin_collects _ id

/-! ### Scripts -/

/-- The operations that a method calls. -/
def HostMethod.operations (m : HostMethod) : List Operation := HostStmt.operationsOfAll m.body

/-- The operations that the members of a unit call, in the order they come up. -/
def HostUnit.called (u : HostUnit) : List Operation :=
  u.globals.flatMap (·.value.operations) ++ u.methods.flatMap (·.operations)

theorem hostField_collects (var : Variable) : (hostField t var).Collects (·.value.operations) :=
  .bind (initialValue_collects var) fun _ => .pure rfl

theorem hostFields_collects (globals : List NodeId) :
    (hostFields t globals).Collects (·.flatMap (·.value.operations)) :=
  .bind (.mapM_nil (fun _ => .lookup) globals) fun _ => Collects.mapM hostField_collects _

theorem hostParams_collects (params : List NodeId) :
    (params.mapM (hostParam t)).Collects fun _ => [] :=
  .mapM_nil (fun _ => .expect fun _ _ => .pure rfl) params

theorem hostFunction_collects (f : FunctionNode) :
    (hostFunction t checkpoints f).Collects HostMethod.operations := by
  refine .bind (hostParams_collects f.params) fun params => ?_
  split
  · exact .throw
  · exact .bind (hostBody_collects _) fun code => .pure rfl

theorem hostFunctions_collects (functions : List NodeId) :
    (hostFunctions t checkpoints functions).Collects (·.flatMap HostMethod.operations) :=
  .mapM hostFunction_collects _

theorem hostHandler_collects (state : String) (id : NodeId) :
    (hostHandler t checkpoints state id).Collects HostMethod.operations := by
  unfold hostHandler
  split
  · exact .bind (hostParams_collects _) fun params => .bind (hostBody_collects _) fun code => .pure rfl
  · exact .throw

theorem hostState_collects (id : NodeId) :
    (hostState t checkpoints id).Collects (·.flatMap HostMethod.operations) := by
  unfold hostState
  split
  · exact .mapM (hostHandler_collects _) _
  · exact .throw

theorem hostUnit_collects (n : ScriptNode) :
    (hostUnit t checkpoints n).Collects HostUnit.called := by
  refine .bind (hostFields_collects n.globals) fun globals =>
    .bind (hostFunctions_collects n.functions) fun functions =>
    .bind (.mapM hostState_collects n.states) fun states => ?_
  split
  · exact .throw
  · refine .bind (hostState_collects _) fun last => .get fun seen => .pure ?_
    have hstates : states.flatten.flatMap HostMethod.operations
        = states.flatMap (·.flatMap HostMethod.operations) := by
      rw [List.flatten_eq_flatMap, List.flatMap_assoc]
      rfl
    simp [HostUnit.called, HostUnit.methods, hstates]

/-- A unit carries the operations that were called when it was finished. -/
theorem hostUnit_ends (n : ScriptNode) :
    (hostUnit t checkpoints n).Ends fun u called => u.operations = called := by
  refine .bind fun globals => .bind fun functions => .bind fun states => ?_
  split
  · exact .throw
  · exact .bind fun last => .get fun called => rfl

/-- **A unit carries the operations that its members call**, each once, in the order
in which they come up first. -/
theorem hostUnit_operations {n : ScriptNode} {u : HostUnit} {called : List Operation}
    (h : hostUnit t checkpoints n [] = .ok (u, called)) :
    u.operations = u.called.foldl Operation.takeUp [] := by
  rw [hostUnit_ends n _ u called h]
  exact hostUnit_collects n [] u called h

end Lsl
