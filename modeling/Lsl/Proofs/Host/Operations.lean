/- # The operations that code calls

They are read off the code in the order in which they come up: an operator before
its operands, and the operator of a compound assignment that stores nothing behind
the value that it is applied to. As a set they are the operations of the
expressions in the code.

Key definitions: `HostExpr.operations`, `HostExpr.operation?`, `HostStmt.operations`.
Key theorems: `HostExpr.mem_operations`, `HostStmt.mem_operationsOfAll`.
-/
import Lsl.Proofs.Host.Spots
import Mathlib.Logic.Basic
import Mathlib.Tactic.Tauto

namespace Lsl

variable {o : Operation}

namespace HostExpr

/-- The operation that an expression is a call of. -/
def operation? : HostExpr → Option Operation
  | operate o _ _ | unstored o _ _ => some o
  | _ => none

mutual

/-- The operations that an expression calls, in the order they come up. -/
def operations : HostExpr → List Operation
  | text _ | global .. | inner .. | param _ | absent _ => []
  | make _ args | callFunction _ args | callLibrary _ args | callModule _ _ args =>
    operationsOfAll args
  | component e _ | copyList e | stepBefore _ e | stepAfter _ e | neighbour e _ | negate e
  | unary _ e | cast _ e | paren e | force e | toBool e | keyToBool e => e.operations
  | operate op right left => op :: right.operations ++ left.operations
  | unstored op right left => right.operations ++ op :: left.operations
  | logical _ right left => right.operations ++ left.operations
  | assign _ target value | assignRounded target value => target.operations ++ value.operations

def operationsOfAll : List HostExpr → List Operation
  | [] => []
  | e :: rest => e.operations ++ operationsOfAll rest

end

/-- The operations of an expression that may be missing. -/
def operationsOfOption : Option HostExpr → List Operation
  | none => []
  | some e => e.operations

end HostExpr

mutual

/-- The operations of a statement, in the order they come up. -/
def HostStmt.operations : HostStmt → List Operation
  | .checkpoint | .goto _ | .label .. | .changeState _ => []
  | .eval value | .declare _ _ _ value => value.operations
  | .ret value => HostExpr.operationsOfOption value
  | .branch cond body arms otherwise =>
    cond.operations ++ HostStmt.operationsOfAll body ++ HostArm.operationsOfAll arms
      ++ HostStmt.operationsOfOption otherwise
  | .whileLoop cond body => cond.operations ++ HostStmt.operationsOfAll body
  | .doWhile body cond => HostStmt.operationsOfAll body ++ cond.operations
  | .forLoop init cond step body =>
    HostExpr.operationsOfAll init ++ HostExpr.operationsOfOption cond
      ++ HostExpr.operationsOfAll step ++ HostStmt.operationsOfAll body
  | .block body => HostStmt.operationsOfAll body

def HostStmt.operationsOfAll : List HostStmt → List Operation
  | [] => []
  | s :: rest => s.operations ++ HostStmt.operationsOfAll rest

def HostStmt.operationsOfOption : Option (List HostStmt) → List Operation
  | none => []
  | some body => HostStmt.operationsOfAll body

def HostArm.operationsOfAll : List HostArm → List Operation
  | [] => []
  | .mk cond body :: rest =>
    cond.operations ++ HostStmt.operationsOfAll body ++ HostArm.operationsOfAll rest

end

namespace HostExpr

theorem operationsOfAll_eq (es : List HostExpr) : operationsOfAll es = es.flatMap operations := by
  induction es with
  | nil => rfl
  | cons e rest ih => rw [operationsOfAll, ih, List.flatMap_cons]

/-- The operations of an expression are its own and those directly in it. -/
theorem mem_operations_args {e : HostExpr} :
    o ∈ e.operations ↔ e.operation? = some o ∨ ∃ a ∈ e.args, o ∈ a.operations := by
  cases e with
  | operate op right left | unstored op right left =>
    simp only [operations, operation?, args, List.mem_append, List.mem_cons, Option.some.injEq,
      exists_eq_or_imp, List.not_mem_nil, or_false, exists_eq_left]
    rw [eq_comm]
    tauto
  | _ => simp [operations, operation?, args, operationsOfAll_eq]

theorem mem_operations {e : HostExpr} :
    o ∈ e.operations ↔ ∃ x ∈ e.parts, x.operation? = some o := by
  induction e using args_induction with
  | step e ih =>
    rw [mem_operations_args, parts_eq]
    simp only [List.mem_cons, List.mem_flatMap, exists_eq_or_imp]
    refine or_congr_right ⟨?_, ?_⟩
    · rintro ⟨a, ha, ho⟩
      obtain ⟨x, hx, hxo⟩ := (ih a ha).mp ho
      exact ⟨x, ⟨a, ha, hx⟩, hxo⟩
    · rintro ⟨x, ⟨a, ha, hx⟩, hxo⟩
      exact ⟨a, ha, (ih a ha).mpr ⟨x, hx, hxo⟩⟩

end HostExpr

namespace HostStmt

theorem mem_operationsOfArms {arms : List HostArm} :
    o ∈ HostArm.operationsOfAll arms
      ↔ ∃ arm ∈ arms, o ∈ arm.cond.operations ∨ o ∈ operationsOfAll arm.body := by
  induction arms with
  | nil => simp [HostArm.operationsOfAll]
  | cons arm rest ih =>
    rcases arm with ⟨cond, body⟩
    simp [HostArm.operationsOfAll, HostArm.cond, HostArm.body, ih, or_assoc]

/-- The operations of a statement are those of its expressions and of its blocks. -/
theorem mem_operations {s : HostStmt} : o ∈ s.operations ↔
    (∃ e ∈ s.exprs, o ∈ e.operations) ∨ ∃ body ∈ s.bodies, o ∈ operationsOfAll body := by
  have hoption : ∀ value : Option HostExpr,
      o ∈ HostExpr.operationsOfOption value ↔ ∃ e ∈ value, o ∈ e.operations := by
    rintro (_ | e) <;> simp [HostExpr.operationsOfOption]
  cases s with
  | branch cond body arms otherwise =>
    have helse : o ∈ operationsOfOption otherwise ↔ ∃ b ∈ otherwise, o ∈ operationsOfAll b := by
      cases otherwise <;> simp [operationsOfOption]
    simp only [operations, exprs, clauses, values, bodies, List.mem_append, mem_operationsOfArms,
      helse, List.nil_append, List.cons_append, List.mem_cons, List.mem_map, Option.mem_toList,
      or_and_right, exists_or, exists_eq_left, exists_exists_and_eq_and, and_or_left,
      Option.mem_def, or_assoc, or_left_comm]
  | forLoop init cond step body =>
    simp only [operations, exprs, clauses, values, bodies, List.mem_append, hoption,
      HostExpr.operationsOfAll_eq, List.mem_flatMap, Option.mem_toList, Option.mem_def,
      List.mem_singleton, or_and_right, exists_or, exists_eq_left, or_assoc, or_left_comm]
  | _ => simp [operations, exprs, clauses, values, bodies, hoption, or_comm]

/-- The operations of code are those of the expressions at its places. -/
theorem mem_operationsOfAll {before : List HostStmt} {blocks : List (List HostStmt)}
    {code : List HostStmt} : o ∈ operationsOfAll code ↔
      ∃ spot ∈ spotsOf before blocks code, ∃ e ∈ spot.stmt.exprs, o ∈ e.operations := by
  induction code using code_induction generalizing before blocks with
  | nil => simp [operationsOfAll, spotsOf]
  | cons s rest ihin ihrest =>
    have hin : (∃ body ∈ s.bodies, o ∈ operationsOfAll body) ↔
        ∃ body ∈ s.bodies, ∃ spot ∈ spotsOf before (body :: blocks) body,
          ∃ e ∈ spot.stmt.exprs, o ∈ e.operations :=
      exists_congr fun body => and_congr_right fun hb => ihin body hb
    rw [operationsOfAll, spotsOf_cons, List.mem_append, mem_operations, hin,
      @ihrest (before ++ [s]) blocks]
    simp only [List.cons_append, List.mem_cons, List.mem_append, List.mem_flatMap,
      or_and_right, exists_or, exists_eq_left]
    rw [or_assoc]
    refine or_congr_right (or_congr_left ⟨?_, ?_⟩)
    · rintro ⟨body, hb, spot, hspot, h⟩
      exact ⟨spot, ⟨body, hb, hspot⟩, h⟩
    · rintro ⟨spot, ⟨body, hb, hspot⟩, h⟩
      exact ⟨body, hb, spot, hspot, h⟩

end HostStmt

end Lsl
