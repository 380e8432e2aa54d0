/- # Places in host code

The statements of a piece of host code, each with what stands before it and with
the blocks around it, and the expressions in them. What generated code uses and
what it defines is told in these terms.

Key definitions: `HostExpr.parts`, `HostStmt.exprs`, `HostStmt.bodies`, `Spot`,
`HostMethod.spots`.
Key theorems: `HostExpr.parts_eq`, `HostExpr.args_induction`, `HostStmt.spotsOf_cons`,
`HostStmt.code_induction`, `HostStmt.mem_of_mem_blocks`.
-/
import Lsl.Host.Code

namespace Lsl

/-! ### Expressions -/

namespace HostExpr

/-- The expressions directly in an expression. -/
def args : HostExpr → List HostExpr
  | text _ | global .. | inner .. | param _ | absent _ => []
  | make _ args | callFunction _ args | callLibrary _ args | callModule _ _ args => args
  | component e _ | copyList e | stepBefore _ e | stepAfter _ e | neighbour e _ | negate e
  | unary _ e | cast _ e | paren e | force e | toBool e | keyToBool e => [e]
  | operate _ right left | unstored _ right left | logical _ right left => [right, left]
  | assign _ target value | assignRounded target value => [target, value]

mutual

/-- All expressions inside an expression. -/
def inside : HostExpr → List HostExpr
  | text _ | global .. | inner .. | param _ | absent _ => []
  | make _ args | callFunction _ args | callLibrary _ args | callModule _ _ args =>
    insideAll args
  | component e _ | copyList e | stepBefore _ e | stepAfter _ e | neighbour e _ | negate e
  | unary _ e | cast _ e | paren e | force e | toBool e | keyToBool e => e :: e.inside
  | operate _ right left | unstored _ right left | logical _ right left =>
    right :: right.inside ++ left :: left.inside
  | assign _ target value | assignRounded target value =>
    target :: target.inside ++ value :: value.inside

def insideAll : List HostExpr → List HostExpr
  | [] => []
  | e :: rest => e :: e.inside ++ insideAll rest

end

/-- An expression and all expressions inside it. -/
def parts (e : HostExpr) : List HostExpr := e :: e.inside

theorem insideAll_eq (args : List HostExpr) : insideAll args = args.flatMap parts := by
  induction args with
  | nil => rfl
  | cons e rest ih => rw [insideAll, ih, List.flatMap_cons, parts]

theorem parts_eq (e : HostExpr) : e.parts = e :: e.args.flatMap parts := by
  cases e <;> simp [parts, inside, args, insideAll_eq]

theorem sizeOf_args {e a : HostExpr} (h : a ∈ e.args) : sizeOf a < sizeOf e := by
  cases e with
  | make ty args | callFunction name args | callLibrary name args | callModule ty name args =>
    have := List.sizeOf_lt_of_mem (show a ∈ args from h)
    simp only [make.sizeOf_spec, callFunction.sizeOf_spec, callLibrary.sizeOf_spec,
      callModule.sizeOf_spec]
    omega
  | text | global | inner | param | absent => cases h
  | operate | unstored | logical | assign | assignRounded =>
    simp only [args, List.mem_cons, List.not_mem_nil, or_false] at h
    rcases h with rfl | rfl
    all_goals
      simp only [operate.sizeOf_spec, unstored.sizeOf_spec, logical.sizeOf_spec,
        assign.sizeOf_spec, assignRounded.sizeOf_spec]
      omega
  | _ =>
    obtain rfl := List.mem_singleton.mp h
    simp only [component.sizeOf_spec, copyList.sizeOf_spec, stepBefore.sizeOf_spec,
      stepAfter.sizeOf_spec, neighbour.sizeOf_spec, negate.sizeOf_spec, unary.sizeOf_spec,
      cast.sizeOf_spec, paren.sizeOf_spec, force.sizeOf_spec, toBool.sizeOf_spec,
      keyToBool.sizeOf_spec]
    omega

/-- Induction on expressions, from those directly in one. -/
theorem args_induction {motive : HostExpr → Prop}
    (step : ∀ e, (∀ a ∈ e.args, motive a) → motive e) : ∀ e, motive e := fun e =>
  step e fun a h => by
    have := sizeOf_args h
    exact args_induction step a
termination_by e => sizeOf e

end HostExpr

/-! ### Statements -/

namespace HostArm

def cond : HostArm → HostExpr
  | mk cond _ => cond

def body : HostArm → List HostStmt
  | mk _ body => body

end HostArm

/-- A statement at its place. -/
structure Spot where
  stmt : HostStmt
  /-- What stands before it, in its block and in the blocks around it. -/
  before : List HostStmt
  /-- The block it stands in and those around it, the innermost first. -/
  blocks : List (List HostStmt)

namespace HostStmt

/-- The expressions that a statement evaluates without using their values. -/
def clauses : HostStmt → List HostExpr
  | eval value => [value]
  | forLoop init _ step _ => init ++ step
  | _ => []

/-- The expressions whose values a statement uses. -/
def values : HostStmt → List HostExpr
  | declare _ _ _ value => [value]
  | ret value => value.toList
  | branch cond _ arms _ => cond :: arms.map (·.cond)
  | whileLoop cond _ | doWhile _ cond => [cond]
  | forLoop _ cond _ _ => cond.toList
  | checkpoint | eval _ | goto _ | label .. | changeState _ | block _ => []

/-- The expressions directly in a statement. -/
def exprs (s : HostStmt) : List HostExpr := s.clauses ++ s.values

/-- The blocks directly in a statement. -/
def bodies : HostStmt → List (List HostStmt)
  | branch _ body arms otherwise => body :: arms.map (·.body) ++ otherwise.toList
  | whileLoop _ body | doWhile body _ | forLoop _ _ _ body | block body => [body]
  | checkpoint | eval _ | declare .. | ret _ | goto _ | label .. | changeState _ => []

/-- The local variable that a statement declares, by its scope and its name. -/
def declared? : HostStmt → Option (Nat × String)
  | declare _ scopeId name _ => some (scopeId, name)
  | _ => none

/-- The label that a statement jumps to. -/
def goto? : HostStmt → Option String
  | goto target => some target
  | _ => none

/-- The label that a statement is. -/
def label? : HostStmt → Option String
  | label name _ => some name
  | _ => none

mutual

/-- The places inside a statement that has this before it and these blocks around. -/
def spotsIn (before : List HostStmt) (blocks : List (List HostStmt)) : HostStmt → List Spot
  | branch _ body arms otherwise =>
    spotsOf before (body :: blocks) body ++ spotsOfArms before blocks arms
      ++ spotsOfOption before blocks otherwise
  | whileLoop _ body | doWhile body _ | forLoop _ _ _ body | block body =>
    spotsOf before (body :: blocks) body
  | checkpoint | eval _ | declare .. | ret _ | goto _ | label .. | changeState _ => []
termination_by structural code => code

/-- The places in the statements of the innermost block. -/
def spotsOf (before : List HostStmt) (blocks : List (List HostStmt)) : List HostStmt → List Spot
  | [] => []
  | s :: rest => ⟨s, before, blocks⟩ :: spotsIn before blocks s ++ spotsOf (before ++ [s]) blocks rest
termination_by structural code => code

def spotsOfArms (before : List HostStmt) (blocks : List (List HostStmt)) : List HostArm → List Spot
  | [] => []
  | .mk _ body :: rest =>
    spotsOf before (body :: blocks) body ++ spotsOfArms before blocks rest
termination_by structural code => code

def spotsOfOption (before : List HostStmt) (blocks : List (List HostStmt)) :
    Option (List HostStmt) → List Spot
  | none => []
  | some body => spotsOf before (body :: blocks) body
termination_by structural code => code

end

variable {before : List HostStmt} {blocks : List (List HostStmt)}

theorem spotsOfArms_eq (arms : List HostArm) :
    spotsOfArms before blocks arms
      = (arms.map (·.body)).flatMap fun body => spotsOf before (body :: blocks) body := by
  induction arms with
  | nil => rfl
  | cons arm rest ih =>
    rcases arm with ⟨cond, body⟩
    rw [spotsOfArms, ih]
    rfl

/-- The places inside a statement are those in its blocks. -/
theorem spotsIn_eq (s : HostStmt) :
    spotsIn before blocks s = s.bodies.flatMap fun body => spotsOf before (body :: blocks) body := by
  cases s with
  | branch cond body arms otherwise =>
    cases otherwise <;> simp [spotsIn, spotsOfArms_eq, spotsOfOption, bodies, List.append_assoc]
  | _ => simp [spotsIn, bodies]

theorem spotsOf_cons (s : HostStmt) (rest : List HostStmt) :
    spotsOf before blocks (s :: rest)
      = ⟨s, before, blocks⟩ :: (s.bodies.flatMap fun body => spotsOf before (body :: blocks) body)
        ++ spotsOf (before ++ [s]) blocks rest := by
  rw [spotsOf, spotsIn_eq]

/-- What is found in the statements of a block: in a statement, in its blocks, and
behind it. -/
theorem filterMap_spotsOf_cons {γ : Type} (f : HostStmt → Option γ) (s : HostStmt)
    (rest : List HostStmt) :
    (spotsOf before blocks (s :: rest)).filterMap (f ·.stmt)
      = (f s).toList ++ (s.bodies.flatMap fun body =>
          (spotsOf before (body :: blocks) body).filterMap (f ·.stmt))
        ++ (spotsOf (before ++ [s]) blocks rest).filterMap (f ·.stmt) := by
  rw [spotsOf_cons, List.filterMap_append, List.filterMap_cons, List.filterMap_flatMap]
  cases f s <;> rfl

theorem sizeOf_bodies {s : HostStmt} {body : List HostStmt} (h : body ∈ s.bodies) :
    sizeOf body < sizeOf s := by
  cases s with
  | branch cond first arms otherwise =>
    simp only [bodies, List.cons_append, List.mem_cons, List.mem_append, List.mem_map,
      Option.mem_toList] at h
    rcases h with rfl | ⟨⟨c, b⟩, harm, rfl⟩ | rfl
    · simp only [branch.sizeOf_spec]
      omega
    · have := List.sizeOf_lt_of_mem harm
      simp only [HostArm.mk.sizeOf_spec] at this
      simp only [HostArm.body, branch.sizeOf_spec]
      omega
    · simp only [branch.sizeOf_spec, Option.some.sizeOf_spec]
      omega
  | whileLoop | doWhile | forLoop | block =>
    obtain rfl := List.mem_singleton.mp h
    simp only [whileLoop.sizeOf_spec, doWhile.sizeOf_spec, forLoop.sizeOf_spec, block.sizeOf_spec]
    omega
  | _ => cases h

/-- Induction on code: a statement, with its blocks, and the code behind it. -/
theorem code_induction {motive : List HostStmt → Prop} (nil : motive [])
    (cons : ∀ s rest, (∀ body ∈ s.bodies, motive body) → motive rest → motive (s :: rest)) :
    ∀ code, motive code
  | [] => nil
  | s :: rest =>
    cons s rest (fun body h => by
      have := sizeOf_bodies h
      exact code_induction nil cons body) (code_induction nil cons rest)
termination_by code => sizeOf code
decreasing_by
  · simp only [List.cons.sizeOf_spec]
    omega
  · simp only [List.cons.sizeOf_spec]
    omega

end HostStmt

/-! ### Methods -/

namespace HostMethod

/-- The statements of a method at their places. -/
def spots (m : HostMethod) : List Spot := HostStmt.spotsOf [] [m.body] m.body

/-- The labels of a method. -/
def labels (m : HostMethod) : List String := m.spots.filterMap (·.stmt.label?)

/-- The local variables that a method declares, by their scopes and names. -/
def locals (m : HostMethod) : List (Nat × String) := m.spots.filterMap (·.stmt.declared?)

end HostMethod

end Lsl
