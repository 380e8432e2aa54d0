/- # Other numbers for the nodes

What a run builds depends on the numbers of nodes only in that nodes refer to
each other by them. Giving the nodes other numbers changes these references and
nothing else: a renamed node has the renamed parts of the old one, and a scope
whose statements have other numbers is tracked in the same way.

Key definitions: `NodeKind.rename`, `Node.rename`, `Tracker.rename`, `Facts.rename`.
Key theorems: `NodeKind.children_rename`, `Tracker.classify_rename`,
`Tracker.segments_rename`.
-/
import Lsl.Check.Stmt
import Lsl.Proofs.Tree.Placing
import Mathlib.Data.List.Find

namespace Lsl

variable (f : NodeId → NodeId)

/-! ### Nodes with other numbers -/

def Variable.rename (v : Variable) : Variable :=
  { v with init := v.init.map f, references := v.references.map f }

def ScriptNode.rename (n : ScriptNode) : ScriptNode where
  globals := n.globals.map f
  functions := n.functions.map f
  defaultState := n.defaultState.map f
  states := n.states.map f

def FunctionNode.rename (n : FunctionNode) : FunctionNode :=
  { n with params := n.params.map f, body := n.body.map f, references := n.references.map f }

def StateNode.rename (n : StateNode) : StateNode := { n with handlers := n.handlers.map f }

def HandlerNode.rename (n : HandlerNode) : HandlerNode :=
  { n with params := n.params.map f, body := f n.body }

def ConstantJump.rename (j : ConstantJump) : ConstantJump :=
  { j with jump := f j.jump, label := f j.label }

def DeadSegment.rename (s : DeadSegment) : DeadSegment :=
  { s with statements := s.statements.map f }

def CodeScope.rename (s : CodeScope) : CodeScope :=
  { s with
    statements := s.statements.map f
    deadSegments := s.deadSegments.map (·.rename f)
    constantJumps := s.constantJumps.map (·.rename f)
    returnPath := s.returnPath.map f }

def StmtInfo.rename (i : StmtInfo) : StmtInfo := { i with returnPath := i.returnPath.map f }

def StmtKind.rename : StmtKind → StmtKind
  | empty => empty
  | expr value => expr (f value)
  | declare v => declare (v.rename f)
  | ret value => ret (value.map f)
  | jump name target constant => jump name (target.map f) constant
  | label name jumps => label name (jumps.map f)
  | stateChange target state => stateChange target (state.map f)
  | branch cond thenScope elseIfs elseScope =>
    branch (f cond) (f thenScope) (elseIfs.map fun (c, b) => (f c, f b)) (elseScope.map f)
  | whileLoop cond body => whileLoop (f cond) (f body)
  | doWhile body cond => doWhile (f body) (f cond)
  | forLoop init cond step body => forLoop (init.map f) (cond.map f) (step.map f) (f body)
  | block scope => block (f scope)

def StmtNode.rename (s : StmtNode) : StmtNode := ⟨s.kind.rename f, s.info.rename f⟩

def Binding.rename : Binding → Binding
  | global d => global (f d)
  | inner d => inner (f d)
  | param d => param (f d)
  | constant entry => constant entry

def CallTarget.rename : CallTarget → CallTarget
  | user function => user (f function)
  | library modInvoke params => library modInvoke params

def ExprKind.rename : ExprKind → ExprKind
  | integer text => integer text
  | hex text => hex text
  | float text => float text
  | string text => string text
  | vector x y z => vector (f x) (f y) (f z)
  | rotation x y z s => rotation (f x) (f y) (f z) (f s)
  | list items => list (items.map f)
  | ref name binding => ref name (binding.rename f)
  | component object c => component (f object) c
  | call name args target => call name (args.map f) (target.rename f)
  | binary op left right => binary op (f left) (f right)
  | prefixed op operand => prefixed op (f operand)
  | postfixed op operand => postfixed op (f operand)
  | cast ty operand => cast ty (f operand)
  | paren inner => paren (f inner)

def ExprNode.rename (e : ExprNode) : ExprNode := { e with kind := e.kind.rename f }

def NodeKind.rename : NodeKind → NodeKind
  | script n => script (n.rename f)
  | global v => global (v.rename f)
  | function n => function (n.rename f)
  | param v => param (v.rename f)
  | state n => state (n.rename f)
  | handler n => handler (n.rename f)
  | scope n => scope (n.rename f)
  | stmt n => stmt (n.rename f)
  | expr n => expr (n.rename f)
  | error => error

def Node.rename (n : Node) : Node :=
  { n with kind := n.kind.rename f, parent := n.parent.map f }

/-! ### What is read off a renamed node -/

section Nodes

attribute [local simp] Variable.rename ScriptNode.rename FunctionNode.rename StateNode.rename
  HandlerNode.rename ConstantJump.rename DeadSegment.rename CodeScope.rename StmtInfo.rename
  StmtKind.rename StmtNode.rename CallTarget.rename ExprKind.rename ExprNode.rename NodeKind.rename

@[simp] theorem Binding.decl?_rename (b : Binding) : (b.rename f).decl? = b.decl?.map f := by
  cases b <;> rfl

theorem ExprKind.children_rename (k : ExprKind) : (k.rename f).children = k.children.map f := by
  cases k <;> rfl

theorem StmtKind.children_rename (k : StmtKind) : (k.rename f).children = k.children.map f := by
  cases k with
  | branch cond thenScope elseIfs elseScope =>
    simp [children, List.flatMap_map, List.map_flatMap, Option.toList_map]
  | declare | ret => simp [children, Option.toList_map]
  | forLoop => simp [children, Option.toList_map]
  | _ => rfl

namespace NodeKind

theorem children_rename (k : NodeKind) : (k.rename f).children = k.children.map f := by
  cases k with
  | stmt s => exact s.kind.children_rename f
  | expr e => exact e.kind.children_rename f
  | _ =>
    simp [children, Option.toList_map]

@[simp] theorem expr?_rename (k : NodeKind) : (k.rename f).expr? = k.expr?.map (·.rename f) := by
  cases k <;> rfl

@[simp] theorem stmt?_rename (k : NodeKind) : (k.rename f).stmt? = k.stmt?.map (·.rename f) := by
  cases k <;> rfl

@[simp] theorem scope?_rename (k : NodeKind) :
    (k.rename f).scope? = k.scope?.map (·.rename f) := by
  cases k <;> rfl

@[simp] theorem var?_rename (k : NodeKind) : (k.rename f).var? = k.var?.map (·.rename f) := by
  cases k with
  | stmt s =>
    rcases s with ⟨kind, info⟩
    cases kind <;> rfl
  | _ => rfl

theorem uses_rename (k : NodeKind) : (k.rename f).uses = k.uses.map f := by
  cases k with
  | stmt s =>
    rcases s with ⟨kind, info⟩
    cases kind <;> rfl
  | _ => rfl

@[simp] theorem sort_rename (k : NodeKind) : (k.rename f).sort = k.sort := by
  cases k <;> rfl

theorem rename_rename (f g : NodeId → NodeId) (k : NodeKind) :
    (k.rename f).rename g = k.rename (g ∘ f) := by
  cases k with
  | stmt s =>
    rcases s with ⟨kind, info⟩
    cases kind <;> simp [Function.comp_def]
  | expr e =>
    rcases e with ⟨kind, ty, constant⟩
    cases kind with
    | ref name b => cases b <;> rfl
    | call name args target => cases target <;> simp
    | _ => simp
  | _ => simp [Function.comp_def]

end NodeKind

end Nodes

theorem NodeKind.mapVariable_rename {g g' : Variable → Variable} (k : NodeKind)
    (hg : ∀ v, g' (v.rename f) = (g v).rename f) :
    (k.rename f).mapVariable g' = (k.mapVariable g).rename f := by
  cases k with
  | stmt s =>
    rcases s with ⟨kind, info⟩
    cases kind <;> simp [rename, mapVariable, StmtNode.rename, StmtKind.rename, hg]
  | _ => simp [rename, mapVariable, hg]

theorem NodeKind.mapStmt_rename {g g' : StmtNode → StmtNode} (k : NodeKind)
    (hg : ∀ s, g' (s.rename f) = (g s).rename f) :
    (k.rename f).mapStmt g' = (k.mapStmt g).rename f := by
  cases k <;> simp [rename, mapStmt, hg]

/-! ### Headings -/

/-- What others read off a declaration: its sort, the name and the type of a
variable, and the name, the result and the parameters of a function. -/
structure Heading where
  sort : NodeSort
  var : Option (String × Ty)
  function : Option (String × Ty × List NodeId)

def Heading.rename (h : Heading) : Heading :=
  { h with function := h.function.map fun x => (x.1, x.2.1, x.2.2.map f) }

theorem Heading.rename_congr {f f' : NodeId → NodeId} {h : Heading}
    (heq : ∀ x ∈ h.function, ∀ p ∈ x.2.2, f p = f' p) : h.rename f = h.rename f' := by
  rcases h with ⟨sort, var, _ | x⟩
  · rfl
  · simp only [rename, Option.map_some, Heading.mk.injEq, Option.some.injEq, Prod.mk.injEq,
      true_and]
    exact List.map_congr_left (heq x rfl)

theorem Heading.rename_rename (f g : NodeId → NodeId) (h : Heading) :
    (h.rename f).rename g = h.rename (g ∘ f) := by
  simp [rename, Function.comp_def]

theorem Heading.rename_id (h : Heading) : h.rename id = h := by
  rcases h with ⟨sort, var, _ | x⟩ <;> simp [rename]

def NodeKind.heading (k : NodeKind) : Heading where
  sort := k.sort
  var := k.var?.map fun v => (v.name, v.ty)
  function := k.function?.map fun g => (g.name, g.returnType, g.params)

theorem NodeKind.heading_outline (k : NodeKind) : k.outline.heading = k.heading := by
  cases k with
  | stmt s =>
    rcases s with ⟨kind, info⟩
    cases kind <;> rfl
  | _ => rfl

/-- A declaration keeps its heading. -/
theorem NodeKind.heading_of_outline {k k' : NodeKind} (h : k'.outline = k.outline) :
    k'.heading = k.heading := by
  rw [← heading_outline, h, heading_outline]

theorem NodeKind.heading_rename (k : NodeKind) : (k.rename f).heading = k.heading.rename f := by
  cases k with
  | stmt s =>
    rcases s with ⟨kind, info⟩
    cases kind <;> rfl
  | _ => rfl

theorem NodeKind.function?_of_heading {k k' : NodeKind} (h : k'.heading = k.heading.rename f)
    {g : FunctionNode} (hg : k.function? = some g) :
    ∃ g', k'.function? = some g' ∧ g'.name = g.name ∧ g'.returnType = g.returnType
      ∧ g'.params = g.params.map f := by
  have hf := congrArg Heading.function h
  simp only [heading, Heading.rename, hg, Option.map_some, Option.map_eq_some_iff,
    Prod.mk.injEq] at hf
  exact hf

/-! ### Tracking statements with other numbers -/

def OpenSegment.rename (s : OpenSegment) : OpenSegment := { s with segment := s.segment.rename f }

def Tracker.rename (tr : Tracker) : Tracker :=
  { tr with
    statements := tr.statements.map f
    returnPath := tr.returnPath.map f
    current := tr.current.map (·.rename f)
    closed := tr.closed.map (·.rename f)
    constantJumps := tr.constantJumps.map (·.rename f) }

def Facts.rename (facts : Facts) : Facts :=
  { facts with constantJump := facts.constantJump.map (·.rename f) }

namespace Tracker

variable (tr : Tracker)

attribute [local simp] DeadSegment.rename OpenSegment.rename rename

@[simp] theorem scopeId_rename : (tr.rename f).scopeId = tr.scopeId := rfl

@[simp] theorem nextIndex_rename : (tr.rename f).nextIndex = tr.nextIndex := List.length_map f

@[simp] theorem statements_rename : (tr.rename f).statements = tr.statements.map f := rfl

theorem resumesAt_rename : (tr.rename f).resumesAt = tr.resumesAt := by
  simp only [resumesAt, rename, Option.bind_map]
  rfl

theorem close_rename : (tr.rename f).close = tr.close.rename f := by
  rcases h : tr.current with _ | s <;> simp [close, h]

theorem onlyAfterReturn_rename : (tr.rename f).onlyAfterReturn = tr.onlyAfterReturn := by
  rcases h : tr.current with _ | s <;>
    simp [onlyAfterReturn, hasReturnPath, h]

theorem revive_rename : (tr.rename f).revive = tr.revive.rename f := by
  rw [revive, close_rename, revive]
  rfl

theorem openAfterJump_rename (index : Nat) (span : Span) :
    (tr.rename f).openAfterJump index span = (tr.openAfterJump index span).rename f := by
  have hfound : (tr.rename f).constantJumps.findSome? (blockedBy tr.scopeId index)
      = tr.constantJumps.findSome? (blockedBy tr.scopeId index) := by
    rw [rename, List.findSome?_map]
    rfl
  rcases h : tr.current with _ | s
  · have h' : (tr.rename f).current = none := by simp [h]
    rw [openAfterJump, h', openAfterJump, h]
    simp only [scopeId_rename, hfound]
    cases tr.constantJumps.findSome? (blockedBy tr.scopeId index) <;>
      simp [openSegment]
  · have h' : (tr.rename f).current = some (s.rename f) := by simp [h]
    rw [openAfterJump, h', openAfterJump, h]

theorem noteReturn_rename (id : NodeId) (returns : Bool) (span : Span) :
    (tr.rename f).noteReturn (f id) returns span = (tr.noteReturn id returns span).rename f := by
  have hreturn : (tr.rename f).returnPath = tr.returnPath.map f := rfl
  have hcurrent : (tr.rename f).current = tr.current.map (·.rename f) := rfl
  have hsingle : (tr.rename f).singleStatement = tr.singleStatement := rfl
  simp only [noteReturn, resumesAt_rename, hreturn, hcurrent, hsingle, Option.isNone_map,
    Option.isSome_map]
  split
  · cases returns <;> rfl
  · split
    · rfl
    · split <;> rfl

theorem arrive_rename (index : Nat) : (tr.rename f).arrive index = (tr.arrive index).rename f := by
  rw [arrive, resumesAt_rename, arrive]
  split
  · split
    · exact close_rename f tr
    · rfl
  · rfl

theorem extend_rename (id : NodeId) (span : Span) :
    (tr.rename f).extend (f id) span = (tr.extend id span).rename f := by
  rcases h : tr.current with _ | s <;>
    simp [extend, h]

theorem reach_rename : (tr.rename f).reach = tr.reach := by
  rcases h : tr.current with _ | s <;>
    simp [reach, h]

/-- **Statements are classified alike, whatever their numbers.** -/
theorem classify_rename (id : NodeId) (span : Span) (returns reached : Bool) :
    (tr.rename f).classify (f id) span returns reached
      = ((tr.classify id span returns reached).1.rename f,
          (tr.classify id span returns reached).2) := by
  have hcons : { tr.rename f with statements := (tr.rename f).statements ++ [f id] }
      = Tracker.rename f { tr with statements := tr.statements ++ [id] } := by
    simp
  simp only [classify, hcons, nextIndex_rename, onlyAfterReturn_rename, revive_rename]
  split <;>
    simp only [openAfterJump_rename, noteReturn_rename, arrive_rename, extend_rename, reach_rename]

theorem record_rename (jump : Option ConstantJump) :
    (tr.rename f).record (jump.map (·.rename f)) = (tr.record jump).rename f := by
  cases jump <;> simp [record]

theorem segments_rename : (tr.rename f).segments = tr.segments.map (·.rename f) := by
  rw [segments, close_rename, segments]
  exact (List.map_mergeSort (f := DeadSegment.rename f) (l := tr.close.closed)
    (r := fun a b => a.span.start ≤ b.span.start) (s := fun a b => a.span.start ≤ b.span.start)
    fun _ _ _ _ => rfl).symm

end Tracker

/-! ### Scopes and facts with other numbers -/

theorem Facts.jumpOf_rename (facts : Facts) (reach : Reach) :
    (facts.rename f).jumpOf reach = (facts.jumpOf reach).map (·.rename f) := by
  unfold jumpOf
  split <;> rfl

theorem Tree.placeInfo_rename (tr : Tracker) (id : NodeId) (facts : Facts) (reach : Reach) :
    placeInfo (tr.rename f) (f id) (facts.rename f) reach
      = (placeInfo tr id facts reach).rename f := by
  cases h : facts.returns <;> simp [placeInfo, StmtInfo.rename, Facts.rename, h]

theorem CodeScope.hasReturnPath_rename (scope : CodeScope) :
    (scope.rename f).hasReturnPath = scope.hasReturnPath := by
  simp [hasReturnPath, rename]

theorem blockFacts_rename (scope : CodeScope) (id index : Nat) :
    blockFacts (scope.rename f) (f id) index = (blockFacts scope id index).rename f := by
  have hleaving : (scope.rename f).leavingJump? = scope.leavingJump?.map (·.rename f) := by
    rw [CodeScope.leavingJump?, CodeScope.leavingJump?, CodeScope.rename, List.find?_map]
    rfl
  rw [blockFacts, hleaving, CodeScope.hasReturnPath_rename, blockFacts, Facts.rename, Option.map_map,
    Option.map_map]
  rfl

/-- Jumps to a common label are found as long as different labels have different numbers. -/
theorem branchFacts_rename (first : CodeScope) (others : List CodeScope) (id index : Nat)
    (h : ∀ s ∈ first :: others, ∀ j ∈ s.constantJumps, ∀ s' ∈ first :: others,
      ∀ j' ∈ s'.constantJumps, f j.label = f j'.label → j.label = j'.label) :
    branchFacts (first.rename f) (others.map (·.rename f)) (f id) index
      = (branchFacts first others id index).rename f := by
  have hcommon : (first.rename f).commonJump? (others.map (·.rename f))
      = (first.commonJump? others).map (·.rename f) := by
    rw [CodeScope.commonJump?, CodeScope.commonJump?]
    change (first.constantJumps.map (ConstantJump.rename f)).find? _ = _
    rw [List.find?_map]
    refine congrArg (Option.map (ConstantJump.rename f)) (List.find?_congr fun j hj => ?_)
    -- the labels of two jumps have the same new number if and only if they are the same
    rw [Function.comp_apply, List.all_map, Bool.eq_iff_iff, List.all_eq_true, List.all_eq_true]
    refine forall₂_congr fun s hs => ?_
    change ((s.constantJumps.map (ConstantJump.rename f)).any fun x => x.label == f j.label) = true ↔ _
    rw [List.any_map, List.any_eq_true, List.any_eq_true]
    refine exists_congr fun x => and_congr_right fun hx => ?_
    rw [Function.comp_apply, beq_iff_eq, beq_iff_eq]
    exact ⟨h s (List.mem_cons_of_mem _ hs) x hx first List.mem_cons_self j hj,
      fun he => congrArg f he⟩
  have hall : (first.rename f :: others.map (·.rename f)).all (·.hasReturnPath)
      = (first :: others).all (·.hasReturnPath) := by
    rw [← List.map_cons (f := CodeScope.rename f), List.all_map]
    exact List.all_congr rfl fun s => s.hasReturnPath_rename f
  rw [branchFacts, hcommon, hall, branchFacts, Facts.rename, Option.map_map, Option.map_map]
  rfl

end Lsl
