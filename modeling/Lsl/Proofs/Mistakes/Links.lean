/- # What belongs together

Two runs resolve a script and the same script with mistakes. What the one run makes
for an expression that is missing in the other has no counterpart there, so the
numbers of nodes differ; which node belongs to which is a relation, and it grows as
the runs go on. Scopes whose statements belong together are tracked alike.

Key definitions: `Links`, `Gist`, `Names.Linked`, `Tracker.Linked`.
Key theorems: `Names.Linked.lookup`, `Tracker.Linked.classify`, `Tracker.Linked.mem_reasons`.
-/
import Lsl.Check.Script
import Mathlib.Data.List.Forall2
import Mathlib.Order.Basic

namespace Lsl

variable {P Q : NodeId → NodeId → Prop}

/-! ### Links -/

/-- Which variables, functions and nodes of one run belong to which of another. -/
structure Links where
  vars : NodeId → NodeId → Prop
  functions : NodeId → NodeId → Prop
  /-- Nodes of the body that is being resolved. -/
  nodes : NodeId → NodeId → Prop

namespace Links

/-- There are more links. -/
instance : Preorder Links where
  le L M := (∀ i j, L.vars i j → M.vars i j) ∧ (∀ i j, L.functions i j → M.functions i j)
    ∧ ∀ i j, L.nodes i j → M.nodes i j
  le_refl _ := ⟨fun _ _ h => h, fun _ _ h => h, fun _ _ h => h⟩
  le_trans _ _ _ h g := ⟨fun i j hl => g.1 i j (h.1 i j hl), fun i j hl => g.2.1 i j (h.2.1 i j hl),
    fun i j hl => g.2.2 i j (h.2.2 i j hl)⟩

variable (L : Links) (i j : NodeId)

def addVar : Links := { L with vars := fun a b => L.vars a b ∨ a = i ∧ b = j }

def addFunction : Links := { L with functions := fun a b => L.functions a b ∨ a = i ∧ b = j }

def addNode : Links := { L with nodes := fun a b => L.nodes a b ∨ a = i ∧ b = j }

/-- The links that last when a body is left. -/
def outer : Links := { L with nodes := fun _ _ => False }

theorem le_addVar : L ≤ L.addVar i j := ⟨fun _ _ h => .inl h, fun _ _ h => h, fun _ _ h => h⟩

theorem le_addFunction : L ≤ L.addFunction i j :=
  ⟨fun _ _ h => h, fun _ _ h => .inl h, fun _ _ h => h⟩

theorem le_addNode : L ≤ L.addNode i j := ⟨fun _ _ h => h, fun _ _ h => h, fun _ _ h => .inl h⟩

/-- No nodes are linked: nothing is linked that lies inside a body. -/
def Outer : Prop := ∀ i j, ¬ L.nodes i j

theorem outer_outer : L.outer.Outer := fun _ _ h => h

/-- What was linked outside bodies lasts. -/
theorem Outer.le {L M : Links} (ho : L.Outer) (h : L ≤ M) : L ≤ M.outer :=
  ⟨h.1, h.2.1, fun i j hij => (ho i j hij).elim⟩

/-- A pair of nodes without links can be linked. -/
theorem unique_addNode {L : Links} {i j : NodeId} (h : Relator.BiUnique L.nodes)
    (hfresh : ∀ b, ¬ L.nodes i b) (hfresh' : ∀ a, ¬ L.nodes a j) :
    Relator.BiUnique (L.addNode i j).nodes := by
  constructor
  · rintro a b c (hab | ⟨rfl, rfl⟩) (hcb | ⟨rfl, hc⟩)
    · exact h.1 hab hcb
    · exact absurd (hc ▸ hab) (hfresh' a)
    · exact absurd hcb (hfresh' _)
    · rfl
  · rintro a b c (hab | ⟨rfl, rfl⟩) (hac | ⟨hc, rfl⟩)
    · exact h.2 hab hac
    · exact absurd (hc ▸ hab) (hfresh _)
    · exact absurd hac (hfresh _)
    · rfl

end Links

/-! ### What is read off a node -/

def StmtKind.jumps? : StmtKind → Option (List NodeId)
  | .label _ jumps => some jumps
  | _ => none

/-- What the checker reads off a node inside a body, apart from the types of
expressions: the jumps to a label, the place of a statement and why it is dead, and
the number of a scope, where it jumps and whether it returns. -/
structure Gist where
  jumps : Option (List NodeId)
  place : Option (Nat × Nat × Reach)
  scope : Option (Nat × List ConstantJump × Bool)

def NodeKind.gist (k : NodeKind) : Gist where
  jumps := k.stmt?.bind (·.kind.jumps?)
  place := k.stmt?.map fun s => (s.info.index, s.info.scopeId, s.info.dead)
  scope := k.scope?.map fun c => (c.scopeId, c.constantJumps, c.hasReturnPath)

theorem NodeKind.gist_mapVariable (k : NodeKind) (f : Variable → Variable) :
    (k.mapVariable f).gist = k.gist := by
  cases k with
  | stmt s =>
    rcases s with ⟨kind, info⟩
    cases kind <;> rfl
  | _ => rfl

theorem NodeKind.gist_mapFunction (k : NodeKind) (f : FunctionNode → FunctionNode) :
    (k.mapFunction f).gist = k.gist := by
  cases k <;> rfl

/-- Jumps that lead to labels which belong together, from and to the same places. -/
structure ConstantJump.Linked (P : NodeId → NodeId → Prop) (j j' : ConstantJump) : Prop where
  label : P j.label j'.label
  jumpIndex : j'.jumpIndex = j.jumpIndex
  targetScope : j'.targetScope = j.targetScope
  targetIndex : j'.targetIndex = j.targetIndex

theorem ConstantJump.Linked.mono {j j' : ConstantJump} (hPQ : ∀ a b, P a b → Q a b)
    (h : j.Linked P j') : j.Linked Q j' := { h with label := hPQ _ _ h.label }

/-- What is read off two nodes that belong together. -/
structure Gist.Linked (P : NodeId → NodeId → Prop) (g g' : Gist) : Prop where
  jumps : Option.Rel (List.Forall₂ P) g.jumps g'.jumps
  place : g'.place = g.place
  scope : Option.Rel (fun c c' => c'.1 = c.1
    ∧ List.Forall₂ (ConstantJump.Linked P) c.2.1 c'.2.1 ∧ c'.2.2 = c.2.2) g.scope g'.scope

theorem optionRel_mono {α β : Type} {R S : α → β → Prop} {a : Option α} {b : Option β}
    (h : Option.Rel R a b) (hRS : ∀ x y, R x y → S x y) : Option.Rel S a b := by
  cases h with
  | none => exact .none
  | some h => exact .some (hRS _ _ h)

theorem optionRel_map {α β γ δ : Type} {R : α → β → Prop} {S : γ → δ → Prop} {f : α → γ} {g : β → δ}
    {a : Option α} {b : Option β} (h : Option.Rel R a b) (hRS : ∀ x y, R x y → S (f x) (g y)) :
    Option.Rel S (a.map f) (b.map g) := by
  cases h with
  | none => exact .none
  | some h => exact .some (hRS _ _ h)

theorem find?_linked {α β : Type} {R : α → β → Prop} {xs : List α} {ys : List β}
    (h : List.Forall₂ R xs ys) {p : α → Bool} {q : β → Bool} (hpq : ∀ x y, R x y → q y = p x) :
    Option.Rel R (xs.find? p) (ys.find? q) := by
  induction h with
  | nil => exact .none
  | @cons x y _ _ hxy _ ih =>
    rw [List.find?_cons, List.find?_cons, hpq x y hxy]
    split
    · exact .some hxy
    · exact ih

theorem any_linked {α β : Type} {R : α → β → Prop} {xs : List α} {ys : List β}
    (h : List.Forall₂ R xs ys) {p : α → Bool} {q : β → Bool} (hpq : ∀ x y, R x y → q y = p x) :
    ys.any q = xs.any p := by
  induction h with
  | nil => rfl
  | @cons x y _ _ hxy _ ih => rw [List.any_cons, List.any_cons, hpq x y hxy, ih]

theorem all_linked {α β : Type} {R : α → β → Prop} {xs : List α} {ys : List β}
    (h : List.Forall₂ R xs ys) {p : α → Bool} {q : β → Bool} (hpq : ∀ x y, R x y → q y = p x) :
    ys.all q = xs.all p := by
  induction h with
  | nil => rfl
  | @cons x y _ _ hxy _ ih => rw [List.all_cons, List.all_cons, hpq x y hxy, ih]

theorem Gist.Linked.mono {g g' : Gist} (hPQ : ∀ x y, P x y → Q x y) (h : g.Linked P g') :
    g.Linked Q g' where
  jumps := optionRel_mono h.jumps fun _ _ => .imp hPQ
  place := h.place
  scope := optionRel_mono h.scope fun _ _ hc => ⟨hc.1, hc.2.1.imp fun _ _ => .mono hPQ, hc.2.2⟩

/-! ### Names -/

/-- A name is still known for what it was when others come in. -/
theorem Names.lookup_push_of_ne (names : Names) {name other : String} (id : NodeId)
    (h : name ≠ other) : (names ++ [(name, id)]).lookup other = names.lookup other := by
  have hne : (other == name) = false := by simpa using Ne.symm h
  rw [List.lookup_append, List.lookup_cons, hne]
  exact Option.or_none

/-- The same names for nodes that belong together. -/
def Names.Linked (P : NodeId → NodeId → Prop) (names names' : Names) : Prop :=
  List.Forall₂ (fun x x' => x'.1 = x.1 ∧ P x.2 x'.2) names names'

namespace Names.Linked

variable {names names' : Names}

theorem mono (hPQ : ∀ x y, P x y → Q x y) (h : Names.Linked P names names') :
    Names.Linked Q names names' :=
  h.imp fun _ _ hx => ⟨hx.1, hPQ _ _ hx.2⟩

/-- A name is known to both, and then for nodes that belong together, or to none. -/
theorem lookup (h : Names.Linked P names names') (name : String) :
    Option.Rel P (names.lookup name) (names'.lookup name) := by
  induction h with
  | nil => exact .none
  | @cons x x' rest rest' hx _ ih =>
    rcases x with ⟨k, i⟩
    rcases x' with ⟨k', j⟩
    obtain ⟨rfl, hij⟩ : k' = k ∧ P i j := hx
    rw [List.lookup_cons, List.lookup_cons]
    split
    · exact .some hij
    · exact ih

theorem add (h : Names.Linked P names names') (name : String) {i j : NodeId} (hij : P i j) :
    Names.Linked P (names ++ [(name, i)]) (names' ++ [(name, j)]) :=
  List.rel_append h (.cons ⟨rfl, hij⟩ .nil)

end Names.Linked

/-! ### Trackers -/

structure Facts.Linked (P : NodeId → NodeId → Prop) (facts facts' : Facts) : Prop where
  returns : facts'.returns = facts.returns
  jump : Option.Rel (ConstantJump.Linked P) facts.constantJump facts'.constantJump

/-- Trackers of scopes that belong together, with the same segments. -/
structure Tracker.Linked (P : NodeId → NodeId → Prop) (tr tr' : Tracker) : Prop where
  scopeId : tr'.scopeId = tr.scopeId
  singleStatement : tr'.singleStatement = tr.singleStatement
  statements : List.Forall₂ P tr.statements tr'.statements
  returns : tr'.returnPath.isSome = tr.returnPath.isSome
  current : (tr.current = none ∧ tr'.current = none) ∨ ∃ s s', tr.current = some s
    ∧ tr'.current = some s' ∧ s'.segment.reason = s.segment.reason ∧ s'.resumesAt = s.resumesAt
  closed : tr'.closed.map (·.reason) = tr.closed.map (·.reason)
  jumps : List.Forall₂ (ConstantJump.Linked P) tr.constantJumps tr'.constantJumps

namespace Tracker.Linked

variable {tr tr' : Tracker}

theorem mono (hPQ : ∀ x y, P x y → Q x y) (h : tr.Linked P tr') : tr.Linked Q tr' :=
  { h with
    statements := h.statements.imp hPQ
    jumps := h.jumps.imp fun _ _ => .mono hPQ }

theorem nextIndex (h : tr.Linked P tr') : tr'.nextIndex = tr.nextIndex := h.statements.length_eq.symm

theorem resumesAt (h : tr.Linked P tr') : tr'.resumesAt = tr.resumesAt := by
  obtain ⟨hn, hn'⟩ | ⟨s, s', hs, hs', -, hplace⟩ := h.current
  · simp [Tracker.resumesAt, hn, hn']
  · simp [Tracker.resumesAt, hs, hs', hplace]

theorem close (h : tr.Linked P tr') : tr.close.Linked P tr'.close := by
  obtain ⟨hn, hn'⟩ | ⟨s, s', hs, hs', hreason, -⟩ := h.current
  · simpa [Tracker.close, hn, hn'] using h
  · simp only [Tracker.close, hs, hs']
    exact { h with
      current := .inl ⟨rfl, rfl⟩
      closed := by simp only [List.map_append, List.map_cons, List.map_nil, h.closed, hreason] }

theorem onlyAfterReturn (h : tr.Linked P tr') : tr'.onlyAfterReturn = tr.onlyAfterReturn := by
  unfold Tracker.onlyAfterReturn hasReturnPath
  rw [h.returns, h.singleStatement]
  obtain ⟨hn, hn'⟩ | ⟨s, s', hs, hs', hreason, -⟩ := h.current
  · rw [hn, hn']
  · simp only [hs, hs', hreason]

theorem revive (h : tr.Linked P tr') : tr.revive.Linked P tr'.revive := { h.close with returns := rfl }

theorem openSegment (h : tr.Linked P tr') (reason : Reach) (place : Option Nat) (span span' : Span) :
    (tr.openSegment reason place span).Linked P (tr'.openSegment reason place span') :=
  { h with current := .inr ⟨_, _, rfl, rfl, rfl, rfl⟩ }

theorem blockedBy (h : tr.Linked P tr') (index : Nat) :
    tr'.constantJumps.findSome? (Tracker.blockedBy tr'.scopeId index)
      = tr.constantJumps.findSome? (Tracker.blockedBy tr.scopeId index) := by
  rw [h.scopeId]
  have hjumps := h.jumps
  generalize tr.constantJumps = jumps at hjumps
  generalize tr'.constantJumps = jumps' at hjumps
  induction hjumps with
  | nil => rfl
  | cons hj _ ih =>
    rw [List.findSome?_cons, List.findSome?_cons, ih]
    simp only [Tracker.blockedBy, hj.jumpIndex, hj.targetScope, hj.targetIndex]

theorem openAfterJump (h : tr.Linked P tr') (index : Nat) (span span' : Span) :
    (tr.openAfterJump index span).Linked P (tr'.openAfterJump index span') := by
  unfold Tracker.openAfterJump
  rw [h.blockedBy index]
  obtain ⟨hn, hn'⟩ | ⟨s, s', hs, hs', -⟩ := h.current
  · rw [hn, hn']
    rcases tr.constantJumps.findSome? (Tracker.blockedBy tr.scopeId index) with _ | ⟨reason, place⟩
    · exact h
    · exact h.openSegment reason place span span'
  · rw [hs, hs']
    exact h

theorem current_isNone (h : tr.Linked P tr') : tr'.current.isNone = tr.current.isNone := by
  obtain ⟨hn, hn'⟩ | ⟨s, s', hs, hs', -⟩ := h.current
  · rw [hn, hn']
  · rw [hs, hs']
    rfl

theorem returnPath_isNone (h : tr.Linked P tr') :
    tr'.returnPath.isNone = tr.returnPath.isNone := by
  rw [← Option.not_isSome, h.returns, Option.not_isSome]

theorem noteReturn (h : tr.Linked P tr') (id id' : NodeId) (returns : Bool) (span span' : Span) :
    (tr.noteReturn id returns span).Linked P (tr'.noteReturn id' returns span') := by
  have hlatest : (tr'.resumesAt.isSome || tr'.singleStatement)
      = (tr.resumesAt.isSome || tr.singleStatement) := by rw [h.resumesAt, h.singleStatement]
  unfold Tracker.noteReturn
  rw [hlatest, h.returns, h.current_isNone, h.returnPath_isNone]
  split
  · exact { h with returns := by cases returns <;> rfl }
  · split
    · exact { h with returns := rfl }
    · split
      · exact h.openSegment _ _ span span'
      · exact h

theorem arrive (h : tr.Linked P tr') (index : Nat) : (tr.arrive index).Linked P (tr'.arrive index) := by
  unfold Tracker.arrive
  rw [h.resumesAt]
  split
  · split
    · exact h.close
    · exact h
  · exact h

theorem extend (h : tr.Linked P tr') (id id' : NodeId) (span span' : Span) :
    (tr.extend id span).Linked P (tr'.extend id' span') := by
  refine { h with current := ?_ }
  obtain ⟨hn, hn'⟩ | ⟨s, s', hs, hs', hreason, hplace⟩ := h.current
  · exact .inl ⟨congrArg (Option.map _) hn, congrArg (Option.map _) hn'⟩
  · exact .inr ⟨_, _, congrArg (Option.map _) hs, congrArg (Option.map _) hs', hreason, hplace⟩

theorem reach (h : tr.Linked P tr') : tr'.reach = tr.reach := by
  obtain ⟨hn, hn'⟩ | ⟨s, s', hs, hs', hreason, -⟩ := h.current
  · simp [Tracker.reach, hn, hn']
  · simp [Tracker.reach, hs, hs', hreason]

/-- **Statements that belong together are classified alike.** -/
theorem classify (h : tr.Linked P tr') {id id' : NodeId} (hid : P id id') (span span' : Span)
    (returns reached : Bool) :
    (tr.classify id span returns reached).1.Linked P (tr'.classify id' span' returns reached).1
      ∧ (tr'.classify id' span' returns reached).2 = (tr.classify id span returns reached).2 := by
  have happended : Tracker.Linked P { tr with statements := tr.statements ++ [id] }
      { tr' with statements := tr'.statements ++ [id'] } :=
    { h with statements := List.rel_append h.statements (.cons hid .nil) }
  have hrest : ∀ {c c' : Tracker}, c.Linked P c' →
      Tracker.Linked P (((c.openAfterJump tr.nextIndex span).noteReturn id returns span).arrive
          tr.nextIndex |>.extend id span)
        (((c'.openAfterJump tr.nextIndex span').noteReturn id' returns span').arrive
          tr.nextIndex |>.extend id' span') := fun hc =>
    (((hc.openAfterJump _ span span').noteReturn id id' returns span span').arrive _).extend id id'
      span span'
  simp only [Tracker.classify, h.nextIndex, happended.onlyAfterReturn]
  split
  · exact ⟨hrest happended.revive, (hrest happended.revive).reach⟩
  · exact ⟨hrest happended, (hrest happended).reach⟩

theorem record (h : tr.Linked P tr') {jump jump' : Option ConstantJump}
    (hj : Option.Rel (ConstantJump.Linked P) jump jump') :
    (tr.record jump).Linked P (tr'.record jump') := by
  cases hj with
  | none => simpa [Tracker.record] using h
  | some hj => exact { h with jumps := List.rel_append h.jumps (.cons hj .nil) }

/-- The reasons for which there are segments are the same. -/
theorem mem_reasons (h : tr.Linked P tr') (reason : Reach) :
    (∃ s ∈ tr'.segments, s.reason = reason) ↔ ∃ s ∈ tr.segments, s.reason = reason := by
  simp only [Tracker.segments, List.mem_mergeSort]
  rw [← List.mem_map, ← List.mem_map, h.close.closed]

end Tracker.Linked

end Lsl
