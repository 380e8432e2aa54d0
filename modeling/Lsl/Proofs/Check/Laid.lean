/- # What is known of a scope

The statements of a scope know their places and whether they are live. What the
scope says about itself, that it returns and where it jumps, it says because of
its statements. And where control can go on from a live statement to the next
one, the next one is live.

All this is settled statement by statement while the scope is open, and nothing
that happens later touches it.

Key definitions: `Tree.Laid`, `Tree.Tracked`, `Tree.Closed`.
Key theorems: `Tree.Laid.grows`, `Tree.Tracked.append`, `Acts.laid`.
-/
import Lsl.Proofs.Check.LabelJumps
import Lsl.Proofs.Reachability.Jumps

namespace Lsl

variable {script : Script} {library : Catalog} {t t' : Tree} {P N : Nat → Prop} {i : Nat}

namespace Tree

/-- No jump to `label` in the statement `a` is live throughout. -/
def Unreached (t : Tree) (label a : NodeId) : Prop :=
  ∀ j, t.Within j a → t.Jumps j label → ∃ b, t.Within j b ∧ t.Within b a ∧ t.isLive b = false

/-- What is known of the statements of a scope and of its jumps. -/
structure Laid (t : Tree) (c : CodeScope) : Prop where
  placed : ∀ i s, c.statements[i]? = some s → ∃ info, t.place? s = some info ∧ info.index = i
    ∧ info.scopeId = c.scopeId ∧ (info.returnPath.isSome = true → t.Returns s)
  performed : ∀ j ∈ c.constantJumps, t.Aims j
    ∧ ∃ s, c.statements[j.jumpIndex]? = some s ∧ t.Performs s j
  first : ∀ s, c.statements[0]? = some s → t.isLive s = true
  next : ∀ i s s', c.statements[i]? = some s → c.statements[i + 1]? = some s' → t.Passes s →
    (∀ j ∈ c.constantJumps, j.jumpIndex ≠ i) → t.isLive s' = true
  /-- A statement is dead because of a jump above it, or because of a return; a
  label is not, if a live jump further up leads to it. -/
  reason : ∀ k s info, c.statements[k]? = some s → t.place? s = some info → info.dead = .live
    ∨ (∃ j ∈ c.constantJumps, j.jumpIndex < k ∧ ∃ place,
      Tracker.blockedBy c.scopeId k j = some (info.dead, place))
    ∨ (info.dead = .afterReturn ∧ ∀ i a, i < k → c.statements[i]? = some a → t.Unreached s a)

/-- What is known of a scope that is still open. -/
structure Tracked (t : Tree) (tr : Tracker) : Prop where
  follows : tr.Follows
  laid : ∀ kind, t.Laid (tr.scope kind)
  latest : ∀ s, tr.statements.getLast? = some s → ∃ info, t.place? s = some info
    ∧ info.dead = tr.flow.reach
    ∧ (tr.flow.open? = none → info.returnPath.isSome = tr.flow.returns)

/-- What is known of a scope in the end: where control falls off its end, the
scope neither returns nor jumps out of itself. -/
structure Closed (t : Tree) (c : CodeScope) : Prop extends t.Laid c where
  last : ∀ s, c.statements.getLast? = some s → t.Passes s →
    (∀ j ∈ c.constantJumps, j.jumpIndex + 1 ≠ c.statements.length) →
    c.returnPath = none ∧ ∀ j ∈ c.constantJumps, j.targetScope = c.scopeId
  empty : c.statements = [] → c.returnPath = none ∧ c.constantJumps = []

/-! ### What is settled stays so -/

section Grows

variable (hg : t.Grows P t') (ha : t.Adopts N t')

/-- A statement that neither gets a place nor adopts anything. -/
def Fixed (P N : Nat → Prop) (t : Tree) (s : NodeId) : Prop := t.Has s ∧ ¬ P s ∧ ¬ N s

include hg ha

theorem Unreached.grows {label a : Nat} (h : t.Unreached label a) (hs : t.Fixed P N a)
    (hroot : ∀ c q, t.parent? c = some q → ¬ P c) : t'.Unreached label a := by
  intro j hj hjump
  have hj' := hj.of_adopts ha hs.2.2
  obtain ⟨b, hjb, hba, hdead⟩ := h j hj' (hjump.of_grows hg (hj'.has hs.1))
  have hb : ¬ P b := by
    rcases Relation.ReflTransGen.cases_head hba with rfl | ⟨q, hq, -⟩
    · exact hs.2.1
    · exact hroot b q hq
  exact ⟨b, hjb.adopts ha, hba.adopts ha, by rw [hg.isLive (hba.has hs.1) hb, hdead]⟩

omit ha in
theorem Passes.of_grows {s : Nat} (h : t'.Passes s) (hs : t.Fixed P N s) : t.Passes s := by
  obtain ⟨info, hp, hrest⟩ := h
  exact ⟨info, by rw [← hg.place? hs.1 hs.2.1, hp], hrest⟩

theorem Laid.grows {c : CodeScope} (h : t.Laid c) (hs : ∀ s ∈ c.statements, t.Fixed P N s)
    (hroot : ∀ c q, t.parent? c = some q → ¬ P c) : t'.Laid c where
  placed i s hi := by
    obtain ⟨info, hp, hindex, hscope, hret⟩ := h.placed i s hi
    have hs := hs s (List.mem_of_getElem? hi)
    exact ⟨info, by rw [hg.place? hs.1 hs.2.1, hp], hindex, hscope, fun hr => (hret hr).grows hg⟩
  performed j hj := by
    obtain ⟨haims, s, hi, hperf⟩ := h.performed j hj
    exact ⟨LabelIn.grows haims hg, s, hi, hperf.grows hg⟩
  first s hi := by
    have hs := hs s (List.mem_of_getElem? hi)
    rw [hg.isLive hs.1 hs.2.1]
    exact h.first s hi
  next i s s' hi hi' hpass hj := by
    have hs' := hs s' (List.mem_of_getElem? hi')
    rw [hg.isLive hs'.1 hs'.2.1]
    exact h.next i s s' hi hi' (hpass.of_grows hg (hs s (List.mem_of_getElem? hi))) hj
  reason k s info hk hp := by
    have hs' := hs s (List.mem_of_getElem? hk)
    rw [hg.place? hs'.1 hs'.2.1] at hp
    rcases h.reason k s info hk hp with hlive | hblock | ⟨hret, hun⟩
    · exact .inl hlive
    · exact .inr (.inl hblock)
    · exact .inr (.inr ⟨hret, fun i a hik hi =>
        (hun i a hik hi).grows hg ha (hs a (List.mem_of_getElem? hi)) hroot⟩)

theorem Tracked.grows {tr : Tracker} (h : t.Tracked tr)
    (hs : ∀ s ∈ tr.statements, t.Fixed P N s)
    (hroot : ∀ c q, t.parent? c = some q → ¬ P c) : t'.Tracked tr where
  follows := h.follows
  laid kind := (h.laid kind).grows hg ha hs hroot
  latest s hl := by
    obtain ⟨info, hp, hrest⟩ := h.latest s hl
    have hs := hs s (List.mem_of_getLast? hl)
    exact ⟨info, by rw [hg.place? hs.1 hs.2.1, hp], hrest⟩

theorem Closed.grows {c : CodeScope} (h : t.Closed c) (hs : ∀ s ∈ c.statements, t.Fixed P N s)
    (hroot : ∀ c q, t.parent? c = some q → ¬ P c) : t'.Closed c where
  toLaid := h.toLaid.grows hg ha hs hroot
  last s hl hpass := h.last s hl (hpass.of_grows hg (hs s (List.mem_of_getLast? hl)))
  empty := h.empty

end Grows

/-- A new scope has no statements yet. -/
theorem Tracked.empty (scopeId : Nat) (singleStatement : Bool) :
    t.Tracked { scopeId, singleStatement } where
  follows := .empty scopeId singleStatement
  laid kind := by constructor <;> simp [Tracker.scope]
  latest s hl := by simp at hl

/-- Where control may go on behind the latest statement, no segment is open. -/
theorem Tracked.flow_of_passes {tr : Tracker} {a : NodeId} (h : t.Tracked tr)
    (hl : tr.statements.getLast? = some a) (hpass : t.Passes a) : tr.flow = ⟨none, false⟩ := by
  obtain ⟨info, hp, hdead, hret⟩ := h.latest a hl
  obtain ⟨info', hp', hlive, hnone⟩ := hpass
  obtain rfl := Option.some.inj (hp.symm.trans hp')
  rcases hflow : tr.flow with ⟨op, ret⟩
  have hopen : op = none := by
    rcases op with _ | ⟨r, place⟩
    · rfl
    · rw [hlive, hflow] at hdead
      obtain rfl : Reach.live = r := hdead
      exact absurd (by rw [hflow]) (h.follows.dead place)
  have := hret (by rw [hflow, hopen])
  rw [hnone, hflow] at this
  rw [hopen, ← show _ = ret from this]
  rfl

/-- A statement of a list with one more at its end. -/
theorem getElem?_concat {l : List NodeId} {x s : NodeId} {i : Nat}
    (h : (l ++ [x])[i]? = some s) : l[i]? = some s ∨ (i = l.length ∧ s = x) := by
  rcases Nat.lt_trichotomy i l.length with hi | rfl | hi
  · rw [List.getElem?_append_left hi] at h
    exact .inl h
  · rw [List.getElem?_concat_length] at h
    exact .inr ⟨rfl, (Option.some.inj h).symm⟩
  · rw [List.getElem?_eq_none (by simp; omega)] at h
    cases h

theorem getElem?_concat_of_some {l : List NodeId} {x s : NodeId} {i : Nat} (h : l[i]? = some s) :
    (l ++ [x])[i]? = some s := by
  rw [List.getElem?_append_left (List.getElem?_eq_some_iff.mp h).1, h]

section Append

variable {id : NodeId} {tr tr' : Tracker} {reach : Reach} {s : StmtNode}

/-- A label that no live jump leads to is unreached from further up. -/
theorem unreached_of_not_reached {label a : NodeId} (h : t.reachedByLiveJump label = false)
    (hnotes : t.Notes label) (ha : t.parent? a = none) : t.Unreached label a := by
  intro j hj hjump
  obtain ⟨name, jumps, info, hl, hmem⟩ := hnotes j hjump
  unfold reachedByLiveJump at h
  rw [hl] at h
  simp only [List.any_eq_false, Bool.not_eq_true, List.all_eq_false] at h
  obtain ⟨b, hb, hdead⟩ := h j hmem
  have hjb : t.Within j b := by
    rcases List.mem_cons.mp hb with rfl | hb
    · exact .refl _
    · exact within_of_mem_ancestors hb
  exact ⟨b, hjb, hj.of_root ha hjb, by simpa using hdead⟩

/-- What it takes to append a statement, and what comes of it. -/
structure Appends (t : Tree) (tr : Tracker) (id : NodeId) (t' : Tree) (tr' : Tracker)
    (reach : Reach) : Prop where
  grows : t.Grows (· = id) t'
  adopts : t.Adopts (fun _ => False) t'
  moves : tr.Moves (t.facts id tr.nextIndex).returns (t.reachedByLiveJump id)
    ((t.facts id tr.nextIndex).jumpOf reach) tr'
  classified : reach = tr'.flow.reach
  statements : tr'.statements = tr.statements ++ [id]
  place : t'.place? id
    = some { placeInfo tr id (t.facts id tr.nextIndex) reach with isLast := false }
  returns : (t.facts id tr.nextIndex).returns = true → t'.Returns id
  performs : ∀ j, (t.facts id tr.nextIndex).constantJump = some j →
    t'.Performs id j ∧ t'.Aims j ∧ j.jumpIndex = tr.nextIndex
  notes : t.Notes id
  root : t.parent? id = none
  others : ∀ a ∈ tr.statements, t.Has a ∧ t.parent? a = none ∧ a ≠ id

theorem appends_of_append (h : tr.Follows)
    (happ : t.append tr id (t.facts id tr.nextIndex) = ⟨t', tr', .ok reach⟩)
    (hs : t.stmt? id = some s) (hf : t.FormedStmt script s.kind)
    (hlabel : s.kind.isLabel = true → s.info.scopeId = tr.scopeId ∧ s.info.index = tr.nextIndex)
    (haims : ∀ x c, t.scope? x = some c → ∀ j ∈ c.constantJumps, t.Aims j)
    (hnotes : t.Notes id) (hroot : t.parent? id = none)
    (hothers : ∀ a ∈ tr.statements, t.Has a ∧ t.parent? a = none ∧ a ≠ id) :
    t.Appends tr id t' tr' reach := by
  have hg := grows_append happ hs hlabel
  have hfacts := fun j (hj : (t.facts id tr.nextIndex).constantJump = some j) =>
    performs_of_facts hs hf haims hj
  obtain ⟨hmoves, hreach⟩ := moves_append happ (fun j hj => (hfacts j hj).2.2) h
  exact {
    grows := hg
    adopts := (retains_append happ hs hlabel).adopts
    moves := hmoves
    classified := hreach
    statements := statements_append happ
    place := place?_append happ
    returns := fun hret => (returns_of_facts hs hf hret).grows hg
    performs := fun j hj =>
      ⟨(hfacts j hj).1.grows hg, LabelIn.grows (hfacts j hj).2.1 hg, (hfacts j hj).2.2⟩
    notes := hnotes
    root := hroot
    others := hothers }

namespace Appends

variable (ha : t.Appends tr id t' tr' reach)
include ha

theorem fixed : ∀ a ∈ tr.statements, t.Fixed (· = id) (fun _ => False) a :=
  fun a hmem => ⟨(ha.others a hmem).1, (ha.others a hmem).2.2, fun hf => hf⟩

theorem not_child (c q : Nat) (hq : t.parent? c = some q) : ¬ c = id := by
  rintro rfl
  simp [ha.root] at hq

theorem tracked (h : t.Tracked tr) : t'.Tracked tr :=
  h.grows ha.grows ha.adopts ha.fixed ha.not_child

theorem jumps : tr.constantJumps ⊆ tr'.constantJumps := by
  rw [ha.moves.jumps]
  exact List.subset_append_left _ _

/-- The statement is live where no segment is open behind it. -/
theorem isLive_iff (h : tr'.Follows) : t'.isLive id = true ↔ tr'.flow.open? = none := by
  rw [isLive_of_place? ha.place, show (placeInfo tr id _ reach).dead = reach from rfl, ha.classified,
    Flow.reach]
  rcases hopen : tr'.flow.open? with _ | ⟨r, place⟩
  · simp
  · simp only [Option.map_some, Option.getD_some, reduceCtorEq, iff_false]
    rintro rfl
    exact h.dead place hopen

/-- Where control can go on from the statement before, the new one is live. -/
theorem next (h : t.Tracked tr) {i : Nat} {a b : NodeId} (hi : tr'.statements[i]? = some a)
    (hi' : tr'.statements[i + 1]? = some b) (hpass : t'.Passes a)
    (hj : ∀ j ∈ tr'.constantJumps, j.jumpIndex ≠ i) : t'.isLive b = true := by
  have hj' : ∀ j ∈ tr.constantJumps, j.jumpIndex ≠ i := fun j hmem => hj j (ha.jumps hmem)
  rw [ha.statements] at hi hi'
  have hold : tr.statements[i]? = some a := by
    refine (getElem?_concat hi).resolve_right fun hlast => ?_
    rw [List.getElem?_eq_none (by simp [hlast.1])] at hi'
    cases hi'
  rcases getElem?_concat hi' with hi' | ⟨hlast, rfl⟩
  · exact ((ha.tracked h).laid .eventBody).next i a b hold hi' hpass hj'
  · have hlatest : tr.statements.getLast? = some a := by
      rw [List.getLast?_eq_getElem?, ← hold, ← hlast]
      rfl
    refine (ha.isLive_iff (h.follows.append ha.moves)).mpr
      (h.follows.live_next ha.moves ((ha.tracked h).flow_of_passes hlatest hpass) fun j hmem => ?_)
    have := hj' j hmem
    rw [show tr.nextIndex = i + 1 from hlast.symm]
    omega

/-- Why the new statement is dead, if it is. -/
theorem reason_self (h : t.Tracked tr) : reach = .live
    ∨ (∃ j ∈ tr.constantJumps, j.jumpIndex < tr.nextIndex ∧ ∃ place,
      Tracker.blockedBy tr.scopeId tr.nextIndex j = some (reach, place))
    ∨ (reach = .afterReturn ∧ ∀ b ∈ tr.statements, t'.Unreached id b) := by
  have hr := ha.classified
  rw [Flow.reach] at hr
  rcases hopen : tr'.flow.open? with _ | ⟨r, place⟩
  · rw [hopen] at hr
    exact .inl hr
  · rw [hopen] at hr
    obtain rfl : reach = r := hr
    rcases h.follows.reason_of_dead ha.moves hopen with ⟨hret, hreached⟩ | ⟨j, hj, hblock⟩
    · refine .inr (.inr ⟨hret, fun b hb => ?_⟩)
      exact (unreached_of_not_reached hreached ha.notes (ha.others b hb).2.1).grows ha.grows
        ha.adopts (ha.fixed b hb) ha.not_child
    · exact .inr (.inl ⟨j, hj, h.follows.earlier j hj, place, hblock⟩)

theorem laid (h : t.Tracked tr) (kind : ScopeKind) : t'.Laid (tr'.scope kind) := by
  have hlaid := (ha.tracked h).laid kind
  constructor <;> simp only [Tracker.scope, ha.moves.scopeId]
  case placed =>
    intro i a hi
    rw [ha.statements] at hi
    rcases getElem?_concat hi with hi | ⟨rfl, rfl⟩
    · exact hlaid.placed i a hi
    · refine ⟨_, ha.place, rfl, rfl, fun hret => ha.returns ?_⟩
      by_contra hno
      simp [placeInfo, hno] at hret
  case performed =>
    intro j hj
    rw [ha.statements]
    rw [ha.moves.jumps] at hj
    rcases List.mem_append.mp hj with hj | hj
    · obtain ⟨haim, a, hi, hperf⟩ := hlaid.performed j hj
      exact ⟨haim, a, getElem?_concat_of_some hi, hperf⟩
    · have hj' : (t.facts id tr.nextIndex).constantJump = some j := by
        have hmem := Option.mem_toList.mp hj
        unfold Facts.jumpOf at hmem
        split at hmem
        · cases hmem
        · exact hmem
      obtain ⟨hperf, haim, hindex⟩ := ha.performs j hj'
      refine ⟨haim, id, ?_, hperf⟩
      rw [hindex]
      exact List.getElem?_concat_length
  case first =>
    intro a hi
    rw [ha.statements] at hi
    rcases getElem?_concat hi with hi | ⟨hzero, rfl⟩
    · exact hlaid.first a hi
    · have hempty := List.eq_nil_of_length_eq_zero hzero.symm
      exact (ha.isLive_iff (h.follows.append ha.moves)).mpr (h.follows.live_first ha.moves hempty)
  case next => exact fun i a b hi hi' hpass hj => ha.next h hi hi' hpass hj
  case reason =>
    intro k a info hk hp
    rw [ha.statements] at hk ⊢
    rcases getElem?_concat hk with hk | ⟨rfl, rfl⟩
    · have hlt := (List.getElem?_eq_some_iff.mp hk).1
      rcases hlaid.reason k a info hk hp with hlive | ⟨j, hj, hblock⟩ | ⟨hret, hun⟩
      · exact .inl hlive
      · exact .inr (.inl ⟨j, ha.jumps hj, hblock⟩)
      · refine .inr (.inr ⟨hret, fun i b hik hi => hun i b hik ?_⟩)
        rw [List.getElem?_append_left (Nat.lt_trans hik hlt)] at hi
        exact hi
    · obtain rfl := Option.some.inj (ha.place.symm.trans hp)
      rcases ha.reason_self h with hlive | ⟨j, hj, hblock⟩ | ⟨hret, hun⟩
      · exact .inl hlive
      · exact .inr (.inl ⟨j, ha.jumps hj, hblock⟩)
      · refine .inr (.inr ⟨hret, fun i b hik hi => hun b ?_⟩)
        rw [List.getElem?_append_left hik] at hi
        exact List.mem_of_getElem? hi

end Appends

/-- **One more statement.** What is known of the scope tells whether it is live,
and what it does is known from then on. -/
theorem Tracked.append (h : t.Tracked tr) (ha : t.Appends tr id t' tr' reach) : t'.Tracked tr' where
  follows := h.follows.append ha.moves
  laid := ha.laid h
  latest a hl := by
    rw [ha.statements, List.getLast?_concat] at hl
    obtain rfl := Option.some.inj hl
    refine ⟨_, ha.place, ha.classified, fun hopen => ?_⟩
    rw [ha.moves.flow_of_live hopen]
    cases hret : (t.facts id tr.nextIndex).returns <;> simp [placeInfo, hret]

end Append

/-- A scope of which no statement is missing. -/
theorem Tracked.closed {tr : Tracker} (h : t.Tracked tr) (kind : ScopeKind) :
    t.Closed (tr.scope kind) where
  toLaid := h.laid kind
  last s hl hpass hj := by
    have hflow := h.flow_of_passes hl hpass
    refine ⟨?_, h.follows.stays (by rw [hflow]) hj⟩
    simpa [Tracker.scope, Tracker.flow, Tracker.hasReturnPath] using congrArg Flow.returns hflow
  empty he := by
    have hflow := h.follows.fresh he
    have hreturns := congrArg Flow.returns hflow
    refine ⟨by simpa [Tracker.scope, Tracker.flow, Tracker.hasReturnPath] using hreturns, ?_⟩
    refine List.eq_nil_iff_forall_not_mem.mpr fun j hj => ?_
    have := h.follows.earlier j hj
    rw [Tracker.nextIndex, show tr.statements = [] from he] at this
    exact Nat.not_lt_zero _ this

end Tree

/-! ### Scopes along a run -/

variable {p p' : Progress}

/-- The statements of an open scope are neither loose nor labels to come. -/
theorem Progress.apart (h : p.roots.Nodup) {l : Level} (hl : l ∈ p.stack) {s : NodeId}
    (hs : s ∈ l.tracker.statements) : s ∉ p.loose ∧ s ∉ p.run.labels := by
  obtain ⟨hleft, -, hlabels⟩ := List.nodup_append.mp h
  obtain ⟨-, -, hloose⟩ := List.nodup_append.mp hleft
  have hmem : s ∈ p.stack.flatMap fun l => l.tracker.statements ++ l.aside :=
    List.mem_flatMap.mpr ⟨l, hl, List.mem_append_left _ hs⟩
  exact ⟨fun hlo => hloose s hlo s hmem rfl,
    fun hla => hlabels s (List.mem_append_right _ hmem) s hla rfl⟩

/-- What is known of all scopes, open or closed. -/
structure Progress.Laid (p : Progress) : Prop where
  opened : ∀ l ∈ p.stack, p.run.tree.Tracked l.tracker
  closed : ∀ x c, p.run.tree.scope? x = some c → p.run.tree.Closed c

section Act

variable (hact : Act script library p p') (hs : p.run.tree.Shaped script library p.roots)
  (hs' : p'.run.tree.Shaped script library p'.roots)
include hact hs hs'

theorem Act.fixed_of_closed {x : NodeId} {c : CodeScope} (hc : p.run.tree.scope? x = some c) :
    ∀ s ∈ c.statements,
      p.run.tree.Fixed (fun i => i ∈ p.loose ∨ i ∈ p.run.labels) (· ∈ p'.loose) s := by
  intro s hmem
  have hlink : p.run.tree.parent? s = some x := hs.links x s (by
    rw [Tree.children_of_kind? (Tree.scope?_eq_some.mp hc)]
    exact hmem)
  refine ⟨Tree.has_of_parent? hlink, fun hp => ?_, fun hn => ?_⟩
  · have hroot : s ∈ p.roots := hp.elim
      Progress.mem_roots_of_loose (List.mem_append_right _)
    simp [(hs.orphans s hroot).2] at hlink
  · have hkeep := (Act.adopts hs hact).keep s x hlink
    simp [(hs'.orphans s (Progress.mem_roots_of_loose hn)).2] at hkeep

omit hact in
/-- The statements of an open scope stay put as long as they stay in it. -/
theorem Act.fixed_of_open {l l' : Level} (hl : l ∈ p.stack) (hl' : l' ∈ p'.stack)
    (hsub : l.tracker.statements ⊆ l'.tracker.statements) : ∀ s ∈ l.tracker.statements,
      p.run.tree.Fixed (fun i => i ∈ p.loose ∨ i ∈ p.run.labels) (· ∈ p'.loose) s := by
  intro s hmem
  have hapart := Progress.apart hs.distinct hl hmem
  exact ⟨(hs.orphans s (Progress.mem_roots_of_statements hl hmem)).1, not_or.mpr hapart,
    (Progress.apart hs'.distinct hl' (hsub hmem)).1⟩

omit hact hs' in
theorem Act.not_child (c q : Nat) (hq : p.run.tree.parent? c = some q) :
    ¬ (c ∈ p.loose ∨ c ∈ p.run.labels) := by
  intro hp
  have hroot : c ∈ p.roots := hp.elim
    Progress.mem_roots_of_loose (List.mem_append_right _)
  simp [(hs.orphans c hroot).2] at hq

omit hs hs' in
/-- A scope was there before, or it is the innermost one, which is closed. -/
theorem Act.scope?_cases {x : NodeId} {c : CodeScope} (hc : p'.run.tree.scope? x = some c) :
    p.run.tree.scope? x = some c
      ∨ ∃ tr aside outer kind, p.stack = ⟨tr, aside⟩ :: outer ∧ c = tr.scope kind := by
  cases hact with
  | say | names | shuffle | openScope | enterBody => exact .inl hc
  | fault id => exact .inl ((Tree.retains_markError id).scope? hc)
  | reject dropped rest ns span hl hns hwhy =>
    rw [Tree.scope?_eq_some, Tree.kind?_allocError] at hc
    split at hc
    · cases hc
    · exact .inl (Tree.scope?_eq_some.mpr hc)
  | make kind rest span ns hl hnew hf hj hsort he hns =>
    have hc' := (Tree.retains_settle _ p.run.tree.size kind).scope? hc
    rw [Tree.scope?_eq_some, Tree.kind?_alloc] at hc'
    split at hc'
    · obtain rfl := Option.some.inj hc'
      exact absurd rfl hsort
    · exact .inl (Tree.scope?_eq_some.mpr hc')
  | append id s rest tr tr' aside outer t' reach hl hst hstmt hk happ =>
    exact .inl ((Tree.retains_append happ hstmt (by simp [hk])).scope? hc)
  | appendLabel id s rest tr tr' aside outer t' reach hl hst hstmt hk hscope hindex happ =>
    exact .inl ((Tree.retains_append happ hstmt fun _ => ⟨hscope, hindex⟩).scope? hc)
  | closeScope tr aside outer kind span hl hst hpending =>
    rw [Tree.scope?_eq_some, Tree.kind?_alloc] at hc
    split at hc
    · cases hc
      exact .inr ⟨tr, aside, outer, kind, hst, rfl⟩
    · exact .inl (Tree.scope?_eq_some.mpr hc)
  | fillFunction id f body c rest hl hid hopen hf hb hcallable hret =>
    rw [Tree.scope?_eq_some, Tree.kind?_fill _ (Tree.has_of_kind? hf)] at hc
    split at hc
    · cases hc
    · exact .inl (Tree.scope?_eq_some.mpr hc)
  | fillState id s handlers rest hl hid hopen hst hh =>
    rw [Tree.scope?_eq_some, Tree.kind?_fill _ (Tree.has_of_kind? hst)] at hc
    split at hc
    · cases hc
    · exact .inl (Tree.scope?_eq_some.mpr hc)

omit hact in
/-- The statements of the innermost scope stay put when it is closed. -/
theorem Act.fixed_of_closing {x : NodeId} {tr : Tracker} {aside : List NodeId} {kind : ScopeKind}
    (hl : ⟨tr, aside⟩ ∈ p.stack) (hc : p'.run.tree.scope? x = some (tr.scope kind)) :
    ∀ s ∈ tr.statements,
      p.run.tree.Fixed (fun i => i ∈ p.loose ∨ i ∈ p.run.labels) (· ∈ p'.loose) s := by
  intro s hmem
  refine ⟨(hs.orphans s (Progress.mem_roots_of_statements hl hmem)).1,
    not_or.mpr (Progress.apart hs.distinct hl hmem), fun hloose => ?_⟩
  have hlink := hs'.links x s (by
    rw [Tree.children_of_kind? (Tree.scope?_eq_some.mp hc)]
    exact hmem)
  simp [(hs'.orphans s (Progress.mem_roots_of_loose hloose)).2] at hlink

theorem Act.closed (h : p.Laid) (x : NodeId) (c : CodeScope)
    (hc : p'.run.tree.scope? x = some c) : p'.run.tree.Closed c := by
  have ha := Act.adopts hs hact
  rcases hact.scope?_cases hc with hold | ⟨tr, aside, outer, kind, hst, rfl⟩
  · exact (h.closed x c hold).grows hact.grows ha (hact.fixed_of_closed hs hs' hold)
      (Act.not_child hs)
  · have htop : (⟨tr, aside⟩ : Level) ∈ p.stack := hst ▸ List.mem_cons_self
    exact ((h.opened _ htop).closed kind).grows hact.grows ha
      (Act.fixed_of_closing hs hs' htop hc) (Act.not_child hs)

theorem Act.tracked_of_open (h : p.Laid) {l : Level} (hl : l ∈ p.stack) (hl' : l ∈ p'.stack) :
    p'.run.tree.Tracked l.tracker :=
  (h.opened l hl).grows hact.grows (Act.adopts hs hact)
    (Act.fixed_of_open hs hs' hl hl' (List.Subset.refl _)) (Act.not_child hs)

omit hact hs' in
/-- What it takes to append a statement is there. -/
theorem Act.appends (h : p.Laid) (hnotes : ∀ l, p.run.tree.Notes l) {id : NodeId}
    {s : StmtNode} {tr tr' : Tracker} {aside : List NodeId} {outer : List Level} {reach : Reach}
    (hst : p.stack = ⟨tr, aside⟩ :: outer) (hid : id ∈ p.loose ∨ id ∈ p.run.labels)
    (hstmt : p.run.tree.stmt? id = some s)
    (hlabel : s.kind.isLabel = true → s.info.scopeId = tr.scopeId ∧ s.info.index = tr.nextIndex)
    (happ : p.run.tree.append tr id (p.run.tree.facts id tr.nextIndex) = ⟨t', tr', .ok reach⟩) :
    p.run.tree.Appends tr id t' tr' reach := by
  have htop : (⟨tr, aside⟩ : Level) ∈ p.stack := hst ▸ List.mem_cons_self
  have hroot : id ∈ p.roots := hid.elim Progress.mem_roots_of_loose (List.mem_append_right _)
  refine Tree.appends_of_append (h.opened _ htop).follows happ hstmt
    (hs.formed id _ (Tree.stmt?_eq_some.mp hstmt)) hlabel
    (fun x c hc j hj => ((h.closed x c hc).performed j hj).1) (hnotes id)
    (hs.orphans id hroot).2 fun a ha => ?_
  obtain ⟨hhas, hp⟩ := hs.orphans a (Progress.mem_roots_of_statements htop ha)
  refine ⟨hhas, hp, fun he => ?_⟩
  have := Progress.apart hs.distinct htop ha
  exact hid.elim (he ▸ this.1) (he ▸ this.2)

theorem Act.opened (h : p.Laid) (hnotes : ∀ l, p.run.tree.Notes l) :
    ∀ l ∈ p'.stack, p'.run.tree.Tracked l.tracker := by
  have hold := fun (l : Level) hl hl' => hact.tracked_of_open hs hs' h (l := l) hl hl'
  cases hact with
  | openScope single =>
    intro l hl
    rcases List.mem_cons.mp hl with rfl | hmem
    · exact .empty _ single
    · exact hold l hmem hl
  | append id s rest tr tr' aside outer t' reach hl hst hstmt hk happ =>
    intro l hmem
    rcases List.mem_cons.mp hmem with rfl | hmem'
    · exact (h.opened _ (hst ▸ List.mem_cons_self)).append (Act.appends hs h hnotes hst
        (.inl (hl ▸ List.mem_cons_self)) hstmt (by simp [hk]) happ)
    · exact hold l (hst ▸ List.mem_cons_of_mem _ hmem') hmem
  | appendLabel id s rest tr tr' aside outer t' reach hl hst hstmt hk hscope hindex happ =>
    intro l hmem
    rcases List.mem_cons.mp hmem with rfl | hmem'
    · exact (h.opened _ (hst ▸ List.mem_cons_self)).append (Act.appends hs h hnotes hst
        (.inr (hl ▸ List.mem_cons_self)) hstmt (fun _ => ⟨hscope, hindex⟩) happ)
    · exact hold l (hst ▸ List.mem_cons_of_mem _ hmem') hmem
  | closeScope tr aside outer kind span hl hst hpending =>
    exact fun l hmem => hold l (hst ▸ List.mem_cons_of_mem _ hmem) hmem
  | _ => exact fun l hl => hold l hl hl

end Act

theorem Acts.laid (h : Acts script library {} p) : p.Laid := by
  induction h with
  | refl => exact ⟨by simp, fun x c hc => by simp [Tree.scope?, Tree.kind?, Tree.node?] at hc⟩
  | tail hacts hact ih =>
    have hs := Acts.shaped hacts
    have hs' := Acts.shaped (hacts.tail hact)
    exact ⟨hact.opened hs hs' ih (Acts.notes hacts), hact.closed hs hs' ih⟩

/-! ### Functions that return -/

/-- The body of a function that has a value returns. -/
def Tree.Answers (t : Tree) (f : FunctionNode) : Prop :=
  ∀ b ∈ f.body, f.returnType.isVoid = true ∨ ∃ c, t.scope? b = some c ∧ c.hasReturnPath = true

theorem Tree.Answers.grows {f f' : FunctionNode} (h : t.Answers f) (hg : t.Grows P t')
    (hbody : f'.body = f.body) (hty : f'.returnType = f.returnType) : t'.Answers f' := by
  intro b hb
  rw [hty]
  refine (h b (hbody ▸ hb)).imp_right ?_
  rintro ⟨c, hc, hret⟩
  exact ⟨c, hg.scope? hc, hret⟩

/-- A node that keeps its outline and its parts keeps its body. -/
theorem NodeKind.body_of_outline {k : NodeKind} {f : FunctionNode}
    (ho : outline (.function f) = k.outline) (hc : children (.function f) = k.children) :
    ∃ g, k = .function g ∧ f.body = g.body ∧ f.returnType = g.returnType := by
  obtain ⟨g, rfl, -, hty, hparams⟩ := NodeKind.eq_function_of_outline ho.symm
  refine ⟨g, rfl, ?_, hty.symm⟩
  simp only [NodeKind.children, hparams, List.append_cancel_left_eq] at hc
  cases hb : f.body <;> cases hb' : g.body <;> simp_all

theorem Tree.Retains.answers (hr : t.Retains t') (hg : t.Grows P t')
    (h : ∀ id f, t.function? id = some f → t.Answers f) (id : NodeId) (f : FunctionNode)
    (hf : t'.function? id = some f) : t'.Answers f := by
  obtain ⟨k, hk, ho, hc⟩ := hr.kind? (Tree.function?_eq_some.mp hf)
  obtain ⟨g, rfl, hbody, hty⟩ := NodeKind.body_of_outline ho hc
  exact (h id g (Tree.function?_eq_some.mpr hk)).grows hg hbody hty

theorem Act.answers (hact : Act script library p p')
    (hclean : ∀ m ∈ p'.run.notices, m.marks = false)
    (h : ∀ id f, p.run.tree.function? id = some f → p.run.tree.Answers f) :
    ∀ id f, p'.run.tree.function? id = some f → p'.run.tree.Answers f := by
  have hg := hact.grows
  -- the same function in a tree that has grown
  have hold : ∀ id f, p.run.tree.kind? id = some (.function f) → p'.run.tree.Answers f :=
    fun id f hf => (h id f (Tree.function?_eq_some.mpr hf)).grows hg rfl rfl
  cases hact with
  | say | names | shuffle | openScope | enterBody => exact h
  | fault id => exact (Tree.retains_markError id).answers hg h
  | reject dropped rest ns span hl hns hwhy =>
    intro id f hf
    rw [Tree.function?_eq_some, Tree.kind?_allocError] at hf
    split at hf
    · cases hf
    · exact hold id f hf
  | make kind rest span ns hl hnew hf hj hsort he hns =>
    refine (Tree.retains_settle _ p.run.tree.size kind).answers
      (Tree.grows_settle (P := fun _ => True) _ kind) fun id f hf => ?_
    rw [Tree.function?_eq_some, Tree.kind?_alloc] at hf
    split at hf
    · -- a new function has no body yet
      obtain rfl := Option.some.inj hf
      simp only [NodeKind.outline, NodeKind.function.injEq] at hnew
      intro b hb
      rw [← hnew] at hb
      cases hb
    · exact (h id f (Tree.function?_eq_some.mpr hf)).grows
        (Tree.grows_alloc (P := fun _ => True) kind span) rfl rfl
  | append id s rest tr tr' aside outer t' reach hl hst hstmt hk happ =>
    exact (Tree.retains_append happ hstmt (by simp [hk])).answers hg h
  | appendLabel id s rest tr tr' aside outer t' reach hl hst hstmt hk hscope hindex happ =>
    exact (Tree.retains_append happ hstmt fun _ => ⟨hscope, hindex⟩).answers hg h
  | closeScope tr aside outer kind span hl hst hpending =>
    intro id f hf
    rw [Tree.function?_eq_some, Tree.kind?_alloc] at hf
    split at hf
    · cases hf
    · exact hold id f hf
  | fillFunction id f body c rest hl hid hopen hf hb hcallable hret =>
    intro id' g hg'
    rw [Tree.function?_eq_some, Tree.kind?_fill _ (Tree.has_of_kind? hf)] at hg'
    split at hg'
    · cases hg'
      intro b hb'
      cases hb'
      rcases hret with hvoid | hret | ⟨m, hm, hmark⟩
      · exact .inl hvoid
      · exact .inr ⟨c, hg.scope? hb, hret⟩
      · rw [hclean m hm] at hmark
        cases hmark
    · exact hold id' g hg'
  | fillState id s handlers rest hl hid hopen hst hh =>
    intro id' g hg'
    rw [Tree.function?_eq_some, Tree.kind?_fill _ (Tree.has_of_kind? hst)] at hg'
    split at hg'
    · cases hg'
    · exact hold id' g hg'

/-- **Without errors, functions that have a value return it.** -/
theorem Acts.answers (h : Acts script library {} p)
    (hclean : ∀ m ∈ p.run.notices, m.marks = false) :
    ∀ id f, p.run.tree.function? id = some f → p.run.tree.Answers f := by
  induction h with
  | refl => exact fun id f hf => by simp [Tree.function?, Tree.kind?, Tree.node?] at hf
  | tail _ hact ih =>
    exact hact.answers hclean (ih fun m hm => hclean m (hact.notices hm))

end Lsl
