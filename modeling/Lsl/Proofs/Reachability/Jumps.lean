/- # Constant jumps and the flow

A jump that is always taken makes what follows it dead, up to the place it leads
to if that lies ahead. Behind that place it blocks nothing any more. So where
control goes on behind a live statement, the only jump that can be in the way is
the one that this statement performs.

Key definitions: `Tracker.Follows`.
Key theorems: `Tracker.Follows.append`, `Tracker.Follows.live_next`.
-/
import Lsl.Proofs.Reachability.Flow
import Mathlib.Data.List.Nodup

namespace Lsl

namespace Tracker

variable {tr tr' : Tracker} {scopeId m m' : Nat} {j : ConstantJump}

/-! ### What a jump blocks -/

/-- A jump that blocks nothing at a place behind it blocks nothing further on. -/
theorem blockedBy_none_mono (h : blockedBy scopeId m j = none) (hj : j.jumpIndex < m)
    (hm : m ≤ m') : blockedBy scopeId m' j = none := by
  unfold blockedBy at h ⊢
  grind

/-- A jump blocks nothing at the place where what it leads over ends. -/
theorem blockedBy_none_of_resumed {r : Reach} {place : Nat}
    (h : blockedBy scopeId m j = some (r, some place)) : blockedBy scopeId place j = none := by
  unfold blockedBy at h ⊢
  grind

/-- What a jump blocks stays blocked, up to where that ends. -/
theorem blockedBy_mono {r : Reach} {place : Option Nat}
    (h : blockedBy scopeId m j = some (r, place)) (hm : m ≤ m')
    (hplace : ∀ e ∈ place, m' < e) : blockedBy scopeId m' j = some (r, place) := by
  unfold blockedBy at h ⊢
  grind

theorem targetScope_of_blockedBy_none (h : blockedBy scopeId m j = none) :
    j.targetScope = scopeId := by
  unfold blockedBy at h
  grind

/-- What a jump blocks is dead, but not for a return. -/
theorem reason_of_blockedBy {r : Reach} {place : Option Nat}
    (h : blockedBy scopeId m j = some (r, place)) : r ≠ .live ∧ r ≠ .afterReturn := by
  unfold blockedBy at h
  grind

/-- What is blocked up to some place is jumped over. -/
theorem jumpedOver_of_blockedBy {r : Reach} {place : Nat}
    (h : blockedBy scopeId m j = some (r, some place)) : r = .jumpedOver := by
  unfold blockedBy at h
  grind

/-! ### What a step leads to -/

/-- How the flow goes on. A statement is live where nothing is in the way or
where a segment ends; otherwise the segment goes on, or a jump or a return opens
one. -/
inductive Goes (f : Flow) (single : Bool) (blocked : Option Blocking) (index : Nat)
    (returns reached : Bool) : Flow → Prop where
  | live (h : blocked = none ∨ ∃ r place, f.open? = some (r, some place) ∧ place ≤ index) :
    Goes f single blocked index returns reached ⟨none, returns⟩
  | on (r : Reach) (place : Option Nat) (ret : Bool) (hopen : f.open? = some (r, place))
    (hplace : ∀ e ∈ place, index < e) (hreached : f.onlyAfterReturn single = true → reached = false)
    (hret : single = false → place = none → f.returns = true → ret = true) :
    Goes f single blocked index returns reached ⟨some (r, place), ret⟩
  | jumped (r : Reach) (place : Option Nat) (ret : Bool) (hb : blocked = some (r, place))
    (hopen : f.open? = none ∨ ∃ e, f.open? = some (.afterReturn, e)) :
    Goes f single blocked index returns reached ⟨some (r, place), ret⟩
  | returned (hb : blocked = none) (hreached : reached = false) (hsingle : single = false) :
    Goes f single blocked index returns reached ⟨some (.afterReturn, none), true⟩

theorem goes_step (f : Flow) (single : Bool) (blocked : Option Blocking) (index : Nat)
    (returns reached : Bool) :
    Goes f single blocked index returns reached (f.step single blocked index returns reached) := by
  rcases f with ⟨op, ret⟩
  unfold Flow.step
  cases hrev : Flow.onlyAfterReturn ⟨op, ret⟩ single && reached with
  | true =>
    -- the return is taken back
    have hopen : op = none ∨ ∃ e, op = some (.afterReturn, e) := by
      rcases op with _ | ⟨r, e⟩
      · exact .inl rfl
      · exact .inr ⟨e, by simp_all [Flow.onlyAfterReturn]⟩
    rcases blocked with _ | ⟨r, _ | place⟩
    · exact .live (.inl rfl)
    · exact .jumped r none _ rfl hopen
    · exact .jumped r (some place) _ rfl hopen
  | false =>
    have hreached : Flow.onlyAfterReturn ⟨op, ret⟩ single = true → reached = false := by
      simpa using hrev
    rcases op with _ | ⟨r, _ | place⟩
    · rcases blocked with _ | ⟨r, _ | place⟩
      · simp only [Bool.false_eq_true, ↓reduceIte]
        split
        · rename_i hret
          exact .returned rfl (hreached (by simpa [Flow.onlyAfterReturn] using hret))
            (by simp_all)
        · exact .live (.inl rfl)
      · exact .jumped r none _ rfl (.inl rfl)
      · exact .jumped r (some place) _ rfl (.inl rfl)
    · refine .on r none _ rfl (by simp) hreached fun hsingle _ hret => ?_
      simp_all [Flow.noteReturn]
    · simp only [Bool.false_eq_true, ↓reduceIte]
      split
      · rename_i hle
        exact .live (.inr ⟨r, place, rfl, hle⟩)
      · rename_i hle
        exact .on r (some place) _ rfl (by simpa using hle) hreached (by simp)

/-! ### What a tracker knows of its jumps -/

/-- The jumps of a tracker and its flow fit together. -/
structure Follows (tr : Tracker) : Prop where
  fresh : tr.statements = [] → tr.flow = {}
  distinct : (tr.constantJumps.map (·.jumpIndex)).Nodup
  earlier : ∀ j ∈ tr.constantJumps, j.jumpIndex < tr.nextIndex
  /-- Where no segment is open, only the latest statement may be in the way. -/
  onward : tr.flow.open? = none → ∀ j ∈ tr.constantJumps,
    j.jumpIndex + 1 = tr.nextIndex ∨ blockedBy tr.scopeId tr.nextIndex j = none
  /-- Where a segment ends, nothing is in the way. -/
  resumed : ∀ r place, tr.flow.open? = some (r, some place) →
    ∀ j ∈ tr.constantJumps, j.jumpIndex < place ∧ blockedBy tr.scopeId place j = none
  /-- A segment behind a return has no end, and no jump is in the way. -/
  returned : ∀ place, tr.flow.open? = some (.afterReturn, place) →
    place = none ∧ tr.flow.returns = true ∧ tr.singleStatement = false
      ∧ ∀ j ∈ tr.constantJumps, blockedBy tr.scopeId tr.nextIndex j = none
  /-- Any other segment is blocked by one jump from the start. -/
  jumped : ∀ r place, tr.flow.open? = some (r, place) → r ≠ .afterReturn →
    ∃ j ∈ tr.constantJumps, ∀ m, tr.nextIndex ≤ m + 1 → (∀ e ∈ place, m < e) →
      blockedBy tr.scopeId m j = some (r, place)
  dead : ∀ place, tr.flow.open? ≠ some (.live, place)

theorem Follows.empty (scopeId : Nat) (singleStatement : Bool) :
    Follows { scopeId, singleStatement } := by
  constructor <;> simp [flow, hasReturnPath]

theorem blockedBy_of_blocked (h : tr.blocked = none) :
    ∀ j ∈ tr.constantJumps, blockedBy tr.scopeId tr.nextIndex j = none :=
  List.findSome?_eq_none_iff.mp h

/-- The jump that opens a segment is that of the latest statement, so nothing is
in the way where the segment ends. -/
theorem Follows.resumed_of_blocked (h : tr.Follows) {r : Reach} {place : Nat}
    (hb : tr.blocked = some (r, some place))
    (hfree : tr.flow.open? = none ∨ ∃ e, tr.flow.open? = some (.afterReturn, e)) :
    ∀ j ∈ tr.constantJumps, j.jumpIndex < place ∧ blockedBy tr.scopeId place j = none := by
  obtain ⟨j, hj, hblock⟩ := List.exists_of_findSome?_eq_some hb
  have hlt := lt_of_blockedBy hblock
  have hopen : tr.flow.open? = none := by
    rcases hfree with hopen | ⟨e, hopen⟩
    · exact hopen
    · obtain ⟨-, -, -, hclear⟩ := h.returned e hopen
      simp [hclear j hj] at hblock
  have hlatest : j.jumpIndex + 1 = tr.nextIndex := by
    rcases h.onward hopen j hj with hlatest | hnone
    · exact hlatest
    · rw [hnone] at hblock
      cases hblock
  intro i hi
  have hi' := h.earlier i hi
  refine ⟨Nat.lt_trans hi' hlt, ?_⟩
  rcases h.onward hopen i hi with hl | hnone
  · -- no two jumps have one place
    obtain rfl : i = j := List.inj_on_of_nodup_map h.distinct hi hj (by omega)
    exact blockedBy_none_of_resumed hblock
  · exact blockedBy_none_mono hnone hi' (Nat.le_of_lt hlt)

/-- No segment is live. -/
theorem Follows.dead_of_goes (h : tr.Follows) {single returns reached : Bool} {f : Flow}
    (hgoes : Goes tr.flow single tr.blocked tr.nextIndex returns reached f) (place : Option Nat) :
    f.open? ≠ some (.live, place) := by
  intro hopen
  cases hgoes with
  | live => cases hopen
  | on r' place' ret hseg =>
    cases hopen
    exact h.dead place hseg
  | jumped r' place' ret hb =>
    cases hopen
    obtain ⟨j, -, hblock⟩ := List.exists_of_findSome?_eq_some hb
    exact absurd rfl (reason_of_blockedBy hblock).1
  | returned => cases hopen

/-- The tracker behind one more statement, and the jump it performs if it is live. -/
structure Moves (tr : Tracker) (returns reached : Bool) (jump : Option ConstantJump)
    (tr' : Tracker) : Prop where
  scopeId : tr'.scopeId = tr.scopeId
  single : tr'.singleStatement = tr.singleStatement
  length : tr'.statements.length = tr.statements.length + 1
  jumps : tr'.constantJumps = tr.constantJumps ++ jump.toList
  flow : tr'.flow = tr.flow.step tr.singleStatement tr.blocked tr.nextIndex returns reached
  place : ∀ j ∈ jump, j.jumpIndex = tr.nextIndex
  live : tr'.flow.open? ≠ none → jump = none

section Step

variable {returns reached : Bool} {jump : Option ConstantJump}

theorem Moves.nextIndex (hm : tr.Moves returns reached jump tr') :
    tr'.nextIndex = tr.nextIndex + 1 := hm.length

theorem Moves.goes (hm : tr.Moves returns reached jump tr') :
    Goes tr.flow tr.singleStatement tr.blocked tr.nextIndex returns reached tr'.flow := by
  rw [hm.flow]
  exact goes_step ..

/-- Jumps stand before the next place. -/
theorem Follows.earlier_append (h : tr.Follows) (hm : tr.Moves returns reached jump tr') :
    ∀ j ∈ tr'.constantJumps, j.jumpIndex < tr'.nextIndex := by
  intro j hj
  rw [hm.nextIndex]
  rw [hm.jumps] at hj
  rcases List.mem_append.mp hj with hj | hj
  · exact Nat.lt_succ_of_lt (h.earlier j hj)
  · exact hm.place j (Option.mem_toList.mp hj) ▸ Nat.lt_succ_self _

/-- No two jumps stand at one place. -/
theorem Follows.distinct_append (h : tr.Follows) (hm : tr.Moves returns reached jump tr') :
    (tr'.constantJumps.map (·.jumpIndex)).Nodup := by
  rw [hm.jumps, List.map_append, List.nodup_append]
  refine ⟨h.distinct, ?_, fun a ha b hb => ?_⟩
  · cases jump <;> simp
  · obtain ⟨j, hj, rfl⟩ := List.mem_map.mp ha
    obtain ⟨i, hi, rfl⟩ := List.mem_map.mp hb
    have hearlier := h.earlier j hj
    have hplace := hm.place i (Option.mem_toList.mp hi)
    omega

/-- A statement is classified by the flow behind it. -/
theorem Follows.append (h : tr.Follows) (hm : tr.Moves returns reached jump tr') : tr'.Follows := by
  have hnext := hm.nextIndex
  have hscope := hm.scopeId
  have hfresh : tr'.statements = [] → tr'.flow = {} := fun he => by
    have := hm.length
    simp [he] at this
  -- a jump that is not in the way at this place is not in the way at the next one
  have hclear : ∀ j ∈ tr.constantJumps, blockedBy tr.scopeId tr.nextIndex j = none →
      blockedBy tr.scopeId (tr.nextIndex + 1) j = none := fun j hj hnone =>
    blockedBy_none_mono hnone (h.earlier j hj) (Nat.le_succ _)
  have hsame : tr'.flow.open? ≠ none → tr'.constantJumps = tr.constantJumps := fun hopen => by
    rw [hm.jumps, hm.live hopen]
    simp
  have hgoes := hm.goes
  generalize hflow : tr'.flow = f at hgoes
  refine ⟨hfresh, h.distinct_append hm, h.earlier_append hm, ?_, ?_, ?_, ?_, ?_⟩
  · -- behind a live statement
    intro hopen j hj
    rw [hflow] at hopen
    rw [hscope]
    rw [hm.jumps] at hj
    rcases List.mem_append.mp hj with hj | hj
    · right
      rw [hnext]
      cases hgoes with
      | live hwhy =>
        rcases hwhy with hb | ⟨r, place, hseg, hle⟩
        · exact hclear j hj (blockedBy_of_blocked hb j hj)
        · obtain ⟨hlt, hnone⟩ := h.resumed r place hseg j hj
          exact blockedBy_none_mono hnone hlt (by omega)
      | _ => cases hopen
    · left
      have := hm.place j (Option.mem_toList.mp hj)
      omega
  · intro r place hopen
    rw [hsame (by simp [hopen]), hscope]
    rw [hflow] at hopen
    cases hgoes with
    | live => cases hopen
    | on r' place' ret hseg =>
      cases hopen
      exact h.resumed r place hseg
    | jumped r' place' ret hb hfree =>
      cases hopen
      exact h.resumed_of_blocked hb hfree
    | returned => cases hopen
  · intro place hopen
    rw [hsame (by simp [hopen]), hm.single, hnext, hscope]
    rw [hflow] at hopen ⊢
    cases hgoes with
    | live => cases hopen
    | on r' place' ret hseg _ _ hret =>
      cases hopen
      obtain ⟨hplace, hreturns, hsingle, hnone⟩ := h.returned place hseg
      exact ⟨hplace, hret hsingle hplace hreturns, hsingle, fun j hj => hclear j hj (hnone j hj)⟩
    | jumped r' place' ret hb hfree =>
      cases hopen
      obtain ⟨j, -, hblock⟩ := List.exists_of_findSome?_eq_some hb
      exact absurd rfl (reason_of_blockedBy hblock).2
    | returned hb _ hsingle =>
      cases hopen
      exact ⟨rfl, rfl, hsingle, fun j hj => hclear j hj (blockedBy_of_blocked hb j hj)⟩
  · intro r place hopen hr
    rw [hsame (by simp [hopen]), hnext, hscope]
    rw [hflow] at hopen
    cases hgoes with
    | live => cases hopen
    | on r' place' ret hseg =>
      cases hopen
      obtain ⟨j, hj, hblocks⟩ := h.jumped r place hseg hr
      exact ⟨j, hj, fun m hle => hblocks m (by omega)⟩
    | jumped r' place' ret hb hfree =>
      cases hopen
      obtain ⟨j, hj, hblock⟩ := List.exists_of_findSome?_eq_some hb
      exact ⟨j, hj, fun m hle hend => blockedBy_mono hblock (by omega) hend⟩
    | returned =>
      cases hopen
      exact absurd rfl hr
  · exact hflow ▸ h.dead_of_goes hgoes

/-- Behind a live statement, all that is known is whether it returns. -/
theorem Moves.flow_of_live (hm : tr.Moves returns reached jump tr') (hopen : tr'.flow.open? = none) :
    tr'.flow = ⟨none, returns⟩ := by
  have hgoes := hm.goes
  generalize tr'.flow = f at hgoes hopen
  cases hgoes with
  | live => rfl
  | _ => cases hopen

/-- The first statement is live. -/
theorem Follows.live_first (h : tr.Follows) (hm : tr.Moves returns reached jump tr')
    (hempty : tr.statements = []) : tr'.flow.open? = none := by
  have hjumps : tr.constantJumps = [] := by
    refine List.eq_nil_iff_forall_not_mem.mpr fun j hj => ?_
    have := h.earlier j hj
    simp [nextIndex, hempty] at this
  have hb : tr.blocked = none := by simp [blocked, hjumps]
  rw [hm.flow, h.fresh hempty, hb]
  rfl

/-- **Control goes on from a live statement** that neither returns nor jumps to
the next one, which is live. -/
theorem Follows.live_next (h : tr.Follows) (hm : tr.Moves returns reached jump tr')
    (hflow : tr.flow = ⟨none, false⟩) (hj : ∀ j ∈ tr.constantJumps, j.jumpIndex + 1 ≠ tr.nextIndex) :
    tr'.flow.open? = none := by
  have hb : tr.blocked = none := by
    refine List.findSome?_eq_none_iff.mpr fun j hmem => ?_
    exact (h.onward (by rw [hflow]) j hmem).resolve_left (hj j hmem)
  rw [hm.flow, hflow, hb]
  rfl

/-- Where control goes on from the last statement, no jump leads out of the scope. -/
theorem Follows.stays (h : tr.Follows) (hopen : tr.flow.open? = none)
    (hj : ∀ j ∈ tr.constantJumps, j.jumpIndex + 1 ≠ tr.nextIndex) :
    ∀ j ∈ tr.constantJumps, j.targetScope = tr.scopeId := fun j hmem =>
  targetScope_of_blockedBy_none ((h.onward hopen j hmem).resolve_left (hj j hmem))

/-- A statement is dead because of a jump, or because of a return, and then it is
no label that a live jump leads to. -/
theorem Follows.reason_of_dead (h : tr.Follows) (hm : tr.Moves returns reached jump tr')
    {r : Reach} {place : Option Nat} (hopen : tr'.flow.open? = some (r, place)) :
    (r = .afterReturn ∧ reached = false)
      ∨ ∃ j ∈ tr.constantJumps, blockedBy tr.scopeId tr.nextIndex j = some (r, place) := by
  have hgoes := hm.goes
  generalize tr'.flow = f at hgoes hopen
  cases hgoes with
  | live => cases hopen
  | on r' place' ret hseg hplace hreached =>
    cases hopen
    by_cases hr : r = .afterReturn
    · subst hr
      obtain ⟨rfl, hreturns, hsingle, -⟩ := h.returned place hseg
      exact .inl ⟨rfl, hreached (by simp [Flow.onlyAfterReturn, hreturns, hsingle, hseg])⟩
    · obtain ⟨j, hj, hblocks⟩ := h.jumped r place hseg hr
      exact .inr ⟨j, hj, hblocks _ (Nat.le_succ _) hplace⟩
  | jumped r' place' ret hb =>
    cases hopen
    exact .inr (List.exists_of_findSome?_eq_some hb)
  | returned _ hreached =>
    cases hopen
    exact .inl ⟨rfl, hreached⟩

end Step

end Tracker

namespace Tree

variable {t t' : Tree} {tr tr' : Tracker} {id : NodeId} {facts : Facts} {reach : Reach}

/-- Appending a statement moves the tracker on. -/
theorem moves_append (h : t.append tr id facts = ⟨t', tr', .ok reach⟩)
    (hj : ∀ j ∈ facts.constantJump, j.jumpIndex = tr.nextIndex) (hf : tr.Follows) :
    tr.Moves facts.returns (t.reachedByLiveJump id) (facts.jumpOf reach) tr'
      ∧ reach = tr'.flow.reach := by
  obtain ⟨s, c, -, hc, rfl, -⟩ := append_ok h
  have hsame := Tracker.sameScope_classify tr id (t.span id) facts.returns (t.reachedByLiveJump id)
  obtain ⟨hflow, hreach⟩ := tr.classify_flow id (t.span id) facts.returns
    (t.reachedByLiveJump id)
  rw [hc] at hsame hflow hreach
  have hstmts : c.statements = tr.statements ++ [id] := hsame.statements
  have hjumps : c.constantJumps = tr.constantJumps := hsame.constantJumps
  refine ⟨⟨hsame.scopeId, hsame.singleStatement, ?_, ?_, hflow, fun j hmem => ?_, fun hopen => ?_⟩,
    ?_⟩
  · simp [Tracker.record, hstmts]
  · simp [Tracker.record, hjumps]
  · unfold Facts.jumpOf at hmem
    split at hmem
    · cases hmem
    · exact hj j hmem
  · have hopen : c.flow.open? ≠ none := hopen
    have hdead := hf.dead_of_goes (Tracker.goes_step tr.flow tr.singleStatement tr.blocked
      tr.nextIndex facts.returns (t.reachedByLiveJump id))
    rw [← hflow] at hdead
    rw [← hflow] at hreach
    rcases hseg : c.flow.open? with _ | ⟨r, place⟩
    · exact absurd hseg hopen
    · have hr : reach = r := by
        rw [show reach = c.flow.reach from hreach, Flow.reach, hseg]
        rfl
      have hlive : r ≠ .live := fun he => hdead place (by rw [hseg, he])
      simp [Facts.jumpOf, Reach.isDead, hr, hlive]
  · rw [show (c.record (facts.jumpOf reach)).flow = c.flow from rfl,
      show c.flow = _ from hflow]
    exact hreach

end Tree

end Lsl
