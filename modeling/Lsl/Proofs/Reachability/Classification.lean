/- # Why a statement is dead, without the order of events

A tracker classifies statements one at a time and remembers little. What comes
out depends on the live statements above alone: one that jumps out of the scope
or back makes all behind it dead, one that jumps ahead what it leads over, and
one that returns what follows up to the next label which a live jump leads to.
Among the live statements above at most one does any of this, since the others
could not be live behind it.

Key definitions: `JumpsOut`, `JumpsBack`, `JumpsOver`, `ReturnsAbove`, `Classified`.
Key theorems: `Tracker.Follows.afterReturn_iff`, `Tracker.Follows.jumped_iff`,
`Tracker.Visits.classified_by_above`.
-/
import Lsl.Proofs.Reachability.Jumps
import Lsl.Proofs.Reachability.Visits

namespace Lsl

namespace Tracker

variable {tr tr' : Tracker} {returns reached : Bool} {jump : Option ConstantJump}

/-! ### What makes the next statement dead -/

theorem blocked_eq_none_iff :
    tr.blocked = none ↔ ∀ j ∈ tr.constantJumps, blockedBy tr.scopeId tr.nextIndex j = none :=
  List.findSome?_eq_none_iff

/-- At most one jump is in the way. -/
def Alone (tr : Tracker) : Prop :=
  ∀ i ∈ tr.constantJumps, ∀ j ∈ tr.constantJumps,
    blockedBy tr.scopeId tr.nextIndex i ≠ none → blockedBy tr.scopeId tr.nextIndex j ≠ none → i = j

theorem Alone.empty (scopeId : Nat) (singleStatement : Bool) :
    Alone { scopeId, singleStatement } := by simp [Alone]

theorem Alone.append (ha : tr.Alone) (h : tr.Follows)
    (hm : tr.Moves returns reached jump tr') : tr'.Alone := by
  intro i hi j hj hblocki hblockj
  have h' := h.append hm
  by_cases hopen : tr'.flow.open? = none
  · -- only the statement just taken up can be in the way
    have hi' := (h'.onward hopen i hi).resolve_right hblocki
    have hj' := (h'.onward hopen j hj).resolve_right hblockj
    exact List.inj_on_of_nodup_map h'.distinct hi hj (by omega)
  · have hjumps : tr'.constantJumps = tr.constantJumps := by
      rw [hm.jumps, hm.live hopen]
      simp
    rw [hjumps] at hi hj
    rw [hm.scopeId, hm.nextIndex] at hblocki hblockj
    have hback : ∀ l ∈ tr.constantJumps, blockedBy tr.scopeId (tr.nextIndex + 1) l ≠ none →
        blockedBy tr.scopeId tr.nextIndex l ≠ none := fun l hl hblock hnone =>
      hblock (blockedBy_none_mono hnone (h.earlier l hl) (Nat.le_succ _))
    exact ha i hi j hj (hback i hi hblocki) (hback j hj hblockj)

/-- **A statement is dead behind a return** if a return is all that is in the
way and no live jump leads to it. -/
theorem Follows.afterReturn_iff (h : tr.Follows) (hsingle : tr.singleStatement = false)
    (hm : tr.Moves returns reached jump tr') :
    tr'.flow.reach = .afterReturn
      ↔ (tr.flow.onlyAfterReturn false = true ∧ tr.blocked = none) ∧ reached = false := by
  have hreturned := h.returned
  rw [hm.flow, hsingle]
  rcases hflow : tr.flow with ⟨_ | ⟨r, place⟩, ret⟩
  · rcases hb : tr.blocked with _ | ⟨r, place⟩
    · cases ret <;> cases reached <;> cases returns <;>
        simp [Flow.step, Flow.onlyAfterReturn, Flow.reach]
    · obtain ⟨j, -, hblock⟩ := List.exists_of_findSome?_eq_some hb
      have hr := (reason_of_blockedBy hblock).2
      rcases place with _ | place <;> cases ret <;> cases reached <;>
        simp [Flow.step, Flow.onlyAfterReturn, Flow.reach, hr]
  · by_cases hr : r = .afterReturn
    · subst hr
      obtain ⟨rfl, hret, -, hclear⟩ := hreturned place (by rw [hflow])
      obtain rfl : ret = true := by simpa [hflow] using hret
      rw [blocked_eq_none_iff.mpr hclear]
      cases reached <;> simp [Flow.step, Flow.onlyAfterReturn, Flow.reach]
    · rcases place with _ | place
      · simp [Flow.step, Flow.onlyAfterReturn, Flow.reach, hr]
      · by_cases hle : place ≤ tr.nextIndex <;>
          simp [Flow.step, Flow.onlyAfterReturn, Flow.reach, hr, hle]

/-- **A statement is dead for a jump** if one of the jumps so far blocks it. -/
theorem Follows.jumped_iff (h : tr.Follows) (ha : tr.Alone) (hsingle : tr.singleStatement = false)
    (hm : tr.Moves returns reached jump tr') {r : Reach} (hlive : r ≠ .live)
    (hret : r ≠ .afterReturn) :
    tr'.flow.reach = r
      ↔ ∃ j ∈ tr.constantJumps, (blockedBy tr.scopeId tr.nextIndex j).map (·.1) = some r := by
  constructor
  · intro hreach
    rcases hopen : tr'.flow.open? with _ | ⟨r', place⟩
    · rw [Flow.reach, hopen] at hreach
      exact absurd hreach.symm hlive
    · obtain rfl : r' = r := by simpa [Flow.reach, hopen] using hreach
      rcases h.reason_of_dead hm hopen with ⟨rfl, -⟩ | ⟨j, hj, hblock⟩
      · exact absurd rfl hret
      · exact ⟨j, hj, by rw [hblock]; rfl⟩
  · rintro ⟨j, hj, hreason⟩
    obtain ⟨⟨r, place⟩, hblock, rfl⟩ := Option.map_eq_some_iff.mp hreason
    have hb : tr.blocked ≠ none := fun hnone => by
      rw [blocked_eq_none_iff.mp hnone j hj] at hblock
      cases hblock
    rcases hopen : tr'.flow.open? with _ | ⟨r', place'⟩
    · have hgoes := hm.goes
      generalize tr'.flow = f at hgoes hopen
      cases hgoes with
      | live hwhy =>
        rcases hwhy with hnone | ⟨r', place', hseg, hle⟩
        · exact absurd hnone hb
        · -- behind the place where the segment ends nothing is in the way
          obtain ⟨hlt, hnone⟩ := h.resumed r' place' hseg j hj
          rw [blockedBy_none_mono hnone hlt hle] at hblock
          cases hblock
      | _ => cases hopen
    · have hreach : tr'.flow.reach = r' := by simp [Flow.reach, hopen]
      rcases h.reason_of_dead hm hopen with ⟨rfl, -⟩ | ⟨i, hi, hblock'⟩
      · exact absurd ((h.afterReturn_iff hsingle hm).mp hreach).1.2 hb
      · obtain rfl : i = j := ha i hi j hj (by simp [hblock']) (by simp [hblock])
        rw [hblock'] at hblock
        rw [hreach]
        exact congrArg Prod.fst (Option.some.inj hblock)

end Tracker

/-! ### The live statements above -/

/-- The statement at `place` is live and stands above `index`. -/
def LiveAbove (log : List Visit) (index place : Nat) (v : Visit) : Prop :=
  place < index ∧ log[place]? = some v ∧ v.reach = .live

/-- A live statement above jumps out of the scope. -/
def JumpsOut (log : List Visit) (scopeId index : Nat) : Prop :=
  ∃ place v, LiveAbove log index place v
    ∧ ∃ t, v.facts.constantJump = some t ∧ t.targetScope ≠ scopeId

/-- A live statement above jumps to itself or back. -/
def JumpsBack (log : List Visit) (scopeId index : Nat) : Prop :=
  ∃ place v, LiveAbove log index place v
    ∧ ∃ t, v.facts.constantJump = some t ∧ t.targetScope = scopeId ∧ t.targetIndex ≤ place

/-- A live statement above jumps to a place further down. -/
def JumpsOver (log : List Visit) (scopeId index : Nat) : Prop :=
  ∃ place v, LiveAbove log index place v
    ∧ ∃ t, v.facts.constantJump = some t ∧ t.targetScope = scopeId ∧ index < t.targetIndex

/-- The statement performs no jump, or one to the next statement. -/
def Visit.GoesOn (v : Visit) (scopeId place : Nat) : Prop :=
  ∀ t, v.facts.constantJump = some t → t.targetScope = scopeId ∧ t.targetIndex = place + 1

/-- A live statement above returns, and no label from there to `index` is
reached by a live jump. -/
def ReturnsAbove (log : List Visit) (scopeId index : Nat) : Prop :=
  ∃ place v, LiveAbove log index place v ∧ v.facts.returns = true ∧ v.GoesOn scopeId place
    ∧ ∀ (k : Nat) (w : Visit), place < k → k ≤ index → log[k]? = some w → w.reached = false

/-- The classification says what the live statements above do. -/
structure Classified (log : List Visit) (scopeId index : Nat) (r : Reach) : Prop where
  out : r = .afterJumpOut ↔ JumpsOut log scopeId index
  back : r = .afterJumpBack ↔ JumpsBack log scopeId index
  jumped : r = .jumpedOver ↔ JumpsOver log scopeId index
  returned : r = .afterReturn ↔ ReturnsAbove log scopeId index

/-- Every jump says where it stands. -/
def Placed (log : List Visit) : Prop :=
  ∀ (place : Nat) (v : Visit), log[place]? = some v →
    ∀ t, v.facts.constantJump = some t → t.jumpIndex = place

section Logs

variable {log more : List Visit} {scopeId index place : Nat} {v : Visit}

theorem liveAbove_append (h : index ≤ log.length) :
    LiveAbove (log ++ more) index place v ↔ LiveAbove log index place v := by
  refine and_congr_right fun hlt => ?_
  rw [List.getElem?_append_left (by omega)]

/-- What comes behind a statement plays no part. -/
theorem Classified.append {r : Reach} (h : Classified log scopeId index r)
    (hi : index < log.length) : Classified (log ++ more) scopeId index r := by
  have hlive : ∀ place v, LiveAbove (log ++ more) index place v ↔ LiveAbove log index place v :=
    fun _ _ => liveAbove_append (Nat.le_of_lt hi)
  have hlabels : ∀ place : Nat,
      (∀ (k : Nat) (w : Visit), place < k → k ≤ index → (log ++ more)[k]? = some w →
        w.reached = false)
      ↔ ∀ (k : Nat) (w : Visit), place < k → k ≤ index → log[k]? = some w →
        w.reached = false := by
    refine fun place => forall_congr' fun k => forall_congr' fun w => forall_congr' fun _ =>
      forall_congr' fun hk => ?_
    rw [List.getElem?_append_left (by omega)]
  refine ⟨h.out.trans ?_, h.back.trans ?_, h.jumped.trans ?_, h.returned.trans ?_⟩
  · simp only [JumpsOut, hlive]
  · simp only [JumpsBack, hlive]
  · simp only [JumpsOver, hlive]
  · simp only [ReturnsAbove, hlive, hlabels]

theorem Placed.of_append (h : Placed (log ++ [v])) :
    Placed log ∧ ∀ t, v.facts.constantJump = some t → t.jumpIndex = log.length := by
  refine ⟨fun place w hw => ?_, h log.length v (by simp)⟩
  obtain ⟨hlt, -⟩ := List.getElem?_eq_some_iff.mp hw
  exact h place w (by rw [List.getElem?_append_left hlt, hw])

end Logs

/-! ### What a tracker knows of its log -/

/-- A return above is not taken back so far. -/
def ReturnsOn (log : List Visit) (scopeId : Nat) : Prop :=
  ∃ (place : Nat) (v : Visit), log[place]? = some v ∧ v.reach = .live ∧ v.facts.returns = true
    ∧ v.GoesOn scopeId place
    ∧ ∀ (k : Nat) (w : Visit), place < k → log[k]? = some w → w.reached = false

/-- The tracker knows the jumps of the live statements of the log, and whether a
return is all that is in the way. -/
structure Knows (log : List Visit) (tr : Tracker) : Prop where
  follows : tr.Follows
  alone : tr.Alone
  single : tr.singleStatement = false
  next : tr.nextIndex = log.length
  jumps : ∀ t, t ∈ tr.constantJumps
    ↔ ∃ (place : Nat) (v : Visit),
      log[place]? = some v ∧ v.reach = .live ∧ v.facts.constantJump = some t
  returned : ReturnsOn log tr.scopeId
    ↔ tr.flow.onlyAfterReturn false = true ∧ tr.blocked = none

theorem Knows.empty (scopeId : Nat) : Knows [] { scopeId } where
  follows := .empty scopeId false
  alone := .empty scopeId false
  single := rfl
  next := rfl
  jumps := by simp
  returned := by simp [ReturnsOn, Tracker.flow, Tracker.hasReturnPath, Flow.onlyAfterReturn]

section Step

variable {log : List Visit} {tr tr' : Tracker} {v : Visit}

theorem Knows.moves (h : Knows log tr) (hv : v.Takes tr tr') (hp : Placed (log ++ [v])) :
    tr.Moves v.facts.returns v.reached (v.facts.jumpOf v.reach) tr' ∧ v.reach = tr'.flow.reach :=
  Tree.moves_append hv (fun t ht => h.next ▸ hp.of_append.2 t ht) h.follows

/-! ### What the jumps of the log block -/

variable {scopeId index : Nat} {t : ConstantJump}

theorem blockedBy_out_iff (h : t.jumpIndex < index) :
    (Tracker.blockedBy scopeId index t).map (·.1) = some .afterJumpOut
      ↔ t.targetScope ≠ scopeId := by
  unfold Tracker.blockedBy
  grind

theorem blockedBy_back_iff (h : t.jumpIndex < index) :
    (Tracker.blockedBy scopeId index t).map (·.1) = some .afterJumpBack
      ↔ t.targetScope = scopeId ∧ t.targetIndex ≤ t.jumpIndex := by
  unfold Tracker.blockedBy
  grind

theorem blockedBy_over_iff (h : t.jumpIndex < index) :
    (Tracker.blockedBy scopeId index t).map (·.1) = some .jumpedOver
      ↔ t.targetScope = scopeId ∧ index < t.targetIndex := by
  unfold Tracker.blockedBy
  grind

/-- A jump is not in the way of the next statement if it leads there. -/
theorem blockedBy_next_iff (h : t.jumpIndex = index) :
    Tracker.blockedBy scopeId (index + 1) t = none
      ↔ t.targetScope = scopeId ∧ t.targetIndex = index + 1 := by
  unfold Tracker.blockedBy
  grind

/-- The jumps that the tracker knows are those of the live statements so far. -/
theorem Knows.exists_jump (h : Knows log tr) (hp : Placed log) (P : Nat → ConstantJump → Prop) :
    (∃ t ∈ tr.constantJumps, P t.jumpIndex t)
      ↔ ∃ place w, LiveAbove log log.length place w
        ∧ ∃ t, w.facts.constantJump = some t ∧ P place t := by
  constructor
  · rintro ⟨t, ht, hP⟩
    obtain ⟨place, w, hw, hlive, hjump⟩ := (h.jumps t).mp ht
    obtain rfl := hp place w hw t hjump
    exact ⟨_, w, ⟨(List.getElem?_eq_some_iff.mp hw).1, hw, hlive⟩, t, hjump, hP⟩
  · rintro ⟨place, w, ⟨-, hw, hlive⟩, t, hjump, hP⟩
    obtain rfl := hp place w hw t hjump
    exact ⟨t, (h.jumps t).mpr ⟨_, w, hw, hlive, hjump⟩, hP⟩

/-! ### Returns of the log -/

theorem returnsAbove_snoc : ReturnsAbove (log ++ [v]) scopeId log.length
    ↔ ReturnsOn log scopeId ∧ v.reached = false := by
  constructor
  · rintro ⟨place, w, ⟨hlt, hw, hlive⟩, hreturns, hgoes, hlabels⟩
    rw [List.getElem?_append_left hlt] at hw
    refine ⟨⟨place, w, hw, hlive, hreturns, hgoes, fun k u hk hu => ?_⟩,
      hlabels log.length v hlt (Nat.le_refl _) (by simp)⟩
    obtain ⟨hlt', -⟩ := List.getElem?_eq_some_iff.mp hu
    exact hlabels k u hk (Nat.le_of_lt hlt') (by rw [List.getElem?_append_left hlt', hu])
  · rintro ⟨⟨place, w, hw, hlive, hreturns, hgoes, hlabels⟩, hv⟩
    obtain ⟨hlt, -⟩ := List.getElem?_eq_some_iff.mp hw
    refine ⟨place, w, ⟨hlt, by rw [List.getElem?_append_left hlt, hw], hlive⟩, hreturns, hgoes,
      fun k u hk hle hu => ?_⟩
    rcases Nat.lt_or_eq_of_le hle with hlt' | rfl
    · rw [List.getElem?_append_left hlt'] at hu
      exact hlabels k u hk hu
    · obtain rfl : v = u := by simpa using hu
      exact hv

theorem returnsOn_snoc : ReturnsOn (log ++ [v]) scopeId
    ↔ (ReturnsOn log scopeId ∧ v.reached = false)
      ∨ (v.reach = .live ∧ v.facts.returns = true ∧ v.GoesOn scopeId log.length) := by
  rw [← returnsAbove_snoc]
  constructor
  · rintro ⟨place, w, hw, hlive, hreturns, hgoes, hlabels⟩
    obtain ⟨hlt, -⟩ := List.getElem?_eq_some_iff.mp hw
    rw [List.length_append, List.length_singleton] at hlt
    rcases Nat.lt_or_eq_of_le (Nat.le_of_lt_succ hlt) with hlt | rfl
    · exact .inl ⟨place, w, ⟨hlt, hw, hlive⟩, hreturns, hgoes, fun k u hk _ => hlabels k u hk⟩
    · obtain rfl : v = w := by simpa using hw
      exact .inr ⟨hlive, hreturns, hgoes⟩
  · rintro (⟨place, w, ⟨hlt, hw, hlive⟩, hreturns, hgoes, hlabels⟩ | ⟨hlive, hreturns, hgoes⟩)
    · refine ⟨place, w, hw, hlive, hreturns, hgoes, fun k u hk hu => hlabels k u hk ?_ hu⟩
      obtain ⟨hlt', -⟩ := List.getElem?_eq_some_iff.mp hu
      rw [List.length_append, List.length_singleton] at hlt'
      exact Nat.le_of_lt_succ hlt'
    · refine ⟨log.length, v, by simp, hlive, hreturns, hgoes, fun k u hk hu => ?_⟩
      obtain ⟨hlt', -⟩ := List.getElem?_eq_some_iff.mp hu
      rw [List.length_append, List.length_singleton] at hlt'
      omega

/-! ### One visit -/

/-- A visit says what the live statements above do. -/
theorem Knows.classified (h : Knows log tr) (hv : v.Takes tr tr') (hp : Placed (log ++ [v])) :
    Classified (log ++ [v]) tr.scopeId log.length v.reach := by
  obtain ⟨hm, hreach⟩ := h.moves hv hp
  have hearlier := h.follows.earlier
  have hjumps := h.exists_jump hp.of_append.1
  have hlive : ∀ place w, LiveAbove (log ++ [v]) log.length place w
      ↔ LiveAbove log log.length place w := fun _ _ => liveAbove_append (Nat.le_refl _)
  rw [hreach]
  refine ⟨?_, ?_, ?_, ?_⟩
  · rw [h.follows.jumped_iff h.alone h.single hm (by decide) (by decide)]
    simp only [JumpsOut, hlive]
    rw [← hjumps fun _ t => t.targetScope ≠ tr.scopeId]
    exact exists_congr fun t => and_congr_right fun ht => blockedBy_out_iff (hearlier t ht)
  · rw [h.follows.jumped_iff h.alone h.single hm (by decide) (by decide)]
    simp only [JumpsBack, hlive]
    rw [← hjumps fun place t => t.targetScope = tr.scopeId ∧ t.targetIndex ≤ place]
    exact exists_congr fun t => and_congr_right fun ht => blockedBy_back_iff (hearlier t ht)
  · rw [h.follows.jumped_iff h.alone h.single hm (by decide) (by decide), h.next]
    simp only [JumpsOver, hlive]
    rw [← hjumps fun _ t => t.targetScope = tr.scopeId ∧ log.length < t.targetIndex]
    exact exists_congr fun t => and_congr_right fun ht =>
      blockedBy_over_iff (h.next ▸ hearlier t ht)
  · rw [h.follows.afterReturn_iff h.single hm, returnsAbove_snoc, h.returned]

theorem mem_jumpOf {facts : Facts} {r : Reach} :
    t ∈ (facts.jumpOf r).toList ↔ r = .live ∧ facts.constantJump = some t := by
  cases r <;> simp [Facts.jumpOf, Reach.isDead]

/-- The jumps of the live statements, one statement further. -/
theorem exists_snoc (P : Nat → Visit → Prop) :
    (∃ place w, (log ++ [v])[place]? = some w ∧ P place w)
      ↔ (∃ place w, log[place]? = some w ∧ P place w) ∨ P log.length v := by
  constructor
  · rintro ⟨place, w, hw, hP⟩
    obtain ⟨hlt, -⟩ := List.getElem?_eq_some_iff.mp hw
    rw [List.length_append, List.length_singleton] at hlt
    rcases Nat.lt_or_eq_of_le (Nat.le_of_lt_succ hlt) with hlt | rfl
    · rw [List.getElem?_append_left hlt] at hw
      exact .inl ⟨place, w, hw, hP⟩
    · obtain rfl : v = w := by simpa using hw
      exact .inr hP
  · rintro (⟨place, w, hw, hP⟩ | hP)
    · obtain ⟨hlt, -⟩ := List.getElem?_eq_some_iff.mp hw
      exact ⟨place, w, by rw [List.getElem?_append_left hlt, hw], hP⟩
    · exact ⟨log.length, v, by simp, hP⟩

/-- Behind a live statement nothing is in the way but what it does itself. -/
theorem Knows.blocked_of_live (h : Knows log tr) (hv : v.Takes tr tr') (hp : Placed (log ++ [v]))
    (hopen : tr'.flow.open? = none) (hlive : v.reach = .live) :
    tr'.blocked = none ↔ v.GoesOn tr.scopeId log.length := by
  obtain ⟨hm, -⟩ := h.moves hv hp
  have honward := (h.follows.append hm).onward hopen
  have hnext : tr'.nextIndex = log.length + 1 := by rw [hm.nextIndex, h.next]
  rw [Tracker.blocked_eq_none_iff, hm.scopeId, hnext]
  rw [hm.scopeId, hnext] at honward
  constructor
  · intro hclear t ht
    have hmem : t ∈ tr'.constantJumps := by
      rw [hm.jumps]
      exact List.mem_append_right _ (mem_jumpOf.mpr ⟨hlive, ht⟩)
    exact (blockedBy_next_iff (hp.of_append.2 t ht)).mp (hclear t hmem)
  · intro hgoes t hmem
    rcases honward t hmem with hlatest | hnone
    · have hplace : t.jumpIndex = log.length := by omega
      rw [hm.jumps] at hmem
      rcases List.mem_append.mp hmem with hmem | hmem
      · have := h.follows.earlier t hmem
        rw [h.next] at this
        omega
      · exact (blockedBy_next_iff hplace).mpr (hgoes t (mem_jumpOf.mp hmem).2)
    · exact hnone

theorem Knows.append (h : Knows log tr) (hv : v.Takes tr tr') (hp : Placed (log ++ [v])) :
    Knows (log ++ [v]) tr' := by
  obtain ⟨hm, hreach⟩ := h.moves hv hp
  have hfollows := h.follows.append hm
  have hreturn := h.follows.afterReturn_iff h.single hm
  rw [← hreach] at hreturn
  refine ⟨hfollows, h.alone.append h.follows hm, hm.single.trans h.single, ?_, fun t => ?_, ?_⟩
  · rw [hm.nextIndex, h.next, List.length_append, List.length_singleton]
  · rw [hm.jumps, List.mem_append, h.jumps, mem_jumpOf, exists_snoc]
  · rw [returnsOn_snoc, hm.scopeId, h.returned, ← hreturn]
    rcases hopen : tr'.flow.open? with _ | ⟨r, place⟩
    · have hlive : v.reach = .live := by
        rw [hreach, Flow.reach, hopen]
        rfl
      rw [h.blocked_of_live hv hp hopen hlive, hm.flow_of_live hopen]
      simp [hlive, Flow.onlyAfterReturn]
    · have hr : v.reach = r := by simp [hreach, Flow.reach, hopen]
      have hdead : v.reach ≠ .live := fun hlive => hfollows.dead place (by rw [hopen, ← hr, hlive])
      constructor
      · rintro (hafter | ⟨hlive, -⟩)
        · obtain ⟨-, hreturns, -, hclear⟩ := hfollows.returned place (by rw [hopen, ← hr, hafter])
          refine ⟨?_, Tracker.blocked_eq_none_iff.mpr hclear⟩
          simp [Flow.onlyAfterReturn, hreturns, hopen, ← hr, hafter]
        · exact absurd hlive hdead
      · rintro ⟨honly, -⟩
        simp only [Flow.onlyAfterReturn, hopen, Bool.and_eq_true, beq_iff_eq] at honly
        exact .inl (hr.trans honly.2)

end Step

/-! ### Runs -/

namespace Tracker

variable {log : List Visit} {scopeId : Nat} {tr : Tracker}

theorem Visits.knows (h : Visits { scopeId } log tr) (hp : Placed log) : Knows log tr := by
  induction h with
  | nil => exact .empty scopeId
  | snoc _ hv ih => exact (ih hp.of_append.1).append hv hp

theorem Visits.classified_at (h : Visits { scopeId } log tr) (hp : Placed log) :
    ∀ (i : Nat) (v : Visit), log[i]? = some v → Classified log scopeId i v.reach := by
  induction h with
  | nil => simp
  | snoc hlog hv ih =>
    rename_i log tr tr' v
    intro i w hw
    obtain ⟨hlt, -⟩ := List.getElem?_eq_some_iff.mp hw
    rw [List.length_append, List.length_singleton] at hlt
    rcases Nat.lt_or_eq_of_le (Nat.le_of_lt_succ hlt) with hlt | rfl
    · rw [List.getElem?_append_left hlt] at hw
      exact (ih hp.of_append.1 i w hw).append hlt
    · obtain rfl : v = w := by simpa using hw
      have hscope : tr.scopeId = scopeId := hlog.scope.1
      exact hscope ▸ (hlog.knows hp.of_append.1).classified hv hp

/-- Visits to other statements leave a classification as it is. -/
theorem Visits.dead?_of_ne (h : Visits { scopeId } log tr) {w : Visit} (hw : w ∈ log) {i : NodeId}
    (hi : i ≠ w.id) : w.after.dead? i = w.tree.dead? i := by
  induction h with
  | nil => cases hw
  | snoc _ hv ih =>
    rcases List.mem_append.mp hw with hw | hw
    · exact ih hw
    · obtain rfl := List.mem_singleton.mp hw
      rw [hv.dead?, if_neg hi]

theorem Visits.dead?_self (h : Visits { scopeId } log tr) {w : Visit} (hw : w ∈ log) :
    w.after.dead? w.id = some w.reach := by
  induction h with
  | nil => cases hw
  | snoc _ hv ih =>
    rcases List.mem_append.mp hw with hw | hw
    · exact ih hw
    · obtain rfl := List.mem_singleton.mp hw
      rw [hv.dead?, if_pos rfl]

/-- **Classification is free of order.** Statements of a scope of several
statements are always taken up, and each is classified by what the live
statements above it do: jump out of the scope, jump back, jump over it, or
return with no label reached by a live jump from there on. At most one of this
is done, the statement is live if none is, and no later statement changes what
the tree shows. -/
theorem Visits.classified_by_above (h : Visits { scopeId } log tr) (hids : (log.map (·.id)).Nodup)
    (hp : Placed log) :
    (∀ (i : Nat) (v : Visit), log[i]? = some v →
      Classified log scopeId i v.reach
        ∧ (v.reach = .live ↔ ¬ JumpsOut log scopeId i ∧ ¬ JumpsBack log scopeId i
          ∧ ¬ JumpsOver log scopeId i ∧ ¬ ReturnsAbove log scopeId i)
        ∧ [JumpsOut log scopeId i, JumpsBack log scopeId i, JumpsOver log scopeId i,
          ReturnsAbove log scopeId i].Pairwise (fun p q => ¬ (p ∧ q)))
      ∧ (∀ (i j : Nat) (v w : Visit), i < j → log[i]? = some v → log[j]? = some w →
        v.after.dead? v.id = some v.reach ∧ w.after.dead? v.id = w.tree.dead? v.id)
      ∧ ∀ (t : Tree) (id : NodeId) (facts : Facts),
        (∀ i ∈ tr.statements ++ [id], (t.stmt? i).isSome) →
        ∃ (v : Visit) (tr' : Tracker), v.tree = t ∧ v.id = id ∧ v.facts = facts ∧ v.Takes tr tr' := by
  refine ⟨fun i v hi => ?_, fun i j v w hij hi hj => ?_, fun t id facts hstmts => ?_⟩
  · obtain ⟨hout, hback, hover, hreturned⟩ := h.classified_at hp i v hi
    refine ⟨⟨hout, hback, hover, hreturned⟩, ?_, ?_⟩
    · rw [← hout, ← hback, ← hover, ← hreturned]
      cases v.reach <;> decide
    · rw [← hout, ← hback, ← hover, ← hreturned]
      cases v.reach <;> simp
  · refine ⟨h.dead?_self (List.mem_of_getElem? hi), h.dead?_of_ne (List.mem_of_getElem? hj) ?_⟩
    intro heq
    have hi' : (log.map (·.id))[i]? = some v.id := by simp [hi]
    have hj' : (log.map (·.id))[j]? = some v.id := by simp [hj, heq]
    obtain ⟨hli, hgi⟩ := List.getElem?_eq_some_iff.mp hi'
    obtain ⟨hlj, hgj⟩ := List.getElem?_eq_some_iff.mp hj'
    have := hids.getElem_inj_iff.mp (hgi.trans hgj.symm)
    omega
  · exact Tree.exists_takes facts (hstmts id (by simp)) fun i hi => hstmts i (by simp [hi])

/-- The statements of a scope: a return, dead code, a label that the live jump
behind them leads to, a jump out of the scope and dead code again. -/
def revivedScope : Tree where
  nodes := #[{ kind := .stmt { kind := .ret none, info := {} } },
    { kind := .stmt { kind := .empty, info := {} } },
    { kind := .stmt { kind := .label "again" [5], info := {} } },
    { kind := .stmt { kind := .jump "out" none false, info := {} } },
    { kind := .stmt { kind := .empty, info := {} } },
    { kind := .stmt { kind := .jump "again" (some 2) false, info := {} } }]

theorem classified_by_above_revived : ∃ log tr,
    Visits { scopeId := 1 } log tr ∧ log.map (·.id) = [0, 1, 2, 3, 4]
      ∧ log.map (·.facts.constantJump) = [none, none, none, some ⟨3, 3, 6, 9, 0⟩, none]
      ∧ log.map (·.reach) = [.live, .afterReturn, .live, .live, .afterJumpOut]
      ∧ ReturnsAbove log 1 1 ∧ ¬ ReturnsAbove log 1 2 ∧ JumpsOut log 1 4 := by
  have h0 : Visits { scopeId := 1 } [] { scopeId := 1 } := .nil
  have h1 := h0.visit revivedScope 0 { returns := true } .live rfl
  have h2 := (h1.visit revivedScope 1 {} .afterReturn rfl).visit revivedScope 2 {} .live rfl
  have h3 := h2.visit revivedScope 3 { constantJump := some ⟨3, 3, 6, 9, 0⟩ } .live rfl
  have h4 := h3.visit revivedScope 4 {} .afterJumpOut rfl
  have hids : List.Nodup [0, 1, 2, 3, 4] := by decide
  obtain ⟨hall, -⟩ := h4.classified_by_above hids (by
    rintro (_ | _ | _ | _ | _ | place) v hv t ht <;> cases hv <;> cases ht
    rfl)
  refine ⟨_, _, h4, rfl, rfl, rfl, ?_, ?_, ?_⟩
  · exact (hall 1 _ rfl).1.returned.mp rfl
  · exact fun hreturns => nomatch (hall 2 _ rfl).1.returned.mpr hreturns
  · exact (hall 4 _ rfl).1.out.mp rfl

end Tracker

end Lsl
