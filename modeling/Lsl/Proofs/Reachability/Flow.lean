/- # How a scope flows

What decides on the next statement of a scope is little: whether a segment is
open, for what reason and up to where, and whether some statement returns. The
flow of a tracker is just that, and classifying a statement is one step of it.

Key definitions: `Flow`, `Flow.step`, `Tracker.flow`.
Key theorems: `Tracker.classify_flow`, `Tracker.Segmented.classify`.
-/
import Lsl.Proofs.Tree.Placing

namespace Lsl

/-- Why the next statement is dead, and where that ends. -/
abbrev Blocking := Reach × Option Nat

/-- What a tracker knows of the flow of control. -/
structure Flow where
  /-- The reason of the open segment, and the place where it ends. -/
  open? : Option Blocking := none
  /-- Some statement always returns. -/
  returns : Bool := false
deriving DecidableEq, Repr

namespace Flow

/-- Whether a return is all that makes the next statement dead. -/
def onlyAfterReturn (f : Flow) (single : Bool) : Bool :=
  f.returns && !single
    && match f.open? with
      | none => true
      | some (reason, _) => reason == .afterReturn

/-- What is known of the returns, given what the next statement does. -/
def noteReturn (f : Flow) (single returns : Bool) : Bool :=
  if single then returns else f.returns || returns

/-- The flow behind the statement at `index`, which the jumps before it make dead
if `blocked` says so. -/
def step (f : Flow) (single : Bool) (blocked : Option Blocking) (index : Nat)
    (returns reached : Bool) : Flow :=
  let f := if f.onlyAfterReturn single && reached then {} else f
  match f.open? with
  | some (reason, some place) =>
    ⟨if place ≤ index then none else some (reason, some place), returns⟩
  | some (reason, none) => ⟨some (reason, none), f.noteReturn single returns⟩
  | none =>
    match blocked with
    | some (reason, some place) => ⟨some (reason, some place), returns⟩
    | some (reason, none) => ⟨some (reason, none), f.noteReturn single returns⟩
    | none =>
      if f.returns && !single then ⟨some (.afterReturn, none), true⟩ else ⟨none, returns⟩

/-- How the statement just taken up is classified. -/
def reach (f : Flow) : Reach := (f.open?.map (·.1)).getD .live

end Flow

namespace Tracker

/-- The flow that a tracker stands for. -/
def flow (tr : Tracker) : Flow where
  open? := tr.current.map fun s => (s.segment.reason, s.resumesAt)
  returns := tr.hasReturnPath

/-- Why the jumps so far make the next statement dead. -/
def blocked (tr : Tracker) : Option Blocking :=
  tr.constantJumps.findSome? (blockedBy tr.scopeId tr.nextIndex)

variable {tr : Tracker}

/-- Code that is jumped over ends behind the statement that starts it. -/
theorem lt_of_blockedBy {scopeId index place : Nat} {j : ConstantJump} {reason : Reach}
    (h : blockedBy scopeId index j = some (reason, some place)) : index < place := by
  unfold blockedBy at h
  grind

theorem lt_of_blocked {reason : Reach} {place : Nat}
    (h : tr.blocked = some (reason, some place)) : tr.nextIndex < place := by
  obtain ⟨j, -, hj⟩ := List.exists_of_findSome?_eq_some h
  exact lt_of_blockedBy hj

theorem onlyAfterReturn_eq : tr.onlyAfterReturn = tr.flow.onlyAfterReturn tr.singleStatement := by
  unfold onlyAfterReturn Flow.onlyAfterReturn flow
  rcases tr.current with _ | s <;> rfl

theorem reach_eq : tr.reach = tr.flow.reach := by
  unfold reach Flow.reach flow
  rcases tr.current with _ | s <;> rfl

theorem flow_extend (id : NodeId) (span : Span) : (tr.extend id span).flow = tr.flow := by
  unfold extend flow hasReturnPath
  rcases tr.current with _ | s <;> rfl

theorem flow_revive : tr.revive.flow = {} := by
  unfold revive flow hasReturnPath close
  rcases h : tr.current with _ | s <;> simp [h]

/-- The statements after a possible revival, up to classification. -/
theorem flow_settle (tr : Tracker) {index : Nat} (blocked : Option Blocking)
    (hb : tr.constantJumps.findSome? (blockedBy tr.scopeId index) = blocked)
    (hplace : ∀ reason place, blocked = some (reason, some place) → index < place)
    (id : NodeId) (span : Span) (returns : Bool) :
    (((tr.openAfterJump index span).noteReturn id returns span).arrive index).flow
      = tr.flow.step tr.singleStatement blocked index returns false := by
  unfold Flow.step
  rw [Bool.and_false]
  simp only [Bool.false_eq_true, ↓reduceIte]
  rcases hc : tr.current with _ | ⟨segment, _ | place⟩
  · -- no segment is open, so a jump may open one
    rcases blocked with _ | ⟨reason, _ | place⟩
    · have h1 : tr.openAfterJump index span = tr := by simp [openAfterJump, hc, hb]
      rw [h1]
      cases hs : tr.singleStatement <;> cases hr : tr.returnPath <;> cases returns <;>
        simp [noteReturn, arrive, resumesAt, flow, hasReturnPath, openSegment, hc, hs, hr]
    · have h1 : tr.openAfterJump index span = tr.openSegment reason none span := by
        simp [openAfterJump, hc, hb]
      rw [h1]
      cases hs : tr.singleStatement <;> cases hr : tr.returnPath <;> cases returns <;>
        simp [noteReturn, arrive, resumesAt, flow, hasReturnPath, openSegment, hc, hs, hr,
          Flow.noteReturn]
    · have h1 : tr.openAfterJump index span = tr.openSegment reason (some place) span := by
        simp [openAfterJump, hc, hb]
      have hlt := hplace reason place rfl
      rw [h1]
      cases returns <;>
        simp [noteReturn, arrive, resumesAt, flow, hasReturnPath, openSegment, hc,
          Nat.not_le.mpr hlt]
  · have h1 : tr.openAfterJump index span = tr := by simp [openAfterJump, hc]
    rw [h1]
    cases hs : tr.singleStatement <;> cases hr : tr.returnPath <;> cases returns <;>
      simp [noteReturn, arrive, resumesAt, flow, hasReturnPath, hc, hs, hr, Flow.noteReturn]
  · have h1 : tr.openAfterJump index span = tr := by simp [openAfterJump, hc]
    rw [h1]
    by_cases hle : place ≤ index <;> cases returns <;>
      simp [noteReturn, arrive, resumesAt, flow, hasReturnPath, close, hc, hle]

/-- **Classifying a statement is one step of the flow.** -/
theorem classify_flow (tr : Tracker) (id : NodeId) (span : Span) (returns reached : Bool) :
    (tr.classify id span returns reached).1.flow
        = tr.flow.step tr.singleStatement tr.blocked tr.nextIndex returns reached
      ∧ (tr.classify id span returns reached).2
        = (tr.flow.step tr.singleStatement tr.blocked tr.nextIndex returns reached).reach := by
  have key : (tr.classify id span returns reached).1.flow
      = tr.flow.step tr.singleStatement tr.blocked tr.nextIndex returns reached := by
    unfold classify
    simp only [flow_extend]
    have honly : onlyAfterReturn { tr with statements := tr.statements ++ [id] }
        = tr.flow.onlyAfterReturn tr.singleStatement := onlyAfterReturn_eq
    rw [honly]
    cases h : tr.flow.onlyAfterReturn tr.singleStatement && reached with
    | false =>
      simp only [Bool.false_eq_true, ↓reduceIte]
      rw [flow_settle { tr with statements := tr.statements ++ [id] } tr.blocked rfl
        fun _ _ hb => lt_of_blocked hb]
      unfold Flow.step
      rw [h, Bool.and_false]
      rfl
    | true =>
      simp only [↓reduceIte]
      rw [flow_settle _ tr.blocked (by simp [revive, blocked]) fun _ _ hb => lt_of_blocked hb,
        flow_revive]
      unfold Flow.step
      rw [h, Bool.and_false]
      simp [revive]
  refine ⟨key, ?_⟩
  rw [← key, ← reach_eq]
  rfl

/-! ### Segments have statements -/

/-- A segment starts with a statement of its scope. -/
def Starts (tr : Tracker) (s : DeadSegment) : Prop :=
  ∃ first ∈ tr.statements, s.statements.head? = some first

/-- Every segment starts with a statement of the scope. -/
structure Segmented (tr : Tracker) : Prop where
  closed : ∀ s ∈ tr.closed, tr.Starts s
  current : ∀ c ∈ tr.current, tr.Starts c.segment

/-- While a statement is taken up, the open segment may be empty, but it does
not end there. -/
structure Segmenting (tr : Tracker) (index : Nat) : Prop where
  closed : ∀ s ∈ tr.closed, tr.Starts s
  current : ∀ c ∈ tr.current,
    tr.Starts c.segment ∨ (c.segment.statements = [] ∧ ∀ place ∈ c.resumesAt, index < place)

theorem Segmented.empty (scopeId : Nat) (singleStatement : Bool) :
    Segmented { scopeId, singleStatement } := ⟨by simp, by simp⟩

theorem Segmented.close (h : tr.Segmented) : tr.close.Segmented := by
  unfold Tracker.close
  split
  · exact h
  · rename_i s hs
    refine ⟨fun seg hseg => ?_, by simp⟩
    rcases List.mem_append.mp hseg with hseg | hseg
    · exact h.closed seg hseg
    · rw [List.mem_singleton.mp hseg]
      exact h.current s hs

theorem Segmented.openAfterJump (h : tr.Segmented) (index : Nat) (span : Span) :
    (tr.openAfterJump index span).Segmenting index := by
  have hkeep : tr.Segmenting index := ⟨h.closed, fun c hc => .inl (h.current c hc)⟩
  unfold Tracker.openAfterJump
  split
  · exact hkeep
  · split
    · rename_i reason place hj
      refine ⟨h.closed, fun c hc => .inr ?_⟩
      obtain rfl : _ = c := Option.some.inj hc
      obtain ⟨j, -, hb⟩ := List.exists_of_findSome?_eq_some hj
      refine ⟨rfl, fun place hp => ?_⟩
      simp only [Option.mem_def] at hp
      exact lt_of_blockedBy (hp ▸ hb)
    · exact hkeep

theorem Segmenting.noteReturn {index : Nat} (h : tr.Segmenting index) (id : NodeId)
    (returns : Bool) (span : Span) : (tr.noteReturn id returns span).Segmenting index := by
  unfold Tracker.noteReturn
  split
  · exact ⟨h.closed, h.current⟩
  · split
    · exact ⟨h.closed, h.current⟩
    · split
      · refine ⟨h.closed, fun c hc => .inr ?_⟩
        obtain rfl : _ = c := Option.some.inj hc
        exact ⟨rfl, by simp⟩
      · exact h

theorem Segmenting.arrive {index : Nat} (h : tr.Segmenting index) :
    (tr.arrive index).Segmenting index := by
  unfold Tracker.arrive
  split
  · rename_i place hplace
    split
    · rename_i hle
      -- the segment that ends here was open before, so it is not empty
      obtain ⟨c, hc, hr⟩ := Option.bind_eq_some_iff.mp hplace
      have hstart : tr.Starts c.segment := by
        rcases h.current c hc with hs | ⟨-, hlt⟩
        · exact hs
        · exact absurd (hlt place hr) (Nat.not_lt.mpr hle)
      have hseg : Segmented tr := ⟨h.closed, fun d hd => by
        obtain rfl : c = d := Option.some.inj (hc.symm.trans hd)
        exact hstart⟩
      exact ⟨hseg.close.closed, fun d hd => .inl (hseg.close.current d hd)⟩
    · exact h
  · exact h

theorem Segmenting.extend {index : Nat} (h : tr.Segmenting index) {id : NodeId}
    (hid : id ∈ tr.statements) (span : Span) : (tr.extend id span).Segmented := by
  refine ⟨h.closed, fun c hc => ?_⟩
  obtain ⟨d, hd, rfl⟩ := Option.map_eq_some_iff.mp hc
  rcases h.current d hd with ⟨first, hf, hhead⟩ | ⟨hnil, -⟩
  · refine ⟨first, hf, ?_⟩
    obtain ⟨rest, hrest⟩ := List.head?_eq_some_iff.mp hhead
    simp [hrest]
  · exact ⟨id, hid, by simp [hnil]⟩

/-- Every segment that a tracker builds starts with a statement of its scope. -/
theorem Segmented.classify (h : tr.Segmented) (id : NodeId) (span : Span)
    (returns reached : Bool) : (tr.classify id span returns reached).1.Segmented := by
  have hbig : Segmented { tr with statements := tr.statements ++ [id] } := by
    refine ⟨fun s hs => ?_, fun c hc => ?_⟩
    · obtain ⟨first, hf, hhead⟩ := h.closed s hs
      exact ⟨first, List.mem_append_left _ hf, hhead⟩
    · obtain ⟨first, hf, hhead⟩ := h.current c hc
      exact ⟨first, List.mem_append_left _ hf, hhead⟩
  unfold Tracker.classify
  simp only
  split
  · have hrev : Segmented (revive { tr with statements := tr.statements ++ [id] }) :=
      ⟨hbig.close.closed, hbig.close.current⟩
    refine (((hrev.openAfterJump _ span).noteReturn id returns span).arrive).extend ?_ span
    rw [(sameScope_arrive _).statements, (sameScope_noteReturn _ _ _).statements,
      (sameScope_openAfterJump _ _).statements, sameScope_revive.statements]
    simp
  · refine (((hbig.openAfterJump _ span).noteReturn id returns span).arrive).extend ?_ span
    rw [(sameScope_arrive _).statements, (sameScope_noteReturn _ _ _).statements,
      (sameScope_openAfterJump _ _).statements]
    simp

theorem Segmented.record (h : tr.Segmented) (jump : Option ConstantJump) :
    (tr.record jump).Segmented := ⟨h.closed, h.current⟩

/-- The segments of a scope start with statements of it. -/
theorem Segmented.segments (h : tr.Segmented) : ∀ s ∈ tr.segments, tr.Starts s := by
  intro s hs
  obtain ⟨first, hf, hhead⟩ := h.close.closed s (List.mem_mergeSort.mp hs)
  exact ⟨first, by simpa using hf, hhead⟩

end Tracker

end Lsl
