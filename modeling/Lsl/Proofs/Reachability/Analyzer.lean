/- # A tracker is an analyzer with flags and a stack

An analyzer keeps what a tracker keeps in another form: flags for being in dead
code and in code that is jumped over, a flag and a statement for the return, and
the open segments on a stack. The flags cannot contradict the stack, and the
stack never holds more than one segment, so a tracker, which has one segment
open or none, says as much. Both classify every statement alike and end with
the same segments.

Key definitions: `Analyzer`, `Analyzer.add`, `Analyzer.finish`, `Analyzer.Mirrors`,
`Analyzer.Runs`.
Key theorems: `Analyzer.Mirrors.add`, `Tracker.Visits.runs`.
-/
import Lsl.Proofs.Reachability.Segments

namespace Lsl

/-- What is known about a scope after some of its statements, told by flags. -/
structure Analyzer where
  scopeId : Nat
  singleStatement : Bool := false
  statements : List NodeId := []
  insideDead : Bool := false
  inJumpOver : Bool := false
  /-- The place where code that is jumped over ends. -/
  jumpOverEnd : Nat := 0
  hasReturnPath : Bool := false
  returnPath : Option NodeId := none
  /-- The segments that may go on, the last one opened first. -/
  openSegments : List DeadSegment := []
  closedSegments : List DeadSegment := []
  constantJumps : List ConstantJump := []
deriving DecidableEq, Repr, Inhabited

namespace Analyzer

/-! ### Classifying statements -/

/-- Whether an earlier return is all that makes the next statement dead. -/
def afterReturnOnly (a : Analyzer) : Bool :=
  if !a.hasReturnPath || a.inJumpOver || a.singleStatement then false
  else !a.insideDead || a.openSegments.head?.any (·.reason == .afterReturn)

def openSegment (a : Analyzer) (reason : Reach) (span : Span) : Analyzer :=
  { a with
    insideDead := true
    openSegments := { reason, statements := [], span } :: a.openSegments }

/-- Closes the segment that was opened last. -/
def closeLast (a : Analyzer) : Analyzer :=
  match a.openSegments with
  | s :: rest => { a with openSegments := rest, closedSegments := a.closedSegments ++ [s] }
  | [] => a

/-- Takes back a return. -/
def revive (a : Analyzer) : Analyzer :=
  let a := { a with hasReturnPath := false, returnPath := none }
  if a.insideDead then closeLast { a with insideDead := false } else a

/-- The first jump that makes the statement at `index` unreachable. -/
def checkJumps (a : Analyzer) (index : Nat) : Analyzer × Option Reach :=
  match a.constantJumps.findSome? (Tracker.blockedBy a.scopeId index) with
  | some (reason, some place) => ({ a with inJumpOver := true, jumpOverEnd := place }, some reason)
  | some (reason, none) => (a, some reason)
  | none => (a, none)

/-- Opens a segment behind a jump, unless the code is dead already. -/
def noteJumps (a : Analyzer) (index : Nat) (span : Span) : Analyzer :=
  if a.insideDead then a
  else match a.checkJumps index with
    | (a, some reason) => a.openSegment reason span
    | (a, none) => a

def noteReturn (a : Analyzer) (id : NodeId) (returns : Bool) (span : Span) : Analyzer :=
  if !a.inJumpOver && !a.singleStatement then
    if !a.hasReturnPath && returns then { a with hasReturnPath := true, returnPath := some id }
    else if a.hasReturnPath && !a.insideDead then a.openSegment .afterReturn span
    else a
  else { a with hasReturnPath := returns, returnPath := if returns then some id else none }

/-- Classifies a statement, with which code that is jumped over may end. -/
def settle (a : Analyzer) (index : Nat) : Analyzer × Reach :=
  if a.inJumpOver && decide (a.jumpOverEnd ≤ index) then
    (closeLast { a with inJumpOver := false, insideDead := false }, .live)
  else if a.inJumpOver then (a, .jumpedOver)
  else if a.insideDead then (a, (a.openSegments.head?.map (·.reason)).getD .afterReturn)
  else (a, .live)

/-- Puts a statement into the segment that was opened last. -/
def extend (a : Analyzer) (id : NodeId) (span : Span) : Analyzer :=
  match a.openSegments with
  | s :: rest => { a with openSegments := s.push id span :: rest }
  | [] => a

/-- Appends a statement and classifies it. -/
def add (a : Analyzer) (id : NodeId) (span : Span) (facts : Facts) (reached : Bool) :
    Analyzer × Reach :=
  let index := a.statements.length
  let a := { a with statements := a.statements ++ [id] }
  let a := if a.afterReturnOnly && reached then a.revive else a
  let (a, reach) := ((a.noteJumps index span).noteReturn id facts.returns span).settle index
  let a := if reach.isDead then a.extend id span else a
  let jump := if reach.isDead then none else facts.constantJump
  ({ a with constantJumps := a.constantJumps ++ jump.toList }, reach)

/-- Closes the scope: its segments without those that hold no statement, in order. -/
def finish (a : Analyzer) : List DeadSegment :=
  ((a.closedSegments ++ a.openSegments).filter (!·.statements.isEmpty)).mergeSort
    fun a b => a.span.start ≤ b.span.start

/-! ### What the flags say -/

variable {a : Analyzer} {tr : Tracker} {id : NodeId} {span : Span}

/-- The tracker that knows what the analyzer knows. -/
def view (a : Analyzer) : Tracker where
  scopeId := a.scopeId
  singleStatement := a.singleStatement
  statements := a.statements
  returnPath := a.returnPath
  current := a.openSegments.head?.map fun segment =>
    { segment, resumesAt := if a.inJumpOver then some a.jumpOverEnd else none }
  closed := a.closedSegments
  constantJumps := a.constantJumps

/-- The analyzer says what the tracker says. Its flags agree with its stack, on which
there is one segment or none. -/
structure Mirrors (a : Analyzer) (tr : Tracker) : Prop where
  view : a.view = tr
  stack : a.openSegments.length = a.insideDead.toNat
  returns : a.hasReturnPath = a.returnPath.isSome
  dead : ∀ s ∈ a.openSegments, s.reason.isDead = true
  jumpedOver : a.inJumpOver = true → a.openSegments.map (·.reason) = [.jumpedOver]

theorem mirrors_start (scopeId : Nat) (singleStatement : Bool) :
    Mirrors { scopeId, singleStatement } { scopeId, singleStatement } :=
  ⟨rfl, rfl, rfl, by simp, by simp⟩

/-- In live code no flag is set and no segment is open; in dead code one is open. -/
theorem Mirrors.cases (h : a.Mirrors tr) :
    (a.insideDead = false ∧ a.inJumpOver = false ∧ a.openSegments = [])
      ∨ a.insideDead = true ∧ ∃ s, a.openSegments = [s] := by
  have hstack := h.stack
  cases hin : a.insideDead with
  | true =>
    rw [hin] at hstack
    exact .inr ⟨rfl, List.length_eq_one_iff.mp hstack⟩
  | false =>
    rw [hin] at hstack
    have hnil := List.length_eq_zero_iff.mp hstack
    refine .inl ⟨rfl, Bool.eq_false_iff.mpr fun hover => ?_, hnil⟩
    have := h.jumpedOver hover
    simp [hnil] at this

/-! ### One statement -/

namespace Mirrors

theorem take (h : a.Mirrors tr) (id : NodeId) :
    Mirrors { a with statements := a.statements ++ [id] }
      { tr with statements := tr.statements ++ [id] } where
  view := by rw [← h.view]; rfl
  stack := h.stack
  returns := h.returns
  dead := h.dead
  jumpedOver := h.jumpedOver

theorem afterReturnOnly (h : a.Mirrors tr) : a.afterReturnOnly = tr.onlyAfterReturn := by
  have hreturns := h.returns
  rw [← h.view]
  unfold Analyzer.afterReturnOnly Tracker.onlyAfterReturn Tracker.hasReturnPath
  simp only [Analyzer.view, ← hreturns]
  rcases h.cases with ⟨hin, hover, hopen⟩ | ⟨hin, s, hopen⟩
  · rw [hin, hover, hopen]
    cases a.hasReturnPath <;> cases a.singleStatement <;> rfl
  · have hreason := h.jumpedOver
    rw [hopen] at hreason ⊢
    rw [hin]
    cases hover : a.inJumpOver with
    | false => cases a.hasReturnPath <;> cases a.singleStatement <;> rfl
    | true =>
      -- code that is jumped over is not dead for a return
      have hjumped : s.reason = .jumpedOver := by simpa using hreason hover
      cases a.hasReturnPath <;> cases a.singleStatement <;> simp [hjumped]

theorem revive (h : a.Mirrors tr) (hover : a.inJumpOver = false) : a.revive.Mirrors tr.revive := by
  rw [← h.view]
  rcases h.cases with ⟨hin, -, hopen⟩ | ⟨hin, s, hopen⟩
  · constructor <;> simp [Analyzer.revive, Tracker.revive, Tracker.close, Analyzer.view, hin, hover,
      hopen]
  · constructor <;> simp [Analyzer.revive, Tracker.revive, Tracker.close, Analyzer.view,
      Analyzer.closeLast, hin, hover, hopen]

/-- A segment is opened only in live code, and code that is jumped over with it. -/
theorem noteJumps (h : a.Mirrors tr) (index : Nat) (span : Span) :
    (a.noteJumps index span).Mirrors (tr.openAfterJump index span) := by
  rcases h.cases with ⟨hin, hover, hopen⟩ | ⟨hin, s, hopen⟩
  · have hview := h.view
    have hcurrent : tr.current = none := by rw [← hview, Analyzer.view, hopen]; rfl
    have hjumps : tr.constantJumps.findSome? (Tracker.blockedBy tr.scopeId index)
        = a.constantJumps.findSome? (Tracker.blockedBy a.scopeId index) := by rw [← hview]; rfl
    unfold Analyzer.noteJumps Analyzer.checkJumps Tracker.openAfterJump
    rw [if_neg (by simp [hin]), hcurrent, hjumps]
    rcases hb : a.constantJumps.findSome? (Tracker.blockedBy a.scopeId index)
      with _ | ⟨reason, _ | place⟩
    · exact h
    · obtain ⟨j, -, hblock⟩ := List.exists_of_findSome?_eq_some hb
      have hdead := (Tracker.reason_of_blockedBy hblock).1
      refine ⟨?_, ?_, h.returns, ?_, ?_⟩
      · rw [← hview]
        simp [Analyzer.view, Analyzer.openSegment, Tracker.openSegment, hover]
      · simp [Analyzer.openSegment, hopen]
      · simpa [Analyzer.openSegment, hopen, Reach.isDead] using hdead
      · simp [Analyzer.openSegment, hover]
    · obtain ⟨j, -, hblock⟩ := List.exists_of_findSome?_eq_some hb
      have hjumped : reason = .jumpedOver := Tracker.jumpedOver_of_blockedBy hblock
      refine ⟨?_, ?_, h.returns, ?_, ?_⟩
      · rw [← hview]
        simp [Analyzer.view, Analyzer.openSegment, Tracker.openSegment]
      · simp [Analyzer.openSegment, hopen]
      · simp [Analyzer.openSegment, hopen, Reach.isDead, hjumped]
      · simp [Analyzer.openSegment, hopen, hjumped]
  · have hcurrent : ∃ c, tr.current = some c := by rw [← h.view, Analyzer.view, hopen]; exact ⟨_, rfl⟩
    obtain ⟨c, hc⟩ := hcurrent
    unfold Analyzer.noteJumps Tracker.openAfterJump
    rw [if_pos hin, hc]
    exact h

/-- Returns are noted alike, and one that was noted before opens a segment in live code. -/
theorem noteReturn (h : a.Mirrors tr) (id : NodeId) (returns : Bool) (span : Span) :
    (a.noteReturn id returns span).Mirrors (tr.noteReturn id returns span) := by
  have hview := h.view
  have hover : tr.resumesAt.isSome = a.inJumpOver := by
    rw [← hview]
    rcases h.cases with ⟨-, hover, hopen⟩ | ⟨-, s, hopen⟩
    · simp [Tracker.resumesAt, Analyzer.view, hopen, hover]
    · cases hover : a.inJumpOver <;> simp [Tracker.resumesAt, Analyzer.view, hopen, hover]
  have hsingle : tr.singleStatement = a.singleStatement := by rw [← hview]; rfl
  have hpath : tr.returnPath = a.returnPath := by rw [← hview]; rfl
  have hnone : tr.current.isNone = !a.insideDead := by
    rw [← hview]
    rcases h.cases with ⟨hin, -, hopen⟩ | ⟨hin, s, hopen⟩ <;> simp [Analyzer.view, hopen, hin]
  have hplain : (!a.inJumpOver && !a.singleStatement) = !(a.inJumpOver || a.singleStatement) := by
    simp
  unfold Analyzer.noteReturn Tracker.noteReturn
  rw [hover, hsingle, hpath, hnone, hplain]
  cases hlatest : a.inJumpOver || a.singleStatement with
  | true =>
    -- there the latest statement alone says whether the code returns
    refine ⟨by rw [← hview]; rfl, h.stack, ?_, h.dead, h.jumpedOver⟩
    cases returns <;> rfl
  | false =>
    have hjump : a.inJumpOver = false := (Bool.or_eq_false_iff.mp hlatest).1
    have hbefore : a.returnPath.isNone = !a.hasReturnPath := by
      rw [h.returns]
      cases a.returnPath <;> rfl
    rw [hbefore, ← h.returns]
    cases hfirst : !a.hasReturnPath && returns with
    | true => exact ⟨by rw [← hview]; rfl, h.stack, rfl, h.dead, h.jumpedOver⟩
    | false =>
      cases hopens : a.hasReturnPath && !a.insideDead with
      | false => exact h
      | true =>
        have hnil : a.openSegments = [] := by
          rcases h.cases with ⟨-, -, hopen⟩ | ⟨hin, -⟩
          · exact hopen
          · simp [hin] at hopens
        refine ⟨?_, ?_, h.returns, ?_, ?_⟩
        · rw [← hview]
          simp [Analyzer.view, Analyzer.openSegment, Tracker.openSegment, hjump]
        · simp [Analyzer.openSegment, hnil]
        · simp [Analyzer.openSegment, hnil, Reach.isDead]
        · simp [Analyzer.openSegment, hjump]

theorem extend (h : a.Mirrors tr) (id : NodeId) (span : Span) :
    (a.extend id span).Mirrors (tr.extend id span) := by
  have hview := h.view
  unfold Analyzer.extend
  rcases h.cases with ⟨-, -, hopen⟩ | ⟨-, s, hopen⟩
  · rw [hopen]
    refine ⟨?_, h.stack, h.returns, h.dead, h.jumpedOver⟩
    rw [hview]
    simp [Tracker.extend, ← hview, Analyzer.view, hopen]
  · rw [hopen]
    refine ⟨?_, ?_, h.returns, ?_, fun hover => ?_⟩
    · rw [← hview]
      simp [Tracker.extend, Analyzer.view, hopen, DeadSegment.push]
    · simpa [hopen] using h.stack
    · simpa [DeadSegment.push, hopen] using h.dead
    · simpa [DeadSegment.push, hopen] using h.jumpedOver hover

/-- Code that is jumped over ends alike, and statements are classified alike. -/
theorem settle (h : a.Mirrors tr) (index : Nat) :
    (a.settle index).1.Mirrors (tr.arrive index)
      ∧ (a.settle index).2 = (tr.arrive index).reach := by
  have hview := h.view
  unfold Analyzer.settle Tracker.arrive
  rcases h.cases with ⟨hin, hover, hopen⟩ | ⟨hin, s, hopen⟩
  · have hnone : tr.resumesAt = none := by
      rw [← hview]
      simp [Tracker.resumesAt, Analyzer.view, hopen]
    have hreach : tr.reach = .live := by
      rw [← hview]
      simp [Tracker.reach, Analyzer.view, hopen]
    rw [hnone, hin, hover]
    exact ⟨h, hreach.symm⟩
  · have hreach : tr.reach = s.reason := by
      rw [← hview]
      simp [Tracker.reach, Analyzer.view, hopen]
    cases hover : a.inJumpOver with
    | false =>
      have hnone : tr.resumesAt = none := by
        rw [← hview]
        simp [Tracker.resumesAt, Analyzer.view, hopen, hover]
      rw [hnone, hin, hopen]
      exact ⟨h, hreach.symm⟩
    | true =>
      have hplace : tr.resumesAt = some a.jumpOverEnd := by
        rw [← hview]
        simp [Tracker.resumesAt, Analyzer.view, hopen, hover]
      have hjumped : s.reason = .jumpedOver := by simpa [hopen] using h.jumpedOver hover
      rw [hplace]
      by_cases hend : a.jumpOverEnd ≤ index
      · have hclose : Mirrors (closeLast { a with inJumpOver := false, insideDead := false })
            tr.close := by
          constructor <;> simp [← hview, Analyzer.closeLast, Tracker.close, Analyzer.view, hopen,
            h.returns]
        simp only [hend, decide_true, Bool.true_and, ↓reduceIte]
        refine ⟨hclose, ?_⟩
        rw [← hview]
        simp [Tracker.reach, Tracker.close, Analyzer.view, hopen]
      · simp only [hend, decide_false, Bool.true_and, Bool.false_eq_true, ↓reduceIte]
        exact ⟨h, (hreach.trans hjumped).symm⟩

/-- A statement is put into a segment if it is dead; for a live one there is none. -/
theorem extendDead (h : a.Mirrors tr) (id : NodeId) (span : Span) :
    Mirrors (if tr.reach.isDead then a.extend id span else a) (tr.extend id span) := by
  split
  · exact h.extend id span
  · rename_i hlive
    rcases h.cases with ⟨-, -, hopen⟩ | ⟨-, s, hopen⟩
    · have hsame : tr.extend id span = tr := by
        rw [← h.view]
        simp [Tracker.extend, Analyzer.view, hopen]
      rwa [hsame]
    · have hdead := h.dead s (by simp [hopen])
      have hreach : tr.reach = s.reason := by
        rw [← h.view]
        simp [Tracker.reach, Analyzer.view, hopen]
      rw [hreach] at hlive
      exact absurd hdead hlive

theorem record (h : a.Mirrors tr) (jump : Option ConstantJump) :
    Mirrors { a with constantJumps := a.constantJumps ++ jump.toList } (tr.record jump) where
  view := by rw [← h.view]; rfl
  stack := h.stack
  returns := h.returns
  dead := h.dead
  jumpedOver := h.jumpedOver

/-- **An analyzer and a tracker take up a statement alike.** -/
theorem add (h : a.Mirrors tr) (id : NodeId) (span : Span) (facts : Facts) (reached : Bool) :
    (a.add id span facts reached).2 = (tr.classify id span facts.returns reached).2
      ∧ (a.add id span facts reached).1.Mirrors
        ((tr.classify id span facts.returns reached).1.record
          (facts.jumpOf (tr.classify id span facts.returns reached).2)) := by
  have hindex : a.statements.length = tr.nextIndex := by rw [← h.view]; rfl
  have htake := h.take id
  unfold Analyzer.add Tracker.classify
  simp only [hindex]
  generalize ({ a with statements := a.statements ++ [id] } : Analyzer) = b at htake
  generalize ({ tr with statements := tr.statements ++ [id] } : Tracker) = u at htake
  have hrevived : Mirrors (if b.afterReturnOnly && reached then b.revive else b)
      (if u.onlyAfterReturn && reached then u.revive else u) := by
    rw [← htake.afterReturnOnly]
    split
    · rename_i hrevives
      refine htake.revive (Bool.eq_false_iff.mpr fun hover => ?_)
      simp [Analyzer.afterReturnOnly, hover] at hrevives
    · exact htake
  obtain ⟨hsettled, hreach⟩ :=
    ((hrevived.noteJumps tr.nextIndex span).noteReturn id facts.returns span).settle tr.nextIndex
  have hextended := hsettled.extendDead id span
  rw [hreach]
  have hsame : ∀ u : Tracker, (u.extend id span).reach = u.reach := fun u => by
    unfold Tracker.extend Tracker.reach
    cases u.current <;> rfl
  rw [hsame]
  exact ⟨rfl, hextended.record _⟩

end Mirrors

/-! ### Runs -/

/-- The analyzer takes up the statements of the log, one after the other, and classifies
each as the log has it. -/
inductive Runs (start : Analyzer) : List Visit → Analyzer → Prop
  | nil : Runs start [] start
  | snoc {log : List Visit} {a a' : Analyzer} {v : Visit} (h : Runs start log a)
    (hv : a.add v.id v.span v.facts v.reached = (a', v.reach)) : Runs start (log ++ [v]) a'

end Analyzer

/-- **Every run of a tracker is one of an analyzer.** It classifies all statements alike,
never has more than one segment open, and ends with the same segments. -/
theorem Tracker.Visits.runs {scopeId : Nat} {singleStatement : Bool} {log : List Visit}
    {tr : Tracker} (h : Tracker.Visits { scopeId, singleStatement } log tr) :
    ∃ a, Analyzer.Runs { scopeId, singleStatement } log a ∧ a.Mirrors tr
      ∧ a.openSegments.length ≤ 1 ∧ a.finish = tr.segments := by
  obtain ⟨a, hruns, hmirrors⟩ : ∃ a, Analyzer.Runs { scopeId, singleStatement } log a
      ∧ a.Mirrors tr := by
    induction h with
    | nil => exact ⟨_, .nil, Analyzer.mirrors_start scopeId singleStatement⟩
    | @snoc log tr tr' v _ hv ih =>
      obtain ⟨a, hruns, hmirrors⟩ := ih
      obtain ⟨rfl, hreach⟩ := hv.tracker
      obtain ⟨hsame, hnext⟩ := hmirrors.add v.id v.span v.facts v.reached
      rw [← hreach] at hsame hnext
      exact ⟨_, hruns.snoc (Prod.ext rfl hsame), hnext⟩
  refine ⟨a, hruns, hmirrors, ?_, ?_⟩
  · rw [hmirrors.stack]
    exact Bool.toNat_le _
  · obtain ⟨parts, last, hseg⟩ := h.segmentation rfl rfl
    obtain ⟨parts', hended, -⟩ := hseg.ended
    have hsegments : a.closedSegments ++ a.openSegments = tr.ended := by
      rw [← hmirrors.view]
      rcases hmirrors.cases with ⟨-, -, hopen⟩ | ⟨-, s, hopen⟩ <;>
        simp [Tracker.ended, Analyzer.view, hopen]
    have hall : tr.ended.filter (fun s => !s.statements.isEmpty) = tr.ended := by
      refine List.filter_eq_self.mpr fun s hs => ?_
      obtain ⟨part, -, hholds⟩ := Tracker.exists_holds hended hs
      simpa [hholds.statements] using hholds.inhabited
    rw [Analyzer.finish, hsegments, hall, Tracker.segments, (Tracker.over_close tr).1]

end Lsl
