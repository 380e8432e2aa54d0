/- # Dead statements fall into segments

Whatever the facts about the statements of a scope are, each of its dead
statements ends up in one segment, behind the one before it and for the same
reason, and no live statement in any. What a step does to the segments is one of
three things: it ends the open one, it puts the statement into it, or it starts
a new one with the statement.

Key definitions: `Span.Hulls`, `DeadSegment.Holds`, `Partitioned`.
Key theorems: `Tracker.classify_segments`, `Tracker.Visits.segmentation`,
`Tracker.Visits.partitioned`.
-/
import Lsl.Proofs.Reachability.Jumps
import Lsl.Proofs.Reachability.Visits

namespace Lsl

/-! ### The smallest span over others -/

namespace Span

variable {s a : Span} {spans : List Span}

/-- The span starts no later and stops no earlier than the other. -/
def Covers (s a : Span) : Prop := s.start ≤ a.start ∧ a.stop ≤ s.stop

/-- The smallest span that covers all of these. -/
structure Hulls (s : Span) (spans : List Span) : Prop where
  covers : ∀ a ∈ spans, s.Covers a
  least : ∀ s' : Span, (∀ a ∈ spans, s'.Covers a) → s'.Covers s

theorem hulls_single (a : Span) : a.Hulls [a] where
  covers := by simp [Covers]
  least s' h := h a List.mem_cons_self

theorem Hulls.snoc (h : s.Hulls spans) (a : Span) : (s.cover a).Hulls (spans ++ [a]) where
  covers b hb := by
    rcases List.mem_append.mp hb with hb | hb
    · obtain ⟨hstart, hstop⟩ := h.covers b hb
      exact ⟨Nat.le_trans (Nat.min_le_left _ _) hstart, Nat.le_trans hstop (Nat.le_max_left _ _)⟩
    · rw [List.mem_singleton.mp hb]
      exact ⟨Nat.min_le_right _ _, Nat.le_max_right _ _⟩
  least s' hs' := by
    obtain ⟨hstart, hstop⟩ := h.least s' fun b hb => hs' b (List.mem_append_left _ hb)
    obtain ⟨hstart', hstop'⟩ := hs' a (by simp)
    exact ⟨Nat.le_min.mpr ⟨hstart, hstart'⟩, Nat.max_le.mpr ⟨hstop, hstop'⟩⟩

/-- Only one span is the smallest. -/
theorem Hulls.unique {s' : Span} (h : s.Hulls spans) (h' : s'.Hulls spans) : s = s' := by
  obtain ⟨h1, h2⟩ := h.least s' h'.covers
  obtain ⟨h3, h4⟩ := h'.least s h.covers
  rcases s with ⟨start, stop⟩
  rcases s' with ⟨start', stop'⟩
  obtain rfl : start = start' := Nat.le_antisymm h3 h1
  obtain rfl : stop = stop' := Nat.le_antisymm h2 h4
  rfl

end Span

/-! ### Segments and their members -/

/-- The segment holds these statements and says why they are dead and where
they stand. -/
structure DeadSegment.Holds (s : DeadSegment) (members : List Visit) : Prop where
  inhabited : members ≠ []
  statements : s.statements = members.map (·.id)
  reason : ∀ v ∈ members, v.reach = s.reason
  span : s.span.Hulls (members.map (·.span))

theorem DeadSegment.Holds.single (v : Visit) : DeadSegment.Holds ⟨v.reach, [v.id], v.span⟩ [v] where
  inhabited := by simp
  statements := rfl
  reason := by simp
  span := Span.hulls_single v.span

/-- The segment with one more statement. -/
def DeadSegment.push (s : DeadSegment) (id : NodeId) (span : Span) : DeadSegment where
  reason := s.reason
  statements := s.statements ++ [id]
  span := s.span.cover span

theorem DeadSegment.Holds.push {s : DeadSegment} {members : List Visit} (h : s.Holds members)
    {v : Visit} (hv : v.reach = s.reason) : (s.push v.id v.span).Holds (members ++ [v]) where
  inhabited := by simp
  statements := by simp [DeadSegment.push, h.statements]
  reason := List.forall_mem_append.mpr ⟨h.reason, by simp [DeadSegment.push, hv]⟩
  span := by
    rw [List.map_append]
    exact h.span.snoc v.span

/-- The statement is dead. -/
def Visit.isDead (v : Visit) : Bool := v.reach.isDead

/-- The segments of the log: each holds statements that follow one another, they
hold the dead statements, each once, and no other, and they stand in order. -/
structure Partitioned (log : List Visit) (segments : List DeadSegment) : Prop where
  runs : ∀ s ∈ segments, ∃ members, members <:+: log ∧ s.Holds members
  exact : (segments.flatMap (·.statements)).Perm ((log.filter Visit.isDead).map (·.id))
  sorted : segments.Pairwise (·.span.start ≤ ·.span.start)

namespace Tracker

variable {tr tr' : Tracker}

/-! ### One step -/

/-- The segments that are over once the open one ends. -/
def ended (tr : Tracker) : List DeadSegment := tr.closed ++ (tr.current.map (·.segment)).toList

theorem over_close (tr : Tracker) : tr.close.closed = tr.ended ∧ tr.close.current = none := by
  unfold close ended
  rcases h : tr.current with _ | s <;> simp [h]

/-- What a step does to the segments: the statement is live and the open segment
ends, or it goes on with the statement, or the statement starts another one. -/
inductive Segments (tr : Tracker) (id : NodeId) (span : Span) (tr' : Tracker) : Prop where
  | live (hcurrent : tr'.current = none) (hclosed : tr'.closed = tr.ended)
  | on (c : OpenSegment) (hc : tr.current = some c)
    (hcurrent : tr'.current = some { c with segment := c.segment.push id span })
    (hclosed : tr'.closed = tr.closed)
  | opens (reason : Reach) (resumesAt : Option Nat) (hdead : reason.isDead = true)
    (hcurrent : tr'.current = some ⟨⟨reason, [id], span⟩, resumesAt⟩)
    (hclosed : tr'.closed = tr.ended)

theorem current_extend (id : NodeId) (span : Span) :
    (tr.extend id span).current
      = tr.current.map fun c => { c with segment := c.segment.push id span } := rfl

theorem closed_extend (id : NodeId) (span : Span) : (tr.extend id span).closed = tr.closed := rfl

/-- A segment that has no statement yet starts with this one. -/
theorem push_empty (reason : Reach) (id : NodeId) (span : Span) :
    DeadSegment.push ⟨reason, [], span⟩ id span = ⟨reason, [id], span⟩ := by
  simp [DeadSegment.push]

/-- While a segment is open, nothing else is opened. -/
theorem noteReturn_of_open {c : OpenSegment} (hc : tr.current = some c) (id : NodeId)
    (returns : Bool) (span : Span) :
    (tr.noteReturn id returns span).current = some c
      ∧ (tr.noteReturn id returns span).closed = tr.closed := by
  unfold noteReturn
  split
  · exact ⟨hc, rfl⟩
  · split
    · exact ⟨hc, rfl⟩
    · rw [if_neg (by simp [hc])]
      exact ⟨hc, rfl⟩

/-- A return opens a segment if none is open and no return was seen. -/
theorem noteReturn_of_none (hc : tr.current = none) (id : NodeId) (returns : Bool) (span : Span) :
    (tr.noteReturn id returns span).closed = tr.closed
      ∧ ((tr.noteReturn id returns span).current = none
        ∨ (tr.noteReturn id returns span).current = some ⟨⟨.afterReturn, [], span⟩, none⟩) := by
  unfold noteReturn
  split
  · exact ⟨rfl, .inl hc⟩
  · split
    · exact ⟨rfl, .inl hc⟩
    · split
      · exact ⟨rfl, .inr rfl⟩
      · exact ⟨rfl, .inl hc⟩

theorem arrive_of_none (hc : tr.current = none) (index : Nat) : tr.arrive index = tr := by
  simp [arrive, resumesAt, hc]

/-- A segment ends at the place it knows, and goes on before it. -/
theorem arrive_cases {c : OpenSegment} (hc : tr.current = some c) (index : Nat) :
    tr.arrive index = tr
      ∨ tr.arrive index = tr.close ∧ ∃ place, c.resumesAt = some place ∧ place ≤ index := by
  unfold arrive
  rw [show tr.resumesAt = c.resumesAt by simp [resumesAt, hc]]
  rcases hplace : c.resumesAt with _ | place
  · exact .inl rfl
  · by_cases hle : place ≤ index
    · exact .inr ⟨by simp [hle], place, rfl, hle⟩
    · exact .inl (by simp [hle])

/-- A step that no revival comes before. -/
theorem segments_settle (tr : Tracker) (index : Nat) (id : NodeId) (span : Span) (returns : Bool) :
    Segments tr id span
      ((((tr.openAfterJump index span).noteReturn id returns span).arrive index).extend id
        span) := by
  rcases hc : tr.current with _ | c
  · have hover : tr.ended = tr.closed := by simp [ended, hc]
    rcases hb : tr.constantJumps.findSome? (blockedBy tr.scopeId index) with _ | ⟨reason, place⟩
    · have hjump : tr.openAfterJump index span = tr := by simp [openAfterJump, hc, hb]
      rw [hjump]
      obtain ⟨hclosed, hcurrent | hcurrent⟩ := noteReturn_of_none hc id returns span
      · rw [arrive_of_none hcurrent]
        refine .live ?_ ?_
        · rw [current_extend, hcurrent]
          rfl
        · rw [closed_extend, hclosed, hover]
      · obtain hstay | ⟨-, place, hplace, -⟩ := arrive_cases hcurrent index
        · rw [hstay]
          refine .opens .afterReturn none rfl ?_ ?_
          · rw [current_extend, hcurrent, Option.map_some, push_empty]
          · rw [closed_extend, hclosed, hover]
        · cases hplace
    · have hjump : tr.openAfterJump index span = tr.openSegment reason place span := by
        simp [openAfterJump, hc, hb]
      obtain ⟨j, -, hblock⟩ := List.exists_of_findSome?_eq_some hb
      have hopened : (tr.openSegment reason place span).current
          = some ⟨⟨reason, [], span⟩, place⟩ := rfl
      obtain ⟨hcurrent, hclosed⟩ := noteReturn_of_open hopened id returns span
      rw [hjump]
      obtain hstay | ⟨-, end', hend, hle⟩ := arrive_cases hcurrent index
      · rw [hstay]
        refine .opens reason place (by simpa [Reach.isDead] using (reason_of_blockedBy hblock).1)
          ?_ ?_
        · rw [current_extend, hcurrent, Option.map_some, push_empty]
        · rw [closed_extend, hclosed, hover]
          rfl
      · -- what a jump leads over ends behind the statement that starts it
        obtain rfl : place = some end' := hend
        exact absurd (lt_of_blockedBy hblock) (Nat.not_lt.mpr hle)
  · have hjump : tr.openAfterJump index span = tr := by simp [openAfterJump, hc]
    obtain ⟨hcurrent, hclosed⟩ := noteReturn_of_open hc id returns span
    rw [hjump]
    obtain hstay | ⟨hend, -⟩ := arrive_cases hcurrent index
    · rw [hstay]
      refine .on c hc ?_ ?_
      · rw [current_extend, hcurrent, Option.map_some]
      · rw [closed_extend, hclosed]
    · obtain ⟨hover, hnone⟩ := over_close (tr.noteReturn id returns span)
      rw [hend]
      refine .live ?_ ?_
      · rw [current_extend, hnone]
        rfl
      · rw [closed_extend, hover, ended, hclosed, hcurrent, ended, hc]

theorem over_revive (tr : Tracker) : tr.revive.ended = tr.ended ∧ tr.revive.current = none := by
  obtain ⟨hover, hnone⟩ := over_close tr
  have hcurrent : tr.revive.current = none := hnone
  have hclosed : tr.revive.closed = tr.ended := hover
  refine ⟨?_, hcurrent⟩
  rw [ended, hcurrent, hclosed]
  simp

/-- **What a step does to the segments.** -/
theorem classify_segments (tr : Tracker) (id : NodeId) (span : Span) (returns reached : Bool) :
    Segments tr id span (tr.classify id span returns reached).1 := by
  have hsame : ∀ {tr' : Tracker},
      Segments { tr with statements := tr.statements ++ [id] } id span tr' →
        Segments tr id span tr' := fun h => by
    cases h with
    | live hcurrent hclosed => exact .live hcurrent hclosed
    | on c hc hcurrent hclosed => exact .on c hc hcurrent hclosed
    | opens reason resumesAt hdead hcurrent hclosed =>
      exact .opens reason resumesAt hdead hcurrent hclosed
  unfold classify
  simp only
  split
  · obtain ⟨hover, hnone⟩ := over_revive { tr with statements := tr.statements ++ [id] }
    refine hsame ?_
    cases segments_settle (revive { tr with statements := tr.statements ++ [id] }) tr.nextIndex id
      span returns with
    | live hcurrent hclosed => exact .live hcurrent (hclosed.trans hover)
    | on c hc =>
      rw [hnone] at hc
      cases hc
    | opens reason resumesAt hdead hcurrent hclosed =>
      exact .opens reason resumesAt hdead hcurrent (hclosed.trans hover)
  · exact hsame (segments_settle _ _ id span returns)

end Tracker

/-! ### Runs -/

/-- The dead statements so far: those of the segments that are over, each of them
a run of statements, and those of the open segment, which end the log. -/
structure Segmentation (log : List Visit) (tr : Tracker) (parts : List (List Visit))
    (last : List Visit) : Prop where
  closed : List.Forall₂ DeadSegment.Holds tr.closed parts
  current : ∀ c ∈ tr.current, c.segment.reason.isDead = true ∧ c.segment.Holds last
  none : tr.current = none → last = []
  runs : ∀ part ∈ parts, part <:+: log
  ends : last <:+ log
  exact : log.filter Visit.isDead = parts.flatten ++ last

namespace Segmentation

variable {log : List Visit} {tr tr' : Tracker} {parts : List (List Visit)} {last : List Visit}
  {v : Visit}

/-- The segments that are over once the open one ends, with their statements. -/
theorem ended (h : Segmentation log tr parts last) :
    ∃ parts', List.Forall₂ DeadSegment.Holds tr.ended parts' ∧ (∀ part ∈ parts', part <:+: log)
      ∧ parts'.flatten = parts.flatten ++ last := by
  rcases hc : tr.current with _ | c
  · refine ⟨parts, by simpa [Tracker.ended, hc] using h.closed, h.runs, ?_⟩
    rw [h.none hc, List.append_nil]
  · refine ⟨parts ++ [last], ?_, ?_, by simp⟩
    · rw [Tracker.ended, hc]
      exact List.rel_append h.closed (.cons (h.current c hc).2 .nil)
    · exact List.forall_mem_append.mpr ⟨h.runs, by simpa using h.ends.isInfix⟩

theorem snoc (h : Segmentation log tr parts last)
    (hsegments : Tracker.Segments tr v.id v.span tr') (hreach : v.reach = tr'.reach) :
    ∃ parts' last', Segmentation (log ++ [v]) tr' parts' last' := by
  have hlog : log <+: log ++ [v] := List.prefix_append log [v]
  cases hsegments with
  | live hcurrent hclosed =>
    obtain ⟨parts', hover, hruns, hflat⟩ := h.ended
    have hlive : v.reach = .live := by rw [hreach, Tracker.reach, hcurrent]
    refine ⟨parts', [], hclosed ▸ hover, by simp [hcurrent], fun _ => rfl,
      fun part hpart => (hruns part hpart).trans hlog.isInfix, List.nil_suffix, ?_⟩
    rw [List.filter_append, h.exact, hflat]
    simp [Visit.isDead, hlive, Reach.isDead]
  | on c hc hcurrent hclosed =>
    obtain ⟨hdead, hholds⟩ := h.current c hc
    have hreason : v.reach = c.segment.reason := by
      rw [hreach, Tracker.reach, hcurrent]
      rfl
    refine ⟨parts, last ++ [v], hclosed ▸ h.closed, ?_, by simp [hcurrent],
      fun part hpart => (h.runs part hpart).trans hlog.isInfix, ?_, ?_⟩
    · rw [hcurrent]
      rintro _ ⟨rfl⟩
      exact ⟨hdead, hholds.push hreason⟩
    · obtain ⟨front, rfl⟩ := h.ends
      exact ⟨front, by simp⟩
    · rw [List.filter_append, h.exact]
      simp [Visit.isDead, hreason, hdead]
  | opens reason resumesAt hdead hcurrent hclosed =>
    obtain ⟨parts', hover, hruns, hflat⟩ := h.ended
    have hreason : v.reach = reason := by rw [hreach, Tracker.reach, hcurrent]
    refine ⟨parts', [v], hclosed ▸ hover, ?_, by simp [hcurrent],
      fun part hpart => (hruns part hpart).trans hlog.isInfix, List.suffix_append log [v], ?_⟩
    · rw [hcurrent]
      rintro _ ⟨rfl⟩
      exact ⟨hdead, hreason ▸ DeadSegment.Holds.single v⟩
    · rw [List.filter_append, h.exact, hflat]
      simp [Visit.isDead, hreason, hdead]

end Segmentation

namespace Tracker

variable {start tr tr' : Tracker} {log : List Visit}

theorem takes_segments {v : Visit} (hv : v.Takes tr tr') :
    Segments tr v.id v.span tr' ∧ v.reach = tr'.reach := by
  obtain ⟨rfl, hreach⟩ := hv.tracker
  have hsegments := classify_segments tr v.id v.span v.facts.returns v.reached
  refine ⟨?_, hreach⟩
  cases hsegments with
  | live hcurrent hclosed => exact .live hcurrent hclosed
  | on c hc hcurrent hclosed => exact .on c hc hcurrent hclosed
  | opens reason resumesAt hdead hcurrent hclosed =>
    exact .opens reason resumesAt hdead hcurrent hclosed

theorem Visits.segmentation (h : Visits start log tr) (hcurrent : start.current = none)
    (hclosed : start.closed = []) : ∃ parts last, Segmentation log tr parts last := by
  induction h with
  | nil =>
    refine ⟨[], [], ?_, by simp [hcurrent], fun _ => rfl, by simp, List.nil_suffix, rfl⟩
    rw [hclosed]
    exact .nil
  | snoc _ hv ih =>
    obtain ⟨parts, last, hseg⟩ := ih
    obtain ⟨hsegments, hreach⟩ := takes_segments hv
    exact hseg.snoc hsegments hreach

theorem flatMap_statements {segments : List DeadSegment} {parts : List (List Visit)}
    (h : List.Forall₂ DeadSegment.Holds segments parts) :
    segments.flatMap (·.statements) = parts.flatten.map (·.id) := by
  induction h with
  | nil => rfl
  | cons hholds _ ih => simp [hholds.statements, ih]

theorem exists_holds {segments : List DeadSegment} {parts : List (List Visit)}
    (h : List.Forall₂ DeadSegment.Holds segments parts) {s : DeadSegment} (hs : s ∈ segments) :
    ∃ part ∈ parts, s.Holds part := by
  induction h with
  | nil => cases hs
  | cons hholds _ ih =>
    rcases List.mem_cons.mp hs with rfl | hs
    · exact ⟨_, List.mem_cons_self, hholds⟩
    · obtain ⟨part, hpart, hh⟩ := ih hs
      exact ⟨part, List.mem_cons_of_mem _ hpart, hh⟩

theorem sorted_segments (tr : Tracker) :
    tr.segments.Pairwise (·.span.start ≤ ·.span.start) := by
  have hsorted : tr.segments.Pairwise fun a b => decide (a.span.start ≤ b.span.start) = true := by
    refine List.pairwise_mergeSort ?_ ?_ tr.close.closed
    · intro a b c hab hbc
      simp only [decide_eq_true_eq] at *
      omega
    · intro a b
      simp only [Bool.or_eq_true, decide_eq_true_eq]
      omega
  exact hsorted.imp fun h => of_decide_eq_true h

/-- **The segments of a scope partition its dead statements.** -/
theorem Visits.partitioned (h : Visits start log tr) (hcurrent : start.current = none)
    (hclosed : start.closed = []) : Partitioned log tr.segments := by
  obtain ⟨parts, last, hseg⟩ := h.segmentation hcurrent hclosed
  obtain ⟨parts', hover, hruns, hflat⟩ := hseg.ended
  have hperm : tr.segments.Perm tr.ended := by
    rw [segments, (over_close tr).1]
    exact List.mergeSort_perm _ _
  refine ⟨fun s hs => ?_, ?_, sorted_segments tr⟩
  · obtain ⟨part, hpart, hholds⟩ := exists_holds hover (hperm.mem_iff.mp hs)
    exact ⟨part, hruns part hpart, hholds⟩
  · refine (hperm.flatMap_right _).trans ?_
    rw [flatMap_statements hover, hflat, ← hseg.exact]

end Tracker

end Lsl
