/- # Runs of a tracker

A tracker takes up one statement after the other. Between two statements the
tree may have grown, so each visit names the tree that it found and the tree
that it left. The log of a run is what was put in and what came out.

Key definitions: `Visit`, `Tracker.Visits`.
Key theorems: `Visit.Takes.tracker`, `Visit.Takes.dead?`, `Tracker.Visits.statements`.
-/
import Lsl.Proofs.Reachability.Flow

namespace Lsl

/-! ### What a tree shows of a statement -/

namespace Tree

variable {t : Tree} {id i : NodeId}

/-- How the tree has a statement classified. -/
def dead? (t : Tree) (id : NodeId) : Option Reach := (t.stmt? id).map (·.info.dead)

theorem stmt?_modifyStmt (f : StmtNode → StmtNode) :
    (t.modifyStmt id f).stmt? i = if i = id then (t.stmt? i).map f else t.stmt? i := by
  unfold modifyStmt stmt? kind?
  rw [node?_modifyKind]
  by_cases hi : i = id
  · rw [if_pos hi, if_pos hi]
    rcases t.node? i with _ | ⟨kind, span, parent, flag⟩
    · rfl
    · cases kind <;> rfl
  · rw [if_neg hi, if_neg hi]

theorem dead?_unsetLast? (last : Option NodeId) : (t.unsetLast? last).dead? i = t.dead? i := by
  rcases last with _ | last
  · rfl
  · simp only [unsetLast?, dead?, stmt?_unsetLast, Option.map_map]
    rfl

theorem dead?_place (info : StmtInfo) (always : Bool) :
    (t.place id info always).dead? i
      = if i = id then (t.dead? i).map fun _ => info.dead else t.dead? i := by
  simp only [place, dead?, stmt?_modifyStmt]
  by_cases hi : i = id
  · simp only [if_pos hi, Option.map_map]
    rfl
  · simp only [if_neg hi]

end Tree

/-! ### Visits -/

/-- A statement that a tracker took up. -/
structure Visit where
  /-- The tree as the visit found it. -/
  tree : Tree
  id : NodeId
  facts : Facts
  /-- The tree as the visit left it. -/
  after : Tree
  reach : Reach

namespace Visit

variable {v : Visit} {tr tr' : Tracker}

/-- The statement is a label which a live jump leads to. -/
def reached (v : Visit) : Bool := v.tree.reachedByLiveJump v.id

def span (v : Visit) : Span := v.tree.span v.id

/-- The visit appends its statement and takes the tracker on. -/
def Takes (v : Visit) (tr tr' : Tracker) : Prop :=
  v.tree.append tr v.id v.facts = ⟨v.after, tr', .ok v.reach⟩

/-- The tracker after a visit, and what came out. -/
theorem Takes.tracker (h : v.Takes tr tr') :
    tr' = (tr.classify v.id v.span v.facts.returns v.reached).1.record (v.facts.jumpOf v.reach)
      ∧ v.reach = (tr.classify v.id v.span v.facts.returns v.reached).2 := by
  obtain ⟨s, c, -, hc, rfl, -⟩ := Tree.append_ok h
  rw [show tr.classify v.id v.span v.facts.returns v.reached = (c, v.reach) from hc]
  exact ⟨rfl, rfl⟩

/-- A visit classifies its own statement and no other. -/
theorem Takes.dead? (h : v.Takes tr tr') (i : NodeId) :
    v.after.dead? i = if i = v.id then some v.reach else v.tree.dead? i := by
  obtain ⟨s, c, hs, -, -, hafter⟩ := Tree.append_ok h
  rw [hafter, Tree.dead?_place, Tree.dead?_unsetLast?]
  by_cases hi : i = v.id
  · subst hi
    simp [Tree.dead?, hs, Tree.placeInfo]
  · rw [if_neg hi, if_neg hi]

/-- What a visit leaves of the scope. -/
theorem Takes.scope (h : v.Takes tr tr') :
    tr'.scopeId = tr.scopeId ∧ tr'.singleStatement = tr.singleStatement
      ∧ tr'.statements = tr.statements ++ [v.id]
      ∧ tr'.constantJumps = tr.constantJumps ++ (v.facts.jumpOf v.reach).toList := by
  obtain ⟨rfl, -⟩ := h.tracker
  have hsame := Tracker.sameScope_classify tr v.id v.span v.facts.returns v.reached
  have hjumps : (tr.classify v.id v.span v.facts.returns v.reached).1.constantJumps
      = tr.constantJumps := hsame.constantJumps
  exact ⟨hsame.scopeId, hsame.singleStatement, hsame.statements, by simp [Tracker.record, hjumps]⟩

end Visit

/-- What appending a statement to a tree puts in and brings out. -/
def Tree.visit (t : Tree) (tr : Tracker) (id : NodeId) (facts : Facts) (reach : Reach) : Visit where
  tree := t
  id := id
  facts := facts
  after := (t.append tr id facts).tree
  reach := reach

theorem Tree.visit_takes {t : Tree} {tr : Tracker} {id : NodeId} {facts : Facts} {reach : Reach}
    (h : (t.append tr id facts).outcome = .ok reach) :
    (t.visit tr id facts reach).Takes tr (t.append tr id facts).tracker := by
  unfold Visit.Takes visit
  simp only [← h]

/-- Statements are always taken up. -/
theorem Tree.exists_takes {t : Tree} {tr : Tracker} {id : NodeId} (facts : Facts)
    (hid : (t.stmt? id).isSome) (hlast : ∀ i ∈ tr.statements, (t.stmt? i).isSome) :
    ∃ (v : Visit) (tr' : Tracker), v.tree = t ∧ v.id = id ∧ v.facts = facts ∧ v.Takes tr tr' := by
  have hl : tr.statements.getLast?.filter (fun last => (t.stmt? last).isNone) = none := by
    refine Option.filter_eq_none_iff.mpr fun last hmem => ?_
    have := hlast last (List.mem_of_getLast? hmem)
    simpa [Option.isSome_iff_ne_none] using this
  have happ : t.append tr id facts = _ := append_eq hl rfl
  rw [if_neg (by simpa [Option.isSome_iff_ne_none] using hid)] at happ
  exact ⟨_, _, rfl, rfl, rfl, visit_takes (congrArg Appended.outcome happ)⟩

namespace Tracker

/-- The tracker takes up the statements of the log, one after the other. -/
inductive Visits (start : Tracker) : List Visit → Tracker → Prop where
  | nil : Visits start [] start
  | snoc {log : List Visit} {tr tr' : Tracker} {v : Visit} (h : Visits start log tr)
    (hv : v.Takes tr tr') : Visits start (log ++ [v]) tr'

variable {start tr : Tracker} {log : List Visit}

theorem Visits.visit (h : Visits start log tr) (t : Tree) (id : NodeId) (facts : Facts)
    (reach : Reach) (hreach : (t.append tr id facts).outcome = .ok reach) :
    Visits start (log ++ [t.visit tr id facts reach]) (t.append tr id facts).tracker :=
  h.snoc (Tree.visit_takes hreach)

theorem Visits.scope (h : Visits start log tr) :
    tr.scopeId = start.scopeId ∧ tr.singleStatement = start.singleStatement := by
  induction h with
  | nil => exact ⟨rfl, rfl⟩
  | snoc _ hv ih => exact ⟨hv.scope.1.trans ih.1, hv.scope.2.1.trans ih.2⟩

theorem Visits.statements (h : Visits start log tr) :
    tr.statements = start.statements ++ log.map (·.id) := by
  induction h with
  | nil => simp
  | snoc _ hv ih => simp [hv.scope.2.2.1, ih]

end Tracker

end Lsl
