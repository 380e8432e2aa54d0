/- # Labels know their jumps

A jump is noted on its label when it is made, and notes are never taken back. So
a label knows the jumps that lead to it, and no others.

Key definitions: `Tree.Noted`, `Tree.Notes`.
Key theorems: `Acts.notes`, `Acts.jumps_of_noted`.
-/
import Lsl.Proofs.Check.Effects
import Lsl.Proofs.Check.Uses

namespace Lsl

variable {script : Script} {library : Catalog} {t : Tree} {j l : Nat}

namespace Tree

/-- The jump `j` is noted on the label. -/
def Noted (t : Tree) (j label : NodeId) : Prop :=
  ∃ name jumps info, t.stmt? label = some ⟨.label name jumps, info⟩ ∧ j ∈ jumps

/-- Every jump to the label is noted on it. -/
def Notes (t : Tree) (label : NodeId) : Prop := ∀ j, t.Jumps j label → t.Noted j label

theorem Jumps.has (h : t.Jumps j l) : t.Has j := by
  obtain ⟨name, always, info, hj⟩ := h
  exact has_of_kind? (stmt?_eq_some.mp hj)

/-- A jump leads to a label. -/
theorem Jumps.label {roots : List NodeId} (h : t.Jumps j l)
    (hs : t.Shaped script library roots) : ∃ s, t.stmt? l = some s ∧ s.kind.isLabel = true := by
  obtain ⟨name, always, info, hj⟩ := h
  exact hs.formed j _ (stmt?_eq_some.mp hj) l rfl

/-- Only a jump refers to a label. -/
theorem jumps_of_target? {roots : List NodeId} {s : StmtNode} (hs : t.Shaped script library roots)
    (hl : t.stmt? l = some s) (hlabel : s.kind.isLabel = true) (h : t.target? j = some l) :
    t.Jumps j l := by
  rcases target?_cases hs h with ⟨-, v, hv⟩ | ⟨-, hsort⟩ | ⟨hjump, -⟩
  · rcases s with ⟨kind, info⟩
    cases kind <;> cases hlabel
    rw [var?, stmt?_eq_some.mp hl] at hv
    cases hv
  · rw [sort?_of_kind? (stmt?_eq_some.mp hl)] at hsort
    cases hsort
  · exact hjump

end Tree

variable {p : Progress}

/-- The kind that a new node is made with. -/
theorem NodeKind.eq_jump_of_outline {k : NodeKind} {name : String} {l : Option NodeId}
    {always : Bool} {info : StmtInfo} (hnew : k.outline = k)
    (h : outline (.stmt ⟨.jump name l always, info⟩) = k.outline) :
    k = .stmt ⟨.jump name l false, {}⟩ := by
  rw [← hnew, ← h]
  rfl

/-- A label knows the jumps that lead to it. -/
theorem Acts.notes (h : Acts script library {} p) : ∀ l, p.run.tree.Notes l := by
  intro l j hjump
  obtain ⟨⟨kind, info⟩, hs, hlabel⟩ := hjump.label (Acts.shaped h)
  have hmem := (Acts.notesUses h j l).mpr hjump.target?
  rw [Tree.uses_of_kind? (Tree.stmt?_eq_some.mp hs)] at hmem
  cases kind <;> cases hlabel
  exact ⟨_, _, info, hs, hmem⟩

end Lsl
