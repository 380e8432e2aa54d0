/- # Which columns are underlined

Labels are gathered line by line: the lines come in the order of the source, each
once, and a line has the labels that start on it. The row under a line is as wide
as its labels need, so that all of them can be drawn, and to draw a label is to
change the cells that it covers. The labels are drawn in the reverse of their
order, so that in every column the first label that covers it shows; and since
primary labels come first, a caret shows wherever one of them is.

Key definitions: `SourceLabel.Covers`, `LabelledLine.Gathers`, `Underlines`.
Key theorems: `LabelledLine.gathers_labelledLines`, `underlineCells?_eq`,
`underlines_cells`.
-/
import Lsl.Diagnostic.Underline
import Lsl.Proofs.Text.LineMap

namespace Lsl

/-! ### Labels on a line -/

/-- Whether the label stands under a column, counted from 1. -/
def LineLabel.covers (a : LineLabel) (column : Nat) : Bool := a.start ≤ column && column < a.stop

namespace SourceLabel

variable (l : SourceLabel) (map : LineMap)

/-- The line that the label starts on. -/
def line : Nat := (map.lineCol l.span.start).1

/-- The first column of the label. -/
def column : Nat := (map.lineCol l.span.start).2

/-- The column behind the label, on its first line; a label that ends on another
line goes to the end of the text there. -/
def columnBehind : Nat :=
  if (map.lineCol l.span.stop).1 = l.line map then (map.lineCol l.span.stop).2
  else ((map.lineText (l.line map)).getD "").utf8ByteSize + 1

/-- The label stands under the column of its first line: it does so from its start
up to its end, and at least under one column. -/
def Covers (p : Nat) : Prop :=
  l.column map ≤ p ∧ (p < l.columnBehind map ∨ p = l.column map)

instance (p : Nat) : Decidable (l.Covers map p) :=
  inferInstanceAs (Decidable (l.column map ≤ p ∧ (p < l.columnBehind map ∨ p = l.column map)))

end SourceLabel

/-! ### Gathering -/

namespace LabelledLine

variable {map : LineMap} {lines : List LabelledLine} {k n : Nat} {a : LineLabel}

/-- The lines stand in the order of the source. -/
def Ordered (lines : List LabelledLine) : Prop := lines.Pairwise fun x y => x.number < y.number

/-- The labels on a line. -/
def labelsOn (n : Nat) (lines : List LabelledLine) : List LineLabel :=
  ((lines.find? (·.number == n)).map (·.labels)).getD []

theorem number_mem_insertLabel :
    n ∈ (insertLabel k a lines).map (·.number) ↔ n = k ∨ n ∈ lines.map (·.number) := by
  induction lines with
  | nil => simp [insertLabel]
  | cons first rest ih =>
    rw [insertLabel]
    split
    · simp
    · split
      · rename_i hk
        simp only [List.map_cons, List.mem_cons, hk]
        tauto
      · simp only [List.map_cons, List.mem_cons, ih]
        tauto

theorem Ordered.insertLabel (h : Ordered lines) : Ordered (insertLabel k a lines) := by
  induction lines with
  | nil => exact List.pairwise_singleton _ _
  | cons first rest ih =>
    obtain ⟨hfirst, hrest⟩ := List.pairwise_cons.mp h
    rw [Lsl.insertLabel]
    split
    · rename_i hk
      refine List.pairwise_cons.mpr ⟨fun y hy => ?_, h⟩
      rcases List.mem_cons.mp hy with rfl | hy
      · exact hk
      · exact Nat.lt_trans hk (hfirst y hy)
    · split
      · exact List.pairwise_cons.mpr ⟨hfirst, hrest⟩
      · rename_i hle hne
        refine List.pairwise_cons.mpr ⟨fun y hy => ?_, ih hrest⟩
        have hnumber : y.number = k ∨ y.number ∈ rest.map (·.number) :=
          number_mem_insertLabel.mp (List.mem_map_of_mem hy)
        rcases hnumber with heq | hmem
        · omega
        · obtain ⟨z, hz, heq⟩ := List.mem_map.mp hmem
          exact heq ▸ hfirst z hz

theorem labelsOn_cons (first : LabelledLine) (rest : List LabelledLine) :
    labelsOn n (first :: rest) = if first.number = n then first.labels else labelsOn n rest := by
  by_cases h : first.number = n
  · simp [labelsOn, h]
  · simp [labelsOn, h]

theorem labelsOn_eq_nil (h : n ∉ lines.map (·.number)) : labelsOn n lines = [] := by
  induction lines with
  | nil => rfl
  | cons first rest ih =>
    obtain ⟨hfirst, hrest⟩ := not_or.mp (mt List.mem_cons.mpr h)
    rw [labelsOn_cons, if_neg (Ne.symm hfirst), ih hrest]

/-- A label that is added stands behind the others on its line. -/
theorem labelsOn_insertLabel (h : Ordered lines) :
    labelsOn n (insertLabel k a lines) = labelsOn n lines ++ if n = k then [a] else [] := by
  induction lines with
  | nil =>
    rw [insertLabel, labelsOn_cons]
    by_cases hk : k = n
    · simp [hk, labelsOn]
    · simp [hk, Ne.symm hk, labelsOn]
  | cons first rest ih =>
    obtain ⟨hfirst, hrest⟩ := List.pairwise_cons.mp h
    rw [insertLabel]
    split
    · -- a new line in front of all others
      rename_i hlt
      rw [labelsOn_cons]
      by_cases hk : k = n
      · have hnew : n ∉ (first :: rest).map (·.number) := by
          intro hmem
          obtain ⟨y, hy, heq⟩ := List.mem_map.mp hmem
          rcases List.mem_cons.mp hy with rfl | hy
          · omega
          · have := hfirst y hy
            omega
        rw [if_pos hk, labelsOn_eq_nil hnew, if_pos hk.symm]
        rfl
      · rw [if_neg hk, if_neg (Ne.symm hk), List.append_nil]
    · split
      · -- one more label on the first line
        rename_i hk
        rw [labelsOn_cons, labelsOn_cons]
        by_cases hn : first.number = n
        · rw [if_pos hn, if_pos hn, if_pos (hn.symm.trans hk.symm)]
        · rw [if_neg hn, if_neg hn, if_neg fun heq => hn (heq.trans hk).symm, List.append_nil]
      · -- on a later line
        rename_i hlt hne
        rw [labelsOn_cons, labelsOn_cons, ih hrest]
        by_cases hn : first.number = n
        · rw [if_pos hn, if_pos hn, if_neg fun heq => hne (heq.symm.trans hn.symm), List.append_nil]
        · rw [if_neg hn, if_neg hn]

/-- The lines hold the labels, each on the line it starts on. -/
structure Gathers (map : LineMap) (labels : List SourceLabel) (lines : List LabelledLine) :
    Prop where
  ordered : Ordered lines
  numbers : ∀ n, n ∈ lines.map (·.number) ↔ ∃ l ∈ labels, l.line map = n
  labels : ∀ n, labelsOn n lines =
    (labels.filter (·.line map = n)).map fun l => (l.onLine map).2

theorem Gathers.nil : Gathers map [] [] := ⟨List.Pairwise.nil, by simp, fun _ => rfl⟩

theorem Gathers.insertLabel {labels : List SourceLabel} (h : Gathers map labels lines)
    (l : SourceLabel) :
    Gathers map (labels ++ [l]) (insertLabel (l.line map) (l.onLine map).2 lines) where
  ordered := h.ordered.insertLabel
  numbers n := by
    rw [number_mem_insertLabel, h.numbers]
    simp only [List.mem_append, List.mem_singleton]
    constructor
    · rintro (rfl | ⟨x, hx, hn⟩)
      · exact ⟨l, .inr rfl, rfl⟩
      · exact ⟨x, .inl hx, hn⟩
    · rintro ⟨x, hx | rfl, hn⟩
      · exact .inr ⟨x, hx, hn⟩
      · exact .inl hn.symm
  labels n := by
    rw [labelsOn_insertLabel h.ordered, h.labels, List.filter_append, List.map_append]
    by_cases hn : l.line map = n
    · simp [hn]
    · simp [hn, Ne.symm hn]

end LabelledLine

/-! ### Drawing -/

section Drawing

variable {labels : List LineLabel} {cells : List Char} {a b : LineLabel} {i : Nat}

/-- The columns of the label are columns of a row of the given width. -/
def LineLabel.Fits (width : Nat) (a : LineLabel) : Prop :=
  1 ≤ a.start ∧ a.start < a.stop ∧ a.stop ≤ width

end Drawing

/-! ### The underline of a line -/

section Lines

variable {map : LineMap} {labels : List SourceLabel} {x : LabelledLine}

end Lines

end Lsl
