/- # What the text of code holds

The text of an expression holds the text of each expression inside it, and the
lines of a statement hold the text of the expressions that stand in it.

Key definitions: `Text.Holds`, `OutputLine.Shows`.
Key theorems: `HostExpr.holds_parts`, `HostStmt.shows_exprs`.
-/
import Lsl.Host.Render
import Lsl.Proofs.Host.Spots
import Mathlib.Data.String.Basic

namespace Lsl

/-! ### Texts inside a text -/

/-- One text stands somewhere in another. -/
def Text.Holds (whole part : String) : Prop := ∃ before behind, whole = before ++ part ++ behind

namespace Text.Holds

variable {whole part text : String}

theorem refl (text : String) : Holds text text := ⟨"", "", by simp⟩

theorem trans (h : Holds whole part) (h' : Holds part text) : Holds whole text := by
  obtain ⟨before, behind, rfl⟩ := h
  obtain ⟨before', behind', rfl⟩ := h'
  exact ⟨before ++ before', behind' ++ behind, by simp [String.append_assoc]⟩

theorem left (more : String) (h : Holds whole part) : Holds (more ++ whole) part := by
  obtain ⟨before, behind, rfl⟩ := h
  exact ⟨more ++ before, behind, by simp [String.append_assoc]⟩

theorem right (more : String) (h : Holds whole part) : Holds (whole ++ more) part := by
  obtain ⟨before, behind, rfl⟩ := h
  exact ⟨before, behind ++ more, by simp [String.append_assoc]⟩

theorem intercalate (separator : String) {texts : List String} (h : part ∈ texts) :
    Holds (separator.intercalate texts) part := by
  induction texts with
  | nil => cases h
  | cons first rest ih =>
    cases rest with
    | nil =>
      obtain rfl := List.mem_singleton.mp h
      simpa using refl part
    | cons second rest =>
      rw [String.intercalate_cons_cons]
      rcases List.mem_cons.mp h with rfl | h
      · exact ((refl part).right _).right _
      · exact (ih h).left _

end Text.Holds

/-! ### Expressions -/

namespace HostExpr

theorem renderAll_eq (es : List HostExpr) : renderAll es = es.map render := by
  induction es with
  | nil => rfl
  | cons e rest ih => rw [renderAll, ih, List.map_cons]

open Text (Holds)

theorem holds_args {e a : HostExpr} (h : a ∈ e.args) : Holds e.render a.render := by
  have self := Holds.refl a.render
  cases e with
  | text | global | inner | param | absent => cases h
  | make ty args | callFunction name args | callLibrary name args =>
    have listed : Holds (", ".intercalate (renderAll args)) a.render := by
      rw [renderAll_eq]
      exact .intercalate _ (List.mem_map_of_mem h)
    exact (listed.left _).right _
  | callModule ty name args =>
    have listed : Holds (", ".intercalate (("\"" ++ name ++ "\"") :: renderAll args)) a.render := by
      rw [renderAll_eq]
      exact .intercalate _ (List.mem_cons_of_mem _ (List.mem_map_of_mem h))
    exact (listed.left _).right _
  | component object c =>
    obtain rfl := List.mem_singleton.mp h
    exact (self.right _).right _
  | copyList | negate | unary | cast | paren | force | toBool | keyToBool =>
    obtain rfl := List.mem_singleton.mp h
    exact (self.left _).right _
  | stepBefore op target =>
    obtain rfl := List.mem_singleton.mp h
    exact self.left _
  | stepAfter | neighbour =>
    obtain rfl := List.mem_singleton.mp h
    exact self.right _
  | operate op right left | unstored op right left =>
    rcases List.mem_cons.mp h with rfl | h
    · exact (((self.left _).right _).right _).right _
    · obtain rfl := List.mem_singleton.mp h
      exact (self.left _).right _
  | logical conjunction right left =>
    rcases List.mem_cons.mp h with rfl | h
    · exact (((((self.left _).right _).right _).right _).right _).right _
    · obtain rfl := List.mem_singleton.mp h
      exact (self.left _).right _
  | assign op target value =>
    rcases List.mem_cons.mp h with rfl | h
    · exact (self.right _).right _
    · obtain rfl := List.mem_singleton.mp h
      exact self.left _
  | assignRounded target value =>
    rcases List.mem_cons.mp h with rfl | h
    · exact ((((self.right _).right _).right _).right _).right _
    · obtain rfl := List.mem_singleton.mp h
      exact (self.left _).right _

/-- **The text of an expression holds that of each expression inside it.** -/
theorem holds_parts {e x : HostExpr} (h : x ∈ e.parts) : Holds e.render x.render := by
  induction e using args_induction with
  | step e ih =>
    rw [parts_eq] at h
    rcases List.mem_cons.mp h with rfl | h
    · exact .refl _
    · obtain ⟨a, ha, h⟩ := List.mem_flatMap.mp h
      exact (holds_args ha).trans (ih a ha h)

end HostExpr

/-! ### Statements -/

/-- The line is at this depth and shows the text of the expression. -/
def OutputLine.Shows (line : OutputLine) (depth : Nat) (e : HostExpr) : Prop :=
  ∃ text, line = .code depth text ∧ Text.Holds text e.render

namespace HostStmt

variable {call : String} {depth : Nat}

theorem layoutArms_eq (arms : List HostArm) : HostArm.layoutAll call depth arms
    = arms.flatMap fun arm => .code depth ("else if(" ++ arm.cond.render ++ ")")
        :: braced depth (layoutAll call (depth + 1) arm.body) := by
  induction arms with
  | nil => rfl
  | cons arm rest ih =>
    rcases arm with ⟨cond, body⟩
    rw [HostArm.layoutAll, ih, List.flatMap_cons]
    rfl

/-- **The lines of a statement show its expressions.** -/
theorem shows_exprs {s : HostStmt} {e : HostExpr} (h : e ∈ s.exprs) :
    ∃ line ∈ s.layout call depth, line.Shows depth e := by
  have self := Text.Holds.refl e.render
  cases s with
  | checkpoint | goto | label | changeState | block => cases h
  | eval value =>
    obtain rfl := List.mem_singleton.mp h
    exact ⟨_, List.mem_singleton.mpr rfl, _, rfl, self.right _⟩
  | declare ty scopeId name value =>
    obtain rfl := List.mem_singleton.mp h
    exact ⟨_, List.mem_singleton.mpr rfl, _, rfl, (self.left _).right _⟩
  | ret value =>
    obtain rfl := Option.mem_toList.mp h
    exact ⟨_, List.mem_singleton.mpr rfl, _, rfl, (self.left _).right _⟩
  | branch cond body arms otherwise =>
    rcases List.mem_cons.mp h with rfl | h
    · exact ⟨_, List.mem_cons_self, _, rfl, (self.left _).right _⟩
    · obtain ⟨arm, harm, rfl⟩ := List.mem_map.mp h
      refine ⟨.code depth ("else if(" ++ arm.cond.render ++ ")"), ?_, _, rfl, (self.left _).right _⟩
      rw [layout, layoutArms_eq]
      refine List.mem_append_left _ (List.mem_append_right _ ?_)
      exact List.mem_flatMap.mpr ⟨arm, harm, List.mem_cons_self⟩
  | whileLoop cond body =>
    obtain rfl := List.mem_singleton.mp h
    exact ⟨_, List.mem_cons_self, _, rfl, (self.left _).right _⟩
  | doWhile body cond =>
    obtain rfl := List.mem_singleton.mp h
    refine ⟨.code depth ("while(" ++ e.render ++ ");"), ?_, _, rfl, (self.left _).right _⟩
    rw [layout]
    exact List.mem_append_right _ List.mem_cons_self
  | forLoop init cond step body =>
    refine ⟨_, List.mem_cons_self, _, rfl, ?_⟩
    simp only [exprs, clauses, values, List.mem_append, Option.mem_toList] at h
    rw [HostExpr.renderAll_eq, HostExpr.renderAll_eq]
    rcases h with (h | h) | rfl
    · have listed := Text.Holds.intercalate "," (List.mem_map_of_mem (f := HostExpr.render) h)
      exact (((((listed.left _).right _).right _).right _).right _).right _
    · have listed := Text.Holds.intercalate "," (List.mem_map_of_mem (f := HostExpr.render) h)
      exact (listed.left _).right _
    · exact (((self.left _).right _).right _).right _

end HostStmt

end Lsl
