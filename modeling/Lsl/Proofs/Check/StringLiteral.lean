/- # What a normalized string literal says

The scan of a literal takes a backslash together with the character behind it,
so it never looks at a character of its own output twice: what it has written it
leaves alone. A literal without faults comes out in quotes, with every backslash
at the start of an escape and no quote or control character bare, and it means
what it meant before, except that carriage returns are gone.

Key definitions: `StringLiteral.Closed`, `StringLiteral.Escaped`,
`StringLiteral.decode`.
Key theorems: `StringLiteral.escapeBody_escapeBody`, `StringLiteral.escaped_escapeBody`,
`StringLiteral.decode_escapeBody`, `StringLiteral.normalize_laws`.
-/
import Lsl.Check.Expr

namespace Lsl

namespace StringLiteral

/-! ### Reading a body -/

/-- No quote in the body ends the literal early. -/
def Closed : List Char → Prop
  | '\\' :: _ :: rest => Closed rest
  | '"' :: _ => False
  | _ :: rest => Closed rest
  | [] => True

/-- The characters that have to be escaped in a literal. -/
def isBare (c : Char) : Bool :=
  c != '\\' && c != '"' && c != '\t' && c != '\n' && c != '\r'

/-- A body of escapes, and of characters that need none. -/
inductive Escaped : List Char → Prop
  | nil : Escaped []
  | pair {c rest} (hc : isEscape c = true) (hrest : Escaped rest) : Escaped ('\\' :: c :: rest)
  | bare {c rest} (hc : isBare c = true) (hrest : Escaped rest) : Escaped (c :: rest)

/-- The character that a backslash and the given character stand for. -/
def unescape (c : Char) : Char :=
  if c = 'n' then '\n' else if c = 't' then '\t' else c

/-- The characters that the body stands for; a backslash at the very end stands
for itself. -/
def decode : List Char → List Char
  | '\\' :: c :: rest => unescape c :: decode rest
  | c :: rest => c :: decode rest
  | [] => []

/-- What the scan writes for a character that no backslash is before. -/
def written (c : Char) : List Char :=
  if c = '\t' then ['\\', 't'] else if c = '\n' then ['\\', 'n']
  else if c = '\r' then [] else [c]

/-! ### The scan -/

section Scan

variable {c : Char} {rest b : List Char}

/-- A body is scanned in pairs that start with a backslash and in single
characters. -/
@[elab_as_elim]
theorem scan_induction {P : List Char → Prop} (nil : P []) (lone : P ['\\'])
    (pair : ∀ c rest, P rest → P ('\\' :: c :: rest))
    (single : ∀ c rest, c ≠ '\\' → P rest → P (c :: rest)) : ∀ b, P b
  | [] => nil
  | [c] => if hc : c = '\\' then hc ▸ lone else single c [] hc nil
  | c :: d :: rest =>
    if hc : c = '\\' then hc ▸ pair d rest (scan_induction nil lone pair single rest)
    else single c (d :: rest) hc (scan_induction nil lone pair single (d :: rest))

theorem escapeBody_pair (c : Char) (rest : List Char) :
    escapeBody ('\\' :: c :: rest) = ('\\' :: c :: (escapeBody rest).1,
      if isEscape c then (escapeBody rest).2 else c :: (escapeBody rest).2) := rfl

theorem escapeBody_single (hc : c ≠ '\\') :
    escapeBody (c :: rest) = (written c ++ (escapeBody rest).1, (escapeBody rest).2) := by
  rw [escapeBody.eq_def]
  split
  · rename_i heq
    cases heq
  · rename_i heq
    exact absurd (List.cons.inj heq).1 hc
  · rename_i heq
    exact absurd (List.cons.inj heq).1 hc
  · rename_i heq
    obtain ⟨rfl, rfl⟩ := List.cons.inj heq
    rcases escapeBody _ with ⟨out, bad⟩
    dsimp only
    split <;> simp_all [written]

theorem decode_single (hc : c ≠ '\\') : decode (c :: rest) = c :: decode rest := by
  rw [decode.eq_2]
  exact fun _ _ h => absurd h hc

theorem closed_single (hc : c ≠ '\\') : Closed (c :: rest) ↔ c ≠ '"' ∧ Closed rest := by
  by_cases hquote : c = '"'
  · subst hquote
    simp [Closed]
  · rw [Closed.eq_3]
    · simp [hquote]
    · exact fun _ _ h => absurd h hc
    · exact hquote

/-- What the scan writes is a pair, a character that it keeps, or nothing. -/
theorem written_cases (c : Char) :
    (∃ e, written c = ['\\', e] ∧ isEscape e = true ∧ unescape e = c ∧ c ≠ '\r')
      ∨ (c = '\r' ∧ written c = [])
      ∨ (written c = [c] ∧ c ≠ '\t' ∧ c ≠ '\n' ∧ c ≠ '\r') := by
  by_cases htab : c = '\t'
  · subst htab
    exact .inl ⟨'t', rfl, rfl, rfl, by decide⟩
  by_cases hnewline : c = '\n'
  · subst hnewline
    exact .inl ⟨'n', rfl, rfl, rfl, by decide⟩
  by_cases hreturn : c = '\r'
  · subst hreturn
    exact .inr (.inl ⟨rfl, rfl⟩)
  · exact .inr (.inr ⟨by simp [written, htab, hnewline, hreturn], htab, hnewline, hreturn⟩)

/-- The scan leaves its own output alone. -/
theorem escapeBody_escapeBody (b : List Char) : escapeBody (escapeBody b).1 = escapeBody b := by
  induction b using scan_induction with
  | nil => rfl
  | lone => rfl
  | pair c rest ih => rw [escapeBody_pair, escapeBody_pair, ih]
  | single c rest hc ih =>
    rw [escapeBody_single hc]
    rcases written_cases c with ⟨e, hw, he, -, -⟩ | ⟨-, hw⟩ | ⟨hw, -, -, -⟩
    · rw [hw, List.cons_append, List.singleton_append, escapeBody_pair, ih, if_pos he]
    · rw [hw, List.nil_append, ih]
    · rw [hw, List.singleton_append, escapeBody_single hc, ih, hw, List.singleton_append]

/-- A pair without a fault is an escape, and there is no fault behind it. -/
theorem faultless_pair (h : (escapeBody ('\\' :: c :: rest)).2 = []) :
    isEscape c = true ∧ (escapeBody rest).2 = [] := by
  rw [escapeBody_pair] at h
  dsimp only at h
  split at h
  · rename_i hc
    exact ⟨hc, h⟩
  · cases h

theorem escaped_escapeBody (hclosed : Closed b) (h : (escapeBody b).2 = []) :
    Escaped (escapeBody b).1 := by
  induction b using scan_induction with
  | nil => exact .nil
  | lone => exact .pair rfl .nil
  | pair c rest ih =>
    obtain ⟨hc, hrest⟩ := faultless_pair h
    rw [escapeBody_pair]
    exact .pair hc (ih hclosed hrest)
  | single c rest hc ih =>
    obtain ⟨hquote, hclosed⟩ := (closed_single hc).mp hclosed
    rw [escapeBody_single hc] at h ⊢
    have hrest : Escaped (escapeBody rest).1 := ih hclosed h
    rcases written_cases c with ⟨e, hw, he, -, -⟩ | ⟨-, hw⟩ | ⟨hw, htab, hnewline, hreturn⟩
    · rw [hw]
      exact .pair he hrest
    · rwa [hw]
    · rw [hw]
      exact .bare (by simp [isBare, hc, hquote, htab, hnewline, hreturn]) hrest

/-- A body without faults stands for the same characters afterwards, carriage
returns apart. -/
theorem decode_escapeBody (h : (escapeBody b).2 = []) :
    decode (escapeBody b).1 = decode (b.filter (· ≠ '\r')) := by
  induction b using scan_induction with
  | nil => rfl
  | lone => rfl
  | pair c rest ih =>
    obtain ⟨hc, hrest⟩ := faultless_pair h
    have hkept : ('\\' :: c :: rest).filter (· ≠ '\r') = '\\' :: c :: rest.filter (· ≠ '\r') := by
      have hne : c ≠ '\r' := fun heq => by simp [heq, isEscape] at hc
      simp [hne]
    rw [escapeBody_pair, hkept, decode, decode, ih hrest]
  | single c rest hc ih =>
    rw [escapeBody_single hc] at h ⊢
    have hrest := ih h
    rw [List.filter_cons]
    rcases written_cases c with ⟨e, hw, -, he, hne⟩ | ⟨rfl, hw⟩ | ⟨hw, -, -, hne⟩
    · rw [hw, if_pos (by simpa using hne), decode_single hc, List.cons_append, List.singleton_append,
        decode, he, hrest]
    · rw [hw, if_neg (by decide)]
      exact hrest
    · rw [hw, if_pos (by simpa using hne), decode_single hc, List.singleton_append,
        decode_single hc, hrest]

/-- A body of escapes has no control characters. -/
theorem Escaped.no_control (h : Escaped b) : '\t' ∉ b ∧ '\n' ∉ b ∧ '\r' ∉ b := by
  induction h with
  | nil => simp
  | pair hc _ ih =>
    rename_i c rest _
    have hne : c ≠ '\t' ∧ c ≠ '\n' ∧ c ≠ '\r' := by
      refine ⟨?_, ?_, ?_⟩ <;> rintro rfl <;> simp [isEscape] at hc
    simp [ih, hne.1.symm, hne.2.1.symm, hne.2.2.symm]
  | bare hc _ ih =>
    rename_i c rest _
    simp only [isBare, Bool.and_eq_true, bne_iff_ne] at hc
    obtain ⟨⟨⟨-, htab⟩, hnewline⟩, hreturn⟩ := hc
    simp [ih, htab.symm, hnewline.symm, hreturn.symm]

end Scan

/-! ### The whole literal -/

theorem body_quoted (b : List Char) : body ('"' :: b ++ ['"']) = b := by
  simp [body]

theorem normalize_toList (text : String) :
    (normalize text).1.toList = '"' :: (escapeBody (body text.toList)).1 ++ ['"'] := by
  simp [normalize]

theorem normalize_normalize (text : String) : normalize (normalize text).1 = normalize text := by
  have hbody : body (normalize text).1.toList = (escapeBody (body text.toList)).1 := by
    rw [normalize_toList, body_quoted]
  unfold normalize at hbody ⊢
  rw [hbody, escapeBody_escapeBody]

/-- **Normalizing a string literal.** A second time it changes nothing and reports
the same. A quoted body in which no quote stands bare, and of which nothing is
reported, comes out as a quoted body of escapes and of characters that need none,
which stands for the same characters, carriage returns apart. -/
theorem normalize_laws (text : String) :
    normalize (normalize text).1 = normalize text
      ∧ (∀ span, judgeString (normalize text).1 span = judgeString text span)
      ∧ ∀ b, text.toList = '"' :: b ++ ['"'] → Closed b → (normalize text).2 = [] →
          ∃ out, (normalize text).1.toList = '"' :: out ++ ['"'] ∧ Escaped out
            ∧ ('\t' ∉ out ∧ '\n' ∉ out ∧ '\r' ∉ out)
            ∧ decode out = decode (b.filter (· ≠ '\r')) := by
  refine ⟨normalize_normalize text, fun span => ?_, fun b htext hclosed hnone => ?_⟩
  · rw [judgeString, normalize_normalize, judgeString]
  · have hbody : body text.toList = b := htext ▸ body_quoted b
    have hfaultless : (escapeBody b).2 = [] := by
      rw [← hbody]
      exact hnone
    have hescaped := escaped_escapeBody hclosed hfaultless
    exact ⟨(escapeBody b).1, hbody ▸ normalize_toList text, hescaped, hescaped.no_control,
      decode_escapeBody hfaultless⟩

/-- A tab, an escaped quote, a line break of two characters, and a backslash at
the end. -/
theorem normalize_mixed :
    let text := "\"a\t\\\"\r\n\\\""
    normalize (normalize text).1 = normalize text
      ∧ ∃ out, (normalize text).1.toList = '"' :: out ++ ['"'] ∧ Escaped out
        ∧ decode out = ['a', '\t', '"', '\n', '\\'] := by
  intro text
  obtain ⟨hagain, -, hlaw⟩ := normalize_laws text
  obtain ⟨out, htext, hescaped, -, hdecode⟩ :=
    hlaw ['a', '\t', '\\', '"', '\r', '\n', '\\'] (by decide) (by simp [Closed]) (by decide)
  exact ⟨hagain, out, htext, hescaped, hdecode.trans (by decide)⟩

end StringLiteral

end Lsl
