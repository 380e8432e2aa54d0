/- # Reading what was printed

A value that is printed with a line for each item is read as that value, if it
holds no numbers and is nested no deeper than the limit of the reader. A string
comes back character by character: each character is written as itself, behind a
backslash, or as a code unit that is no half of a surrogate pair.

Key definitions: `Json.Plain`.
Key theorems: `Json.readString_quote`, `Json.Plain.readsBack`, `Json.read_pretty`.
-/
import Lsl.Json.Printer
import Lsl.Json.Reader

namespace Lsl

namespace Json

variable {c : Char} {text rest : List Char}

/-! ### Strings -/

/-- The three ways in which a character is written between quotes. -/
theorem escape_cases (c : Char) :
    (∃ letter, escape c = ['\\', letter] ∧ letter ≠ 'u' ∧ escaped? letter = some c)
      ∨ (c.toNat < 0x20
        ∧ escape c = ['\\', 'u', '0', '0', hexDigit (c.toNat / 16), hexDigit (c.toNat % 16)])
      ∨ (0x20 ≤ c.toNat ∧ c ≠ '"' ∧ c ≠ '\\' ∧ escape c = [c]) := by
  unfold escape
  split
  case h_8 hquote hslash _ _ _ _ _ =>
    split
    · exact .inr (.inl ⟨‹_›, rfl⟩)
    · exact .inr (.inr ⟨by omega, hquote, hslash, rfl⟩)
  all_goals exact .inl ⟨_, rfl, by decide, rfl⟩

/-- A hexadecimal digit is read back, and it ends no string. -/
theorem hexDigit_spec : ∀ n : Fin 16, hexValue? (hexDigit n) = some n.val
    ∧ 0x20 ≤ (hexDigit n).toNat ∧ hexDigit n ≠ '"' ∧ hexDigit n ≠ '\\' := by
  decide

theorem cutString_cons (hquote : c ≠ '"') (hslash : c ≠ '\\') (hc : 0x20 ≤ c.toNat)
    {inside after : List Char} (h : cutString text = .ok (inside, after)) :
    cutString (c :: text) = .ok (c :: inside, after) := by
  have hlow : ¬ c.toNat < 0x20 := by omega
  rw [cutString, if_neg hlow, h]
  · rfl
  · exact hquote
  · intro d more hd
    exact absurd hd hslash

theorem cutString_escaped (letter : Char) {inside after : List Char}
    (h : cutString text = .ok (inside, after)) :
    cutString ('\\' :: letter :: text) = .ok ('\\' :: letter :: inside, after) := by
  rw [cutString, h]
  rfl

theorem cutString_escape (c : Char) {inside after : List Char}
    (h : cutString text = .ok (inside, after)) :
    cutString (escape c ++ text) = .ok (escape c ++ inside, after) := by
  rcases escape_cases c with ⟨letter, he, -, -⟩ | ⟨hc, he⟩ | ⟨hc, hquote, hslash, he⟩
  · rw [he]
    exact cutString_escaped letter h
  · obtain ⟨-, hhigh, hq1, hs1⟩ := hexDigit_spec ⟨c.toNat / 16, by omega⟩
    obtain ⟨-, hlow, hq2, hs2⟩ := hexDigit_spec ⟨c.toNat % 16, by omega⟩
    rw [he]
    refine cutString_escaped 'u' ?_
    refine cutString_cons (by decide) (by decide) (by decide) ?_
    refine cutString_cons (by decide) (by decide) (by decide) ?_
    exact cutString_cons hq1 hs1 hhigh (cutString_cons hq2 hs2 hlow h)
  · rw [he]
    exact cutString_cons hquote hslash hc h

/-- Escaped characters end at the quote behind them. -/
theorem cutString_flatMap_escape (cs rest : List Char) :
    cutString (cs.flatMap escape ++ '"' :: rest) = .ok (cs.flatMap escape, rest) := by
  induction cs with
  | nil => rfl
  | cons c cs ih =>
    rw [List.flatMap_cons, List.append_assoc]
    exact cutString_escape c ih

/-- What a character is read as: a code unit if it was written as one. -/
def unitOf (c : Char) : Unit16 :=
  if escape c = ['\\', 'u', '0', '0', hexDigit (c.toNat / 16), hexDigit (c.toNat % 16)] then
    .unit c.toNat
  else .char c

theorem stringUnits_escape (c : Char) {units : List Unit16} (h : stringUnits text = .ok units) :
    stringUnits (escape c ++ text) = .ok (unitOf c :: units) := by
  rcases escape_cases c with ⟨letter, he, hu, hletter⟩ | ⟨hc, he⟩ | ⟨hc, hquote, hslash, he⟩
  · have hunit : unitOf c = .char c := by
      rw [unitOf, he, if_neg (by simp)]
    rw [he, hunit]
    change stringUnits ('\\' :: letter :: text) = _
    rw [stringUnits, hletter]
    · simp only [h]
      rfl
    · intro a b d e more hl
      exact absurd hl hu
  · have hunit : unitOf c = .unit c.toNat := by
      rw [unitOf, he, if_pos rfl]
    obtain ⟨hhigh, -⟩ := hexDigit_spec ⟨c.toNat / 16, by omega⟩
    obtain ⟨hlow, -⟩ := hexDigit_spec ⟨c.toNat % 16, by omega⟩
    have hcode : hexUnit '0' '0' (hexDigit (c.toNat / 16)) (hexDigit (c.toNat % 16))
        = .ok (.unit c.toNat) := by
      have hzero : hexValue? '0' = some 0 := by decide
      rw [hexUnit, hzero, hhigh, hlow]
      simp only [Nat.zero_mul, Nat.zero_add]
      rw [Nat.mul_comm, Nat.div_add_mod]
    rw [he, hunit]
    change stringUnits ('\\' :: 'u' :: '0' :: '0' :: _ :: _ :: text) = _
    rw [stringUnits, hcode, h]
    rfl
  · have hunit : unitOf c = .char c := by
      rw [unitOf, he, if_neg (by simp)]
    rw [he, hunit]
    change stringUnits (c :: text) = _
    rw [stringUnits, h]
    · rfl
    · intro a b d e more hl
      exact absurd hl hslash
    · intro d more hl
      exact absurd hl hslash

theorem stringUnits_flatMap_escape (cs : List Char) :
    stringUnits (cs.flatMap escape) = .ok (cs.map unitOf) := by
  induction cs with
  | nil => rfl
  | cons c cs ih =>
    rw [List.flatMap_cons, List.map_cons]
    exact stringUnits_escape c ih

/-- No character is a half of a surrogate pair. -/
theorem not_surrogate (c : Char) :
    (isHighSurrogate c.toNat || isLowSurrogate c.toNat) = false := by
  have hvalid := c.valid
  simp only [isHighSurrogate, isLowSurrogate, Bool.or_eq_false_iff, Bool.and_eq_false_iff,
    decide_eq_false_iff_not]
  change c.toNat < 0xD800 ∨ (0xDFFF < c.toNat ∧ c.toNat < 0x110000) at hvalid
  omega

theorem joinSurrogates?_cons (c : Char) {units : List Unit16} {cs : List Char}
    (h : joinSurrogates? units = some cs) :
    joinSurrogates? (unitOf c :: units) = some (c :: cs) := by
  obtain ⟨hhigh, hlow⟩ := Bool.or_eq_false_iff.mp (not_surrogate c)
  unfold unitOf
  split
  · rcases units with _ | ⟨d | low, units⟩
    · rw [joinSurrogates?, hhigh, hlow, h, Char.ofNat_toNat]
      · rfl
      · nofun
    · rw [joinSurrogates?, hhigh, hlow, h, Char.ofNat_toNat]
      · rfl
      · nofun
    · rw [joinSurrogates?, hhigh, hlow, h, Char.ofNat_toNat]
      rfl
  · rw [joinSurrogates?, h]
    rfl

theorem joinSurrogates?_map_unitOf (cs : List Char) :
    joinSurrogates? (cs.map unitOf) = some cs := by
  induction cs with
  | nil => rfl
  | cons c cs ih => exact joinSurrogates?_cons c ih

/-- A text in quotes is read back, whatever stands behind it. -/
theorem readString_quote (s : String) (rest : List Char) :
    readString (s.toList.flatMap escape ++ '"' :: rest) = .ok (some s, rest) := by
  simp only [readString, cutString_flatMap_escape, stringUnits_flatMap_escape,
    joinSurrogates?_map_unitOf, bind, Except.bind, pure, Except.pure, Option.map_some,
    String.ofList_toList]

theorem toList_quote (s : String) : (quote s).toList = '"' :: (s.toList.flatMap escape ++ ['"']) := by
  simp [quote]

/-! ### Blanks -/

theorem skipBlanks_cons (h : isBlank c = false) : skipBlanks (c :: text) = c :: text := by
  simp [skipBlanks, h]

theorem skipBlanks_newline (level : Nat) (text : List Char) :
    skipBlanks ((newline level).toList ++ text) = skipBlanks text := by
  have hblank : ∀ d ∈ (newline level).toList, isBlank d = true := by
    intro d hd
    simp only [newline, String.toList_append, String.toList_ofList, List.mem_append,
      List.mem_replicate] at hd
    rcases hd with hd | ⟨-, rfl⟩
    · rw [List.mem_singleton.mp hd]
      rfl
    · rfl
  exact List.dropWhile_append_of_pos hblank

theorem newline_length_pos (level : Nat) : 0 < (newline level).toList.length := by
  simp [newline]

/-! ### Values -/

/-- The value holds no numbers and nothing without a value. -/
inductive Plain : Json → Prop where
  | null : Plain .null
  | bool (b : Bool) : Plain (.bool b)
  | str (s : String) : Plain (.str s)
  | arr {items : List Json} (h : ∀ v ∈ items, Plain v) : Plain (.arr items)
  | obj {fields : List (String × Json)} (h : ∀ f ∈ fields, Plain f.2) : Plain (.obj fields)

@[simp] theorem plain_str (s : String) : Plain (.str s) := .str s

@[simp] theorem plain_bool (b : Bool) : Plain (.bool b) := .bool b

@[simp] theorem plain_list_iff {α : Type} {encode : α → Json} {xs : List α} :
    Plain (.list encode xs) ↔ ∀ x ∈ xs, Plain (encode x) := by
  refine ⟨fun h x hx => ?_, fun h => .arr (by simpa using h)⟩
  cases h with
  | arr h => exact h _ (List.mem_map_of_mem hx)

@[simp] theorem plain_obj_iff {fields : List (String × Json)} :
    Plain (.obj fields) ↔ ∀ f ∈ fields, Plain f.2 := by
  refine ⟨fun h => ?_, .obj⟩
  cases h with
  | obj h => exact h

/-- No printed value starts with a blank or a closing bracket. -/
theorem prettyAt_head (level : Nat) {v : Json} (h : v.Plain) :
    ∃ d ds, (prettyAt level v).toList = d :: ds ∧ isBlank d = false ∧ d ≠ ']' := by
  cases v with
  | null => exact ⟨_, _, by simp [prettyAt]; exact ⟨rfl, rfl⟩, by decide, by decide⟩
  | bool b => cases b <;> exact ⟨_, _, by simp [prettyAt]; exact ⟨rfl, rfl⟩, by decide, by decide⟩
  | str s => exact ⟨_, _, toList_quote s, by decide, by decide⟩
  | arr items =>
    cases items with
    | nil => exact ⟨_, _, by simp [prettyAt]; exact ⟨rfl, rfl⟩, by decide, by decide⟩
    | cons v rest => exact ⟨_, _, by simp [prettyAt]; exact ⟨rfl, rfl⟩, by decide, by decide⟩
  | obj fields =>
    cases fields with
    | nil => exact ⟨_, _, by simp [prettyAt]; exact ⟨rfl, rfl⟩, by decide, by decide⟩
    | cons f rest => exact ⟨_, _, by simp [prettyAt]; exact ⟨rfl, rfl⟩, by decide, by decide⟩
  | _ => cases h

theorem skipBlanks_prettyAt (level : Nat) {v : Json} (h : v.Plain) (text : List Char) :
    skipBlanks ((prettyAt level v).toList ++ text) = (prettyAt level v).toList ++ text := by
  obtain ⟨d, ds, hd, hblank, -⟩ := prettyAt_head level h
  rw [hd]
  exact skipBlanks_cons hblank

/-- The end of an array or object behind its last item. -/
theorem skipBlanks_close (level : Nat) {close : Char} (h : isBlank close = false)
    (after : List Char) :
    skipBlanks ((newline level).toList ++ close :: after) = close :: after := by
  rw [skipBlanks_newline, skipBlanks_cons h]

theorem named?_map_some (fields : List (String × Json)) :
    named? (fields.map fun f => (some f.1, f.2)) = some fields := by
  induction fields with
  | nil => rfl
  | cons f rest ih =>
    rw [List.map_cons, named?, ih]
    rfl

/-! ### One step of the reader -/

section Steps

variable {steps levels : Nat} {v : Json} {more after : List Char}

attribute [local simp] readValue readItems readFields bind Except.bind pure Except.pure

theorem readItems_last (hv : readValue steps levels (skipBlanks text) = .ok (v, rest))
    (hclose : skipBlanks rest = ']' :: after) :
    readItems (steps + 1) levels text = .ok ([v], after) := by
  simp [hv, hclose]

theorem readItems_more {items : List Json}
    (hv : readValue steps levels (skipBlanks text) = .ok (v, rest))
    (hcomma : skipBlanks rest = ',' :: more)
    (hmore : readItems steps levels more = .ok (items, after)) :
    readItems (steps + 1) levels text = .ok (v :: items, after) := by
  simp [hv, hcomma, hmore]

/-- The name of a field and its value, up to what stands behind them. -/
theorem readFields_last {name : String} {behind : List Char}
    (htext : skipBlanks text = (quote name).toList ++ ':' :: behind)
    (hv : readValue steps levels (skipBlanks behind) = .ok (v, rest))
    (hclose : skipBlanks rest = '\x7d' :: after) :
    readFields (steps + 1) levels text = .ok ([(some name, v)], after) := by
  rw [toList_quote, List.cons_append, List.append_assoc] at htext
  have hcolon : skipBlanks (':' :: behind) = ':' :: behind := skipBlanks_cons (by decide)
  simp only [readFields, htext, List.singleton_append, readString_quote, hcolon, hv, hclose, bind,
    Except.bind]
  rfl

theorem readFields_more {name : String} {behind : List Char} {fields : List (Option String × Json)}
    (htext : skipBlanks text = (quote name).toList ++ ':' :: behind)
    (hv : readValue steps levels (skipBlanks behind) = .ok (v, rest))
    (hcomma : skipBlanks rest = ',' :: more)
    (hmore : readFields steps levels more = .ok (fields, after)) :
    readFields (steps + 1) levels text = .ok ((some name, v) :: fields, after) := by
  rw [toList_quote, List.cons_append, List.append_assoc] at htext
  have hcolon : skipBlanks (':' :: behind) = ':' :: behind := skipBlanks_cons (by decide)
  simp only [readFields, htext, List.singleton_append, readString_quote, hcolon, hv, hcomma, hmore,
    bind, Except.bind]
  rfl

theorem readValue_arr {items : List Json} (hlevels : levels ≠ 0)
    (hopen : ∀ cs, skipBlanks text ≠ ']' :: cs)
    (hitems : readItems steps (levels - 1) (skipBlanks text) = .ok (items, after)) :
    readValue (steps + 1) levels ('[' :: text) = .ok (.arr items, after) := by
  rw [readValue]
  simp only [hitems, nested, if_neg hlevels, bind, Except.bind]
  rfl

theorem readValue_obj {fields : List (String × Json)} (hlevels : levels ≠ 0)
    (hopen : ∀ cs, skipBlanks text ≠ '\x7d' :: cs)
    (hfields : readFields steps (levels - 1) (skipBlanks text)
      = .ok (fields.map fun f => (some f.1, f.2), after)) :
    readValue (steps + 1) levels ('\x7b' :: text) = .ok (.obj fields, after) := by
  rw [readValue]
  simp only [hfields, named?_map_some, nested, if_neg hlevels, bind, Except.bind]
  rfl

end Steps

/-! ### Printed values -/

section Printed

attribute [local simp] prettyAt prettyItems prettyFields

theorem toList_prettyAt_arr (level : Nat) (v : Json) (rest : List Json) (after : List Char) :
    (prettyAt level (.arr (v :: rest))).toList ++ after
      = '[' :: ((newline (level + 1)).toList ++ ((prettyAt (level + 1) v).toList
        ++ ((prettyItems (level + 1) rest).toList ++ ((newline level).toList ++ ']' :: after)))) := by
  simp

theorem toList_prettyAt_obj (level : Nat) (name : String) (v : Json)
    (rest : List (String × Json)) (after : List Char) :
    (prettyAt level (.obj ((name, v) :: rest))).toList ++ after
      = '\x7b' :: ((newline (level + 1)).toList ++ ((quote name).toList ++ ':' :: ' '
        :: ((prettyAt (level + 1) v).toList ++ ((prettyFields (level + 1) rest).toList
          ++ ((newline level).toList ++ '\x7d' :: after))))) := by
  simp

theorem toList_prettyItems_cons (level : Nat) (v : Json) (rest : List Json) (after : List Char) :
    (prettyItems level (v :: rest)).toList ++ after
      = ',' :: ((newline level).toList ++ ((prettyAt level v).toList
        ++ ((prettyItems level rest).toList ++ after))) := by
  simp

theorem toList_prettyFields_cons (level : Nat) (name : String) (v : Json)
    (rest : List (String × Json)) (after : List Char) :
    (prettyFields level ((name, v) :: rest)).toList ++ after
      = ',' :: ((newline level).toList ++ ((quote name).toList ++ ':' :: ' '
        :: ((prettyAt level v).toList ++ ((prettyFields level rest).toList ++ after)))) := by
  simp

theorem length_prettyAt_arr (level : Nat) (v : Json) (rest : List Json) :
    (prettyAt (level + 1) v).toList.length + (prettyItems (level + 1) rest).toList.length + 2
      ≤ (prettyAt level (.arr (v :: rest))).toList.length := by
  have := newline_length_pos level
  simp
  omega

theorem length_prettyAt_obj (level : Nat) (name : String) (v : Json)
    (rest : List (String × Json)) :
    (prettyAt (level + 1) v).toList.length + (prettyFields (level + 1) rest).toList.length + 2
      ≤ (prettyAt level (.obj ((name, v) :: rest))).toList.length := by
  simp
  omega

theorem length_prettyItems_cons (level : Nat) (v : Json) (rest : List Json) :
    (prettyAt level v).toList.length + (prettyItems level rest).toList.length + 1
      ≤ (prettyItems level (v :: rest)).toList.length := by
  simp

theorem length_prettyFields_cons (level : Nat) (name : String) (v : Json)
    (rest : List (String × Json)) :
    (prettyAt level v).toList.length + (prettyFields level rest).toList.length + 1
      ≤ (prettyFields level ((name, v) :: rest)).toList.length := by
  simp
  omega

end Printed

theorem skipBlanks_quote (name : String) (text : List Char) :
    skipBlanks ((quote name).toList ++ text) = (quote name).toList ++ text := by
  rw [toList_quote]
  exact skipBlanks_cons (by decide)

theorem readValue_word {levels steps level : Nat} {v : Json} (after : List Char)
    (hv : v = .null ∨ ∃ b, v = .bool b) :
    readValue (steps + 1) levels ((prettyAt level v).toList ++ after) = .ok (v, after) := by
  rcases hv with rfl | ⟨b, rfl⟩
  · simp [prettyAt, readValue, readWord, bind, Except.bind, pure, Except.pure]
  · cases b
    · simp [prettyAt, readValue, readWord, bind, Except.bind, pure, Except.pure]
    · simp [prettyAt, readValue, readWord, bind, Except.bind, pure, Except.pure]

theorem readValue_str (levels steps level : Nat) (s : String) (after : List Char) :
    readValue (steps + 1) levels ((prettyAt level (.str s)).toList ++ after)
      = .ok (.str s, after) := by
  have htext : (prettyAt level (.str s)).toList ++ after
      = '"' :: (s.toList.flatMap escape ++ '"' :: after) := by
    simp [prettyAt, toList_quote]
  rw [htext, readValue, readString_quote]
  rfl

theorem readValue_hollow {levels steps level : Nat} {v : Json} (after : List Char)
    (hv : v = .arr [] ∨ v = .obj []) (hlevels : levels ≠ 0) :
    readValue (steps + 1) levels ((prettyAt level v).toList ++ after) = .ok (v, after) := by
  rcases hv with rfl | rfl
  · simp [prettyAt, readValue, skipBlanks, isBlank, nested, hlevels]
  · simp [prettyAt, readValue, skipBlanks, isBlank, nested, hlevels]

/-- An array whose items are read back is read back. -/
theorem readValue_prettyAt_arr {levels steps level : Nat} {v : Json} {rest : List Json}
    {after : List Char} (hv : v.Plain) (hlevels : levels ≠ 0)
    (hitems : ∀ text, skipBlanks text = (prettyAt (level + 1) v).toList
      ++ ((prettyItems (level + 1) rest).toList ++ ((newline level).toList ++ ']' :: after)) →
      readItems steps (levels - 1) text = .ok (v :: rest, after)) :
    readValue (steps + 1) levels ((prettyAt level (.arr (v :: rest))).toList ++ after)
      = .ok (.arr (v :: rest), after) := by
  have hskip := skipBlanks_prettyAt (level + 1) hv
    ((prettyItems (level + 1) rest).toList ++ ((newline level).toList ++ ']' :: after))
  rw [toList_prettyAt_arr]
  refine readValue_arr hlevels ?_ ?_
  · intro cs hcs
    obtain ⟨d, ds, hd, -, hne⟩ := prettyAt_head (level + 1) hv
    rw [skipBlanks_newline, hskip, hd] at hcs
    exact hne (List.cons.inj hcs).1
  · refine hitems _ ?_
    rw [skipBlanks_newline, hskip, hskip]

/-- An object whose fields are read back is read back. -/
theorem readValue_prettyAt_obj {levels steps level : Nat} {name : String} {v : Json}
    {rest : List (String × Json)} {after : List Char} (hlevels : levels ≠ 0)
    (hfields : ∀ text, skipBlanks text = (quote name).toList ++ ':' :: ' '
      :: ((prettyAt (level + 1) v).toList ++ ((prettyFields (level + 1) rest).toList
        ++ ((newline level).toList ++ '\x7d' :: after))) →
      readFields steps (levels - 1) text
        = .ok (((name, v) :: rest).map fun f => (some f.1, f.2), after)) :
    readValue (steps + 1) levels ((prettyAt level (.obj ((name, v) :: rest))).toList ++ after)
      = .ok (.obj ((name, v) :: rest), after) := by
  rw [toList_prettyAt_obj]
  refine readValue_obj hlevels ?_ ?_
  · intro cs hcs
    rw [skipBlanks_newline, skipBlanks_quote, toList_quote] at hcs
    exact absurd (List.cons.inj hcs).1 (by decide)
  · refine hfields _ ?_
    rw [skipBlanks_newline, skipBlanks_quote, skipBlanks_quote]

/-- At every level, with enough steps and levels left and whatever behind it,
the printed value is read as itself. -/
def ReadsBack (v : Json) : Prop :=
  ∀ level steps levels after, v.height ≤ levels → (prettyAt level v).toList.length ≤ steps →
    readValue steps levels ((prettyAt level v).toList ++ after) = .ok (v, after)

/-- Printed items are read back up to the bracket behind them. -/
theorem readItems_pretty {level outer levels : Nat} {after : List Char} (rest : List Json) :
    ∀ (v : Json) (steps : Nat) (text : List Char),
      skipBlanks text = (prettyAt level v).toList ++ ((prettyItems level rest).toList
        ++ ((newline outer).toList ++ ']' :: after)) →
      (∀ w ∈ v :: rest, w.Plain ∧ w.ReadsBack) → heightItems (v :: rest) ≤ levels →
      (prettyAt level v).toList.length + (prettyItems level rest).toList.length < steps →
      readItems steps levels text = .ok (v :: rest, after) := by
  induction rest with
  | nil =>
    intro v steps text htext hall hheight hsteps
    rw [heightItems] at hheight
    obtain ⟨steps, rfl⟩ : ∃ n, steps = n + 1 := ⟨steps - 1, by omega⟩
    refine readItems_last ?_ (skipBlanks_close outer (by decide) after)
    rw [htext]
    exact (hall v List.mem_cons_self).2 level steps levels _ (by omega) (by omega)
  | cons w rest ih =>
    intro v steps text htext hall hheight hsteps
    rw [heightItems] at hheight
    obtain ⟨steps, rfl⟩ : ∃ n, steps = n + 1 := ⟨steps - 1, by omega⟩
    have hrest := fun u hu => hall u (List.mem_cons_of_mem v hu)
    have hlength := length_prettyItems_cons level w rest
    have hfirst := (hall v List.mem_cons_self).2 level steps levels
      ((prettyItems level (w :: rest)).toList ++ ((newline outer).toList ++ ']' :: after))
      (by omega) (by omega)
    rw [← htext, toList_prettyItems_cons] at hfirst
    refine readItems_more hfirst (skipBlanks_cons (by decide))
      (ih w steps _ ?_ hrest (by omega) (by omega))
    rw [skipBlanks_newline, skipBlanks_prettyAt level (hrest w List.mem_cons_self).1]

/-- Printed fields are read back up to the brace behind them. -/
theorem readFields_pretty {level outer levels : Nat} {after : List Char}
    (rest : List (String × Json)) :
    ∀ (name : String) (v : Json) (steps : Nat) (text : List Char),
      skipBlanks text = (quote name).toList ++ ':' :: ' ' :: ((prettyAt level v).toList
        ++ ((prettyFields level rest).toList ++ ((newline outer).toList ++ '\x7d' :: after))) →
      (∀ f ∈ (name, v) :: rest, f.2.Plain ∧ f.2.ReadsBack) →
      heightFields ((name, v) :: rest) ≤ levels →
      (prettyAt level v).toList.length + (prettyFields level rest).toList.length < steps →
      readFields steps levels text
        = .ok (((name, v) :: rest).map fun f => (some f.1, f.2), after) := by
  have hblank : ∀ cs, skipBlanks (' ' :: cs) = skipBlanks cs := fun cs => rfl
  induction rest with
  | nil =>
    intro name v steps text htext hall hheight hsteps
    rw [heightFields] at hheight
    obtain ⟨steps, rfl⟩ : ∃ n, steps = n + 1 := ⟨steps - 1, by omega⟩
    obtain ⟨hplain, hback⟩ : v.Plain ∧ v.ReadsBack := hall (name, v) List.mem_cons_self
    refine readFields_last htext ?_ (skipBlanks_close outer (by decide) after)
    rw [hblank, skipBlanks_prettyAt level hplain]
    exact hback level steps levels _ (by omega) (by omega)
  | cons f rest ih =>
    obtain ⟨other, w⟩ := f
    intro name v steps text htext hall hheight hsteps
    rw [heightFields] at hheight
    obtain ⟨steps, rfl⟩ : ∃ n, steps = n + 1 := ⟨steps - 1, by omega⟩
    obtain ⟨hplain, hback⟩ : v.Plain ∧ v.ReadsBack := hall (name, v) List.mem_cons_self
    have hlength := length_prettyFields_cons level other w rest
    have hfirst := hback level steps levels ((prettyFields level ((other, w) :: rest)).toList
      ++ ((newline outer).toList ++ '\x7d' :: after)) (by omega) (by omega)
    rw [← skipBlanks_prettyAt level hplain, ← hblank, toList_prettyFields_cons] at hfirst
    rw [toList_prettyFields_cons] at htext
    refine readFields_more htext hfirst (skipBlanks_cons (by decide))
      (ih other w steps _ ?_ (fun f hf => hall f (List.mem_cons_of_mem _ hf)) (by omega)
        (by omega))
    rw [skipBlanks_newline, skipBlanks_quote]

/-- A printed value takes at least one step. -/
theorem Plain.readsBack_of_succ {v : Json} (hv : v.Plain)
    (h : ∀ level steps levels after, v.height ≤ levels →
      (prettyAt level v).toList.length ≤ steps + 1 →
      readValue (steps + 1) levels ((prettyAt level v).toList ++ after) = .ok (v, after)) :
    v.ReadsBack := by
  intro level steps levels after hheight hsteps
  cases steps with
  | zero =>
    obtain ⟨d, ds, hd, -⟩ := prettyAt_head level hv
    simp [hd] at hsteps
  | succ steps => exact h level steps levels after hheight hsteps

theorem Plain.readsBack {v : Json} (hv : v.Plain) : v.ReadsBack := by
  induction hv with
  | null => exact Plain.null.readsBack_of_succ fun _ _ _ after _ _ => readValue_word after (.inl rfl)
  | bool b =>
    exact (Plain.bool b).readsBack_of_succ fun _ _ _ after _ _ =>
      readValue_word after (.inr ⟨b, rfl⟩)
  | str s =>
    exact (Plain.str s).readsBack_of_succ fun level steps levels after _ _ =>
      readValue_str levels steps level s after
  | arr hall ih =>
    refine (Plain.arr hall).readsBack_of_succ fun level steps levels after hheight hsteps => ?_
    rename_i items
    rw [height] at hheight
    rcases items with _ | ⟨v, rest⟩
    · exact readValue_hollow after (.inl rfl) (by omega)
    · have hlength := length_prettyAt_arr level v rest
      refine readValue_prettyAt_arr (hall v List.mem_cons_self) (by omega) fun text htext => ?_
      exact readItems_pretty rest v steps text htext (fun w hw => ⟨hall w hw, ih w hw⟩) (by omega)
        (by omega)
  | obj hall ih =>
    refine (Plain.obj hall).readsBack_of_succ fun level steps levels after hheight hsteps => ?_
    rename_i fields
    rw [height] at hheight
    rcases fields with _ | ⟨⟨name, v⟩, rest⟩
    · exact readValue_hollow after (.inr rfl) (by omega)
    · have hlength := length_prettyAt_obj level name v rest
      refine readValue_prettyAt_obj (by omega) fun text htext => ?_
      exact readFields_pretty rest name v steps text htext
        (fun f hf => ⟨hall f hf, ih f hf⟩) (by omega) (by omega)

/-- **A printed value is read back.** -/
theorem read_pretty {limit : Nat} {v : Json} (hv : v.Plain) (hheight : v.height ≤ limit) :
    read limit v.pretty = .ok v := by
  have hvalue := hv.readsBack 0 (v.pretty.toList.length + 1) limit [] hheight (Nat.le_succ _)
  have hskip := skipBlanks_prettyAt 0 hv []
  rw [List.append_nil] at hvalue hskip
  rw [read, pretty, hskip]
  simp only [pretty] at hvalue
  rw [hvalue]
  rfl

end Json

end Lsl
