/- # What literals of the host stand for

A numeral stands for the number that its digits have in its base. An integer of
a script that 32 bits hold is written so that the host reads the same number,
and any other is written as -1; a hexadecimal number with the sign bit set is
written as the negative number of the same bits. A float keeps its value; where
no digit stands behind its point, one is added, which does not change the value,
and then nothing is left to add.

Key definitions: `Literal.numeral`, `Literal.hostValue?`, `Literal.FloatForm`.
Key theorems: `Literal.integer_eq`, `Literal.hostValue?_hex`,
`Literal.FloatForm.floatChars_text`, `Literal.numbers_kept`.
-/
import Lsl.Host.Literal
import Lsl.Proofs.Text.Blank
import Mathlib.Data.List.Induction
import Mathlib.Data.Nat.Digits.Defs
import Mathlib.Data.Rat.Defs
import Mathlib.Tactic.FieldSimp
import Mathlib.Tactic.Ring

namespace Lsl

namespace Literal

/-! ### Numerals -/

/-- The value of a digit, in bases up to sixteen. -/
def digitOf (c : Char) : Nat :=
  if c.isDigit then c.toNat - '0'.toNat
  else if 'a' ≤ c then c.toNat - 'a'.toNat + 10
  else c.toNat - 'A'.toNat + 10

/-- The number that digits stand for in a base. -/
def numeral (base : Nat) (digits : List Char) : Nat :=
  Nat.ofDigits base (digits.reverse.map digitOf)

/-- There are digits, and all of them are decimal. -/
def IsDecimal (digits : List Char) : Prop := digits ≠ [] ∧ ∀ c ∈ digits, c.isDigit = true

/-- There are digits, and all of them are hexadecimal. -/
def IsHexadecimal (digits : List Char) : Prop := digits ≠ [] ∧ ∀ c ∈ digits, c.isHexDigit = true

instance : DecidablePred IsDecimal := fun digits =>
  decidable_of_iff (digits ≠ [] ∧ digits.all Char.isDigit = true)
    (and_congr_right fun _ => List.all_eq_true)

instance : DecidablePred IsHexadecimal := fun digits =>
  decidable_of_iff (digits ≠ [] ∧ digits.all Char.isHexDigit = true)
    (and_congr_right fun _ => List.all_eq_true)

section Numerals

variable {base : Nat} {digits : List Char} {c : Char}

theorem numeral_concat (base : Nat) (digits : List Char) (c : Char) :
    numeral base (digits ++ [c]) = numeral base digits * base + digitOf c := by
  rw [numeral, List.reverse_append, List.reverse_singleton, List.singleton_append, List.map_cons,
    Nat.ofDigits_cons, ← numeral]
  ring

theorem numeral_eq_foldl (base : Nat) (digits : List Char) :
    numeral base digits = digits.foldl (fun n c => n * base + digitOf c) 0 := by
  induction digits using List.reverseRecOn with
  | nil => rfl
  | append_singleton digits c ih => rw [numeral_concat, List.foldl_concat, ih]

theorem digitsValue_eq (h : ∀ c ∈ digits, c.isDigit = true) :
    Json.digitsValue digits = numeral 10 digits := by
  rw [Json.digitsValue, numeral_eq_foldl]
  refine List.foldl_ext _ _ 0 fun n c hc => ?_
  rw [digitOf, if_pos (h c hc)]

theorem decimal?_eq (h : IsDecimal digits) : decimal? digits = some (numeral 10 digits) := by
  obtain ⟨hne, hdigits⟩ := h
  have hbad : (digits.isEmpty || !digits.all Char.isDigit) = false := by
    simpa [hne] using hdigits
  rw [decimal?, hbad, digitsValue_eq hdigits]
  rfl

theorem isDigit_iff (c : Char) : c.isDigit = true ↔ 48 ≤ c.toNat ∧ c.toNat ≤ 57 := by
  simp [Char.isDigit, UInt32.le_iff_toNat_le]

theorem hexValue?_digit (h : c.isHexDigit = true) : Json.hexValue? c = some (digitOf c) := by
  have hclass : (48 ≤ c.toNat ∧ c.toNat ≤ 57) ∨ (97 ≤ c.toNat ∧ c.toNat ≤ 102)
      ∨ (65 ≤ c.toNat ∧ c.toNat ≤ 70) := by
    simpa [Char.isHexDigit, Char.isDigit, UInt32.le_iff_toNat_le, or_assoc] using h
  have hdigit : ('0' ≤ c ∧ c ≤ '9') ↔ 48 ≤ c.toNat ∧ c.toNat ≤ 57 := by
    simp [Char.le_def, UInt32.le_iff_toNat_le]
  have hsmall : ('a' ≤ c ∧ c ≤ 'f') ↔ 97 ≤ c.toNat ∧ c.toNat ≤ 102 := by
    simp [Char.le_def, UInt32.le_iff_toNat_le]
  have hlarge : ('A' ≤ c ∧ c ≤ 'F') ↔ 65 ≤ c.toNat ∧ c.toNat ≤ 70 := by
    simp [Char.le_def, UInt32.le_iff_toNat_le]
  have hlower : 'a' ≤ c ↔ 97 ≤ c.toNat := by
    simp [Char.le_def, UInt32.le_iff_toNat_le]
  rw [Json.hexValue?, digitOf]
  simp only [hdigit, hsmall, hlarge, isDigit_iff]
  simp only [hlower]
  rcases hclass with h | h | h
  · rw [if_pos h, if_pos h]
  · rw [if_neg (by omega), if_pos h, if_neg (by omega), if_pos (by omega)]
  · rw [if_neg (by omega), if_neg (by omega), if_pos h, if_neg (by omega), if_neg (by omega)]

theorem hexValue?_eq (h : IsHexadecimal digits) : hexValue? digits = some (numeral 16 digits) := by
  obtain ⟨hne, hdigits⟩ := h
  rw [hexValue?, if_neg (by simpa using hne)]
  clear hne
  induction digits using List.reverseRecOn with
  | nil => rfl
  | append_singleton digits c ih =>
    have hfront : ∀ d ∈ digits, d.isHexDigit = true := fun d hd =>
      hdigits d (List.mem_append_left _ hd)
    have hlast : c.isHexDigit = true := hdigits c (by simp)
    rw [List.foldlM_append, ih hfront, numeral_concat]
    simp [hexValue?_digit hlast]

end Numerals

/-! ### Integers -/

section Integers

variable {digits text : List Char} {mark : Char}

def decimalValue? (digits : List Char) : Option Int :=
  if IsDecimal digits then some (numeral 10 digits) else none

def hexadecimalValue? (digits : List Char) : Option Int :=
  if IsHexadecimal digits then some (numeral 16 digits) else none

/-- The number that the host reads in the text of an integer: decimal digits with
or without a minus sign, or hexadecimal digits behind their mark. -/
def hostValue? : List Char → Option Int
  | '-' :: digits => (decimalValue? digits).map (- ·)
  | '0' :: 'x' :: digits => hexadecimalValue? digits
  | '0' :: 'X' :: digits => hexadecimalValue? digits
  | digits => decimalValue? digits

theorem hostValue?_decimal (h : IsDecimal digits) :
    hostValue? digits = some (numeral 10 digits : Int) := by
  have hvalue : decimalValue? digits = some (numeral 10 digits : Int) := if_pos h
  unfold hostValue?
  split
  · exact absurd (h.2 '-' List.mem_cons_self) (by decide)
  · exact absurd (h.2 'x' (by simp)) (by decide)
  · exact absurd (h.2 'X' (by simp)) (by decide)
  · exact hvalue

theorem hostValue?_negative (h : IsDecimal digits) :
    hostValue? ('-' :: digits) = some (-(numeral 10 digits : Int)) := by
  rw [hostValue?, decimalValue?, if_pos h]
  rfl

theorem hostValue?_hexadecimal (hmark : mark = 'x' ∨ mark = 'X') (h : IsHexadecimal digits) :
    hostValue? ('0' :: mark :: digits) = some (numeral 16 digits : Int) := by
  rcases hmark with rfl | rfl
  · exact if_pos h
  · exact if_pos h

theorem isDecimal_toDigits (n : Nat) : IsDecimal (Nat.toDigits 10 n) :=
  ⟨Nat.toDigits_ne_nil, fun _ hc => Nat.isDigit_of_mem_toDigits (by decide) (by decide) hc⟩

/-- The digits that a number is shown with stand for it. -/
theorem numeral_toDigits (n : Nat) : numeral 10 (Nat.toDigits 10 n) = n := by
  calc numeral 10 (Nat.toDigits 10 n)
      = Json.digitsValue (Nat.toDigits 10 n) := (digitsValue_eq (isDecimal_toDigits n).2).symm
    _ = Nat.ofDigitChars 10 (Nat.toDigits 10 n) 0 := by
        simp only [Json.digitsValue, Nat.ofDigitChars_eq_foldl, Nat.mul_comm]
    _ = n := Nat.ofDigitChars_toDigits (by decide) (by decide)

theorem hostValue?_repr (n : Int) : hostValue? n.repr.toList = some n := by
  cases n with
  | ofNat n =>
    have hshown : (Int.repr (Int.ofNat n)).toList = Nat.toDigits 10 n := Nat.toList_repr
    rw [hshown, hostValue?_decimal (isDecimal_toDigits n), numeral_toDigits]
    rfl
  | negSucc n =>
    have hshown : (Int.repr (Int.negSucc n)).toList = '-' :: Nat.toDigits 10 (n + 1) := by
      rw [Int.repr, String.toList_append, Nat.toList_repr]
      rfl
    rw [hshown, hostValue?_negative (isDecimal_toDigits _), numeral_toDigits]
    rfl

theorem signedDecimal?_eq (h : IsDecimal digits) :
    signedDecimal? digits = some (numeral 10 digits : Int) := by
  unfold signedDecimal?
  split
  · exact absurd (h.2 '+' List.mem_cons_self) (by decide)
  · exact absurd (h.2 '-' List.mem_cons_self) (by decide)
  · rw [decimal?_eq h]
    rfl

theorem integer_eq {text : String} (h : IsDecimal text.toList) :
    integer text = if numeral 10 text.toList ≤ maxInteger then text else "-1" := by
  rw [integer, integerChars, signedDecimal?_eq h]
  by_cases hfits : numeral 10 text.toList ≤ maxInteger
  · have hrange : -0x8000000000000000 ≤ (numeral 10 text.toList : Int)
        ∧ (numeral 10 text.toList : Int) ≤ maxInteger := by
      constructor <;> omega
    rw [if_pos hfits]
    simp only [hrange, and_self, if_true, String.ofList_toList]
  · have hrange : ¬((numeral 10 text.toList : Int) ≤ maxInteger) := by omega
    rw [if_neg hfits]
    simp only [hrange, and_false, if_false]

/-- A mark in front of digits is no part of them. -/
theorem dropMarks_digits {a b : Char} (hb : b.isHexDigit = false) (h : IsHexadecimal digits) :
    dropMarks a b digits = digits := by
  unfold dropMarks
  split
  · rename_i x y rest
    have hne : y ≠ b := fun heq => by simp [← heq, h.2 y (by simp)] at hb
    rw [if_neg fun hboth => hne hboth.2]
  · rfl

theorem hexNumber?_marked (hmark : mark = 'x' ∨ mark = 'X') (h : IsHexadecimal digits) :
    hexNumber? ('0' :: mark :: digits) = some (numeral 16 digits) := by
  have hdrop : dropMarks '0' 'X' (dropMarks '0' 'x' ('0' :: mark :: digits)) = digits := by
    rcases hmark with rfl | rfl
    · rw [dropMarks, if_pos ⟨rfl, rfl⟩, dropMarks_digits (by decide) h,
        dropMarks_digits (by decide) h]
    · rw [dropMarks, if_neg (by decide), dropMarks, if_pos ⟨rfl, rfl⟩,
        dropMarks_digits (by decide) h]
  rw [hexNumber?, hdrop]
  split
  · exact absurd (h.2 '+' List.mem_cons_self) (by decide)
  · exact hexValue?_eq h

theorem toInt_ofNat_of_signBit {n : Nat} (hlow : maxInteger < n) (hhigh : n < 0x100000000) :
    (BitVec.ofNat 32 n).toInt = (n : Int) - 0x100000000 := by
  have hvalue : (BitVec.ofNat 32 n).toNat = n := by
    rw [BitVec.toNat_ofNat]
    omega
  rw [BitVec.toInt_eq_toNat_cond, hvalue, if_neg (by unfold maxInteger at hlow; omega)]
  norm_num

theorem hostValue?_hex {text : String} (htext : text.toList = '0' :: mark :: digits)
    (hmark : mark = 'x' ∨ mark = 'X') (h : IsHexadecimal digits) :
    hostValue? (hex text).toList = some
      (if numeral 16 digits ≤ maxInteger then (numeral 16 digits : Int)
        else if numeral 16 digits < 0x100000000 then (BitVec.ofNat 32 (numeral 16 digits)).toInt
        else -1) := by
  rw [hex, htext, hexNumber?_marked hmark h]
  dsimp only
  by_cases hfits : numeral 16 digits ≤ maxInteger
  · rw [if_pos hfits, if_pos hfits, htext, hostValue?_hexadecimal hmark h]
  by_cases hbits : numeral 16 digits < 0x100000000
  · rw [if_neg hfits, if_neg hfits, if_pos hbits, if_pos hbits, hostValue?_repr,
      toInt_ofNat_of_signBit (by omega) hbits]
  · have hshown : "-1" = Int.repr (-1) := by decide
    rw [if_neg hfits, if_neg hfits, if_neg hbits, if_neg hbits, hshown, hostValue?_repr]

end Integers

/-! ### Floats -/

/-- The exponent of a float. -/
structure Exponent where
  mark : Char
  sign : Option Char
  digits : List Char
  mark_ok : isExponentMark mark = true
  sign_ok : ∀ c ∈ sign, c = '+' ∨ c = '-'
  digits_ok : IsDecimal digits

namespace Exponent

def text (x : Exponent) : List Char := x.mark :: (x.sign.toList ++ x.digits)

/-- The number of places that the point moves. -/
def value (x : Exponent) : ℤ :=
  if x.sign = some '-' then -(numeral 10 x.digits : ℤ) else numeral 10 x.digits

end Exponent

/-- A float as it is written in a script: digits around a point, at least one of
them, and perhaps an exponent and a suffix. -/
structure FloatForm where
  whole : List Char
  fraction : List Char
  exponent : Option Exponent
  suffix : Option Char
  whole_ok : ∀ c ∈ whole, c.isDigit = true
  fraction_ok : ∀ c ∈ fraction, c.isDigit = true
  digits_ne_nil : whole ++ fraction ≠ []
  suffix_ok : ∀ c ∈ suffix, isFloatSuffix c = true

namespace FloatForm

/-- The exponent as it is written, if there is one. -/
def exponentText (l : FloatForm) : List Char := (l.exponent.map Exponent.text).getD []

def text (l : FloatForm) : List Char :=
  l.whole ++ '.' :: (l.fraction ++ (l.exponentText ++ l.suffix.toList))

/-- The number that the float stands for. -/
def value (l : FloatForm) : ℚ :=
  numeral 10 (l.whole ++ l.fraction) / 10 ^ l.fraction.length
    * 10 ^ ((l.exponent.map Exponent.value).getD 0)

/-- The float with a digit behind its point. -/
def pointed (l : FloatForm) : FloatForm :=
  if l.fraction = [] then
    { l with
      fraction := ['0']
      suffix := none
      fraction_ok := by simp
      digits_ne_nil := by simp
      suffix_ok := by simp }
  else l

theorem pointed_fraction_ne_nil (l : FloatForm) : l.pointed.fraction ≠ [] := by
  unfold pointed
  split
  · simp
  · assumption

theorem value_pointed (l : FloatForm) : l.pointed.value = l.value := by
  unfold pointed
  split
  · rename_i hnone
    have hdigit : (numeral 10 (l.whole ++ ['0']) : ℚ) = numeral 10 l.whole * 10 := by
      have hzero : digitOf '0' = 0 := by decide
      rw [numeral_concat, hzero, Nat.add_zero, Nat.cast_mul]
      rfl
    simp only [value, hnone, hdigit, List.append_nil, List.length_nil, List.length_cons]
    norm_num
  · rfl

/-- The float without its suffix. -/
def body (l : FloatForm) : List Char := l.whole ++ '.' :: l.fraction ++ l.exponentText

theorem text_eq_body (l : FloatForm) : l.text = l.body ++ l.suffix.toList := by
  simp [text, body]

/-- What a digit is not. -/
theorem digit_apart {c : Char} (h : c.isDigit = true) :
    isFloatSuffix c = false ∧ isExponentMark c = false ∧ c ≠ '.' ∧ c ≠ '-' := by
  refine ⟨?_, ?_, ?_, ?_⟩
  · simp only [isFloatSuffix, Bool.or_eq_false_iff, beq_eq_false_iff_ne]
    constructor <;> rintro rfl <;> exact absurd h (by decide)
  · simp only [isExponentMark, Bool.or_eq_false_iff, beq_eq_false_iff_ne]
    constructor <;> rintro rfl <;> exact absurd h (by decide)
  · rintro rfl
    exact absurd h (by decide)
  · rintro rfl
    exact absurd h (by decide)

/-- The characters of an exponent: its mark, a sign, and digits. -/
theorem mem_exponentText {l : FloatForm} {c : Char} (h : c ∈ l.exponentText) :
    isExponentMark c = true ∨ c = '+' ∨ c = '-' ∨ c.isDigit = true := by
  unfold exponentText at h
  cases hx : l.exponent with
  | none => simp [hx] at h
  | some x =>
    simp only [hx, Option.map_some, Option.getD_some, Exponent.text, List.mem_cons,
      List.mem_append, Option.mem_toList] at h
    rcases h with rfl | h | h
    · exact .inl x.mark_ok
    · exact .inr ((x.sign_ok c h).imp_right .inl)
    · exact .inr (.inr (.inr (x.digits_ok.2 c h)))

theorem not_suffix_of_mem_body {l : FloatForm} {c : Char} (h : c ∈ l.body) :
    isFloatSuffix c = false := by
  simp only [body, List.mem_append, List.mem_cons] at h
  rcases h with (h | rfl | h) | h
  · exact (digit_apart (l.whole_ok c h)).1
  · decide
  · exact (digit_apart (l.fraction_ok c h)).1
  · rcases mem_exponentText h with hmark | rfl | rfl | hdigit
    · simp only [isExponentMark, Bool.or_eq_true, beq_iff_eq] at hmark
      rcases hmark with rfl | rfl <;> decide
    · decide
    · decide
    · exact (digit_apart hdigit).1

theorem dropEnd_text (l : FloatForm) : Text.dropEnd isFloatSuffix l.text = l.body := by
  rw [text_eq_body]
  exact Text.dropEnd_trail (fun c hc => not_suffix_of_mem_body (List.mem_of_getLast? hc))
    fun c hc => l.suffix_ok c (Option.mem_toList.mp hc)

theorem not_mark_of_mem_mantissa {l : FloatForm} {c : Char} (h : c ∈ l.whole ++ '.' :: l.fraction) :
    (!isExponentMark c) = true := by
  rcases List.mem_append.mp h with h | h
  · simp [(digit_apart (l.whole_ok c h)).2.1]
  rcases List.mem_cons.mp h with rfl | h
  · decide
  · simp [(digit_apart (l.fraction_ok c h)).2.1]

theorem mark_of_head_exponentText {l : FloatForm} {c : Char} (h : l.exponentText.head? = some c) :
    (!isExponentMark c) = false := by
  unfold exponentText at h
  cases hx : l.exponent with
  | none => simp [hx] at h
  | some x =>
    obtain rfl : x.mark = c := by simpa [hx, Exponent.text] using h
    simp [x.mark_ok]

theorem takeWhile_body (l : FloatForm) :
    l.body.takeWhile (!isExponentMark ·) = l.whole ++ '.' :: l.fraction :=
  Text.takeWhile_lead (fun _ => not_mark_of_mem_mantissa) fun _ => mark_of_head_exponentText

theorem dropWhile_body (l : FloatForm) :
    l.body.dropWhile (!isExponentMark ·) = l.exponentText :=
  Text.dropWhile_lead (fun _ => not_mark_of_mem_mantissa) fun _ => mark_of_head_exponentText

/-- The mantissa ends at the point where no digits follow it. -/
theorem getLast?_mantissa (l : FloatForm) :
    (l.whole ++ '.' :: l.fraction).getLast? = some '.' ↔ l.fraction = [] := by
  constructor
  · intro h
    by_contra hsome
    have hlast : l.fraction.getLast? = some '.' := by
      obtain ⟨digits, d, hfraction⟩ := (List.eq_nil_or_concat l.fraction).resolve_left hsome
      rw [List.concat_eq_append] at hfraction
      rw [hfraction, ← List.cons_append, ← List.append_assoc, List.getLast?_concat] at h
      rw [hfraction, List.getLast?_concat, h]
    exact (digit_apart (l.fraction_ok _ (List.mem_of_getLast? hlast))).2.2.1 rfl
  · intro h
    simp [h]

theorem floatChars_text (l : FloatForm) : floatChars l.text = l.pointed.text := by
  rw [floatChars, dropEnd_text, takeWhile_body, dropWhile_body]
  by_cases hnone : l.fraction = []
  · rw [if_pos (l.getLast?_mantissa.mpr hnone), pointed, if_pos hnone]
    simp [text, exponentText, hnone]
  · rw [if_neg (mt l.getLast?_mantissa.mp hnone), pointed, if_neg hnone]

theorem pointed_of_ne_nil {l : FloatForm} (h : l.fraction ≠ []) : l.pointed = l := if_neg h

/-- What stands behind the digits of a float. -/
def tail (l : FloatForm) : List Char := l.exponentText ++ l.suffix.toList

theorem mem_tail {l : FloatForm} {c : Char} (h : c ∈ l.tail) :
    isFloatSuffix c = true ∨ isExponentMark c = true ∨ c = '+' ∨ c = '-' ∨ c.isDigit = true :=
  (List.mem_append.mp h).elim (fun h => .inr (mem_exponentText h))
    fun h => .inl (l.suffix_ok c (Option.mem_toList.mp h))

theorem point_not_mem_tail (l : FloatForm) : '.' ∉ l.tail := by
  intro h
  rcases mem_tail h with h | h | h | h | h <;> exact absurd h (by decide)

theorem point_not_mem_fraction (l : FloatForm) : '.' ∉ l.fraction := fun h =>
  absurd (l.fraction_ok '.' h) (by decide)

/-- A point in a float is the one behind its whole digits. -/
theorem text_eq_iff {l : FloatForm} {before after : List Char} :
    l.text = before ++ '.' :: after ↔ l.whole = before ∧ l.fraction ++ l.tail = after := by
  have hwhole : '.' ∉ l.whole := fun h => absurd (l.whole_ok '.' h) (by decide)
  have hafter : '.' ∉ l.fraction ++ l.tail := fun h =>
    (List.mem_append.mp h).elim l.point_not_mem_fraction l.point_not_mem_tail
  have hsplit : l.text = before ++ '.' :: after
      ↔ l.whole = before ∧ '.' = '.' ∧ l.fraction ++ l.tail = after :=
    List.append_cons_inj_of_notMem hwhole hafter
  rw [hsplit, eq_self, true_and]

/-- Where a point stands with a digit behind it, so do all. -/
theorem digit_behind_point {l : FloatForm} (hsome : l.fraction ≠ []) {before after : List Char}
    (h : l.text = before ++ '.' :: after) : ∃ c rest, after = c :: rest ∧ c.isDigit = true := by
  obtain ⟨-, rfl⟩ := text_eq_iff.mp h
  obtain ⟨c, rest, hfraction⟩ := List.exists_cons_of_ne_nil hsome
  exact ⟨c, rest ++ l.tail, by rw [hfraction]; rfl, l.fraction_ok c (by simp [hfraction])⟩

theorem not_digit_of_head_tail {l : FloatForm} {c : Char} (h : l.tail.head? = some c) :
    c.isDigit = false := by
  unfold tail exponentText at h
  by_contra hdigit
  rw [Bool.not_eq_false] at hdigit
  obtain ⟨hsuffix, hmark, -⟩ := digit_apart hdigit
  cases hx : l.exponent with
  | none =>
    have hmem : c ∈ l.suffix := by simpa [hx] using h
    exact Bool.false_ne_true (hsuffix.symm.trans (l.suffix_ok c hmem))
  | some x =>
    obtain rfl : x.mark = c := by simpa [hx, Exponent.text] using h
    exact Bool.false_ne_true (hmark.symm.trans x.mark_ok)

theorem takeWhile_fraction (l : FloatForm) :
    (l.fraction ++ l.tail).takeWhile Char.isDigit = l.fraction :=
  Text.takeWhile_lead l.fraction_ok fun _ => not_digit_of_head_tail

/-- The number that is read in what follows the digits of a float. -/
def tailValue (tail : List Char) : ℤ :=
  if tail[1]? = some '-' then -(numeral 10 (tail.filter Char.isDigit) : ℤ)
  else numeral 10 (tail.filter Char.isDigit)

theorem exponent_value (l : FloatForm) :
    (l.exponent.map Exponent.value).getD 0 = tailValue l.tail := by
  have hsuffix : l.suffix.toList.filter Char.isDigit = [] := by
    rw [List.filter_eq_nil_iff]
    intro c hc hdigit
    have hmark := l.suffix_ok c (Option.mem_toList.mp hc)
    exact Bool.false_ne_true ((digit_apart hdigit).1.symm.trans hmark)
  cases hx : l.exponent with
  | none =>
    have htail : l.tail = l.suffix.toList := by simp [tail, exponentText, hx]
    have hshort : l.suffix.toList[1]? = none := by cases l.suffix <;> rfl
    rw [htail, tailValue, hshort, hsuffix]
    rfl
  | some x =>
    have hsign : x.sign.toList.filter Char.isDigit = [] := by
      rw [List.filter_eq_nil_iff]
      intro c hc
      rcases x.sign_ok c (Option.mem_toList.mp hc) with rfl | rfl <;> decide
    have hmark : ¬x.mark.isDigit = true := fun hdigit =>
      Bool.false_ne_true ((digit_apart hdigit).2.1.symm.trans x.mark_ok)
    have htail : l.tail = x.mark :: (x.sign.toList ++ x.digits ++ l.suffix.toList) := by
      simp [tail, exponentText, hx, Exponent.text]
    have hdigits : l.tail.filter Char.isDigit = x.digits := by
      rw [htail, List.filter_cons_of_neg hmark, List.filter_append, List.filter_append, hsign,
        hsuffix, List.nil_append, List.append_nil, List.filter_eq_self]
      exact x.digits_ok.2
    have hminus : l.tail[1]? = some '-' ↔ x.sign = some '-' := by
      obtain ⟨d, digits, hd⟩ := List.exists_cons_of_ne_nil x.digits_ok.1
      rw [htail]
      cases hs : x.sign with
      | none =>
        have hdigit : d.isDigit = true := x.digits_ok.2 d (by simp [hd])
        simpa [hd] using (digit_apart hdigit).2.2.2
      | some c => simp
    rw [tailValue, hdigits]
    simp only [hminus, Option.map_some, Option.getD_some, Exponent.value]

theorem value_eq_of_text_eq {a b : FloatForm} (h : a.text = b.text) : a.value = b.value := by
  obtain ⟨hwhole, hrest⟩ := text_eq_iff.mp h
  have hfraction : a.fraction = b.fraction := by
    rw [← a.takeWhile_fraction, ← b.takeWhile_fraction, hrest]
    rfl
  have htail : a.tail = b.tail := by
    rw [hfraction] at hrest
    exact List.append_cancel_left hrest
  rw [value, value, exponent_value, exponent_value, hwhole, hfraction, htail]

end FloatForm

/-! ### Main statement -/

/-- **Numbers keep their value.** An integer that 32 bits hold is written as a text
for the same number, and any other one as -1. A hexadecimal number that is no
larger is kept too; one of 32 bits becomes the number that its bits stand for
with a sign, and a larger one -1. A float is written as a float of the same
value with a digit behind each point, and written again it stays as it is; no
text stands for two numbers. -/
theorem numbers_kept :
    (∀ text : String, IsDecimal text.toList →
        (numeral 10 text.toList ≤ 2 ^ 31 - 1 →
          hostValue? (integer text).toList = some (numeral 10 text.toList : ℤ))
        ∧ (2 ^ 31 - 1 < numeral 10 text.toList → integer text = "-1"))
      ∧ (∀ (text : String) (mark : Char) (digits : List Char), mark = 'x' ∨ mark = 'X' →
          IsHexadecimal digits → text.toList = '0' :: mark :: digits →
          (numeral 16 digits ≤ 2 ^ 31 - 1 →
            hostValue? (hex text).toList = some (numeral 16 digits : ℤ))
          ∧ (2 ^ 31 ≤ numeral 16 digits → numeral 16 digits ≤ 2 ^ 32 - 1 →
            hostValue? (hex text).toList = some (BitVec.ofNat 32 (numeral 16 digits)).toInt)
          ∧ (2 ^ 32 - 1 < numeral 16 digits → hostValue? (hex text).toList = some (-1)))
      ∧ (∀ (text : String) (l : FloatForm), text.toList = l.text →
          (∃ l' : FloatForm, (float text).toList = l'.text ∧ l'.value = l.value)
          ∧ (∀ before after, (float text).toList = before ++ '.' :: after →
              ∃ c rest, after = c :: rest ∧ c.isDigit = true)
          ∧ float (float text) = float text)
      ∧ ∀ l l' : FloatForm, l.text = l'.text → l.value = l'.value := by
  refine ⟨fun text h => ⟨fun hfits => ?_, fun hlarge => ?_⟩,
    fun text mark digits hmark h htext => ⟨fun hfits => ?_, fun hlow hhigh => ?_, fun hlarge => ?_⟩,
    fun text l htext => ?_, fun l l' => FloatForm.value_eq_of_text_eq⟩
  · rw [integer_eq h, if_pos (by unfold maxInteger; omega), hostValue?_decimal h]
  · rw [integer_eq h, if_neg (by unfold maxInteger; omega)]
  · rw [hostValue?_hex htext hmark h, if_pos (by unfold maxInteger; omega)]
  · rw [hostValue?_hex htext hmark h, if_neg (by unfold maxInteger; omega), if_pos (by omega)]
  · rw [hostValue?_hex htext hmark h, if_neg (by unfold maxInteger; omega), if_neg (by omega)]
  · have hwritten : (float text).toList = l.pointed.text := by
      rw [float, htext, String.toList_ofList, FloatForm.floatChars_text]
    refine ⟨⟨l.pointed, hwritten, l.value_pointed⟩, fun before after hpoint => ?_, ?_⟩
    · exact FloatForm.digit_behind_point l.pointed_fraction_ne_nil (hwritten ▸ hpoint)
    · have hagain : floatChars (float text).toList = (float text).toList := by
        rw [hwritten, FloatForm.floatChars_text,
          FloatForm.pointed_of_ne_nil l.pointed_fraction_ne_nil]
      rw [float, hagain, String.ofList_toList]

/-- The float `1.e5f`. -/
def hundredThousand : FloatForm where
  whole := ['1']
  fraction := []
  exponent := some ⟨'e', none, ['5'], by decide, by simp, by decide⟩
  suffix := some 'f'
  whole_ok := List.forall_mem_singleton.mpr (by decide)
  fraction_ok := by simp
  digits_ne_nil := by simp
  suffix_ok := by
    rintro c ⟨⟩
    decide

/-- The first integer that does not fit, the number that is the sign bit alone, and
a float without digits behind its point. -/
theorem numbers_kept_edges :
    integer "2147483648" = "-1"
      ∧ hostValue? (hex "0x80000000").toList = some (-2147483648)
      ∧ ∃ l : FloatForm, (float "1.e5f").toList = l.text ∧ l.value = 100000 := by
  obtain ⟨hintegers, hhexes, hfloats, -⟩ := numbers_kept
  have hdecimal : IsDecimal "2147483648".toList := by decide
  have hinteger : numeral 10 "2147483648".toList = 2147483648 := by decide
  have hhexadecimal : IsHexadecimal ['8', '0', '0', '0', '0', '0', '0', '0'] := by decide
  have hhex : numeral 16 ['8', '0', '0', '0', '0', '0', '0', '0'] = 2147483648 := by decide
  refine ⟨(hintegers "2147483648" hdecimal).2 (by omega), ?_, ?_⟩
  · have hbits := (hhexes "0x80000000" 'x' ['8', '0', '0', '0', '0', '0', '0', '0'] (.inl rfl)
      hhexadecimal rfl).2.1 (by omega) (by omega)
    rw [hbits, hhex]
    rfl
  · have hwhole : numeral 10 (hundredThousand.whole ++ hundredThousand.fraction) = 1 := by decide
    have hmoved : ((hundredThousand.exponent.map Exponent.value).getD 0) = 5 := by decide
    have hvalue : hundredThousand.value = 100000 := by
      rw [FloatForm.value, hwhole, hmoved]
      norm_num [hundredThousand]
    rw [← hvalue]
    exact (hfloats "1.e5f" hundredThousand rfl).1

end Literal

end Lsl
