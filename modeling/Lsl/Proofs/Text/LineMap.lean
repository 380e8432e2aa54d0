/- # Places in a source text

The place of a byte is told by the bytes before it: their newlines give the
line, and what follows the last of them gives the column. The table of lines
holds 0 and the offsets behind the newlines, in their order; seen from an offset
it falls into the starts of the lines up to its own and those of the later ones,
and the search finds the border. No byte of a longer character is a newline, so
that the lines, cut out by bytes, are the pieces between the newlines. A place
further on in the text comes later, so that a place stands for one offset only.

Key definitions: `Text.bytes`, `LineMap.placeBehind`, `LineMap.bytesBefore`.
Key theorems: `LineMap.search_spec`, `LineMap.lineCol_eq`, `LineMap.placeBehind_lt`,
`LineMap.slice?_starts`, `LineMap.lines_and_columns`.
-/
import Lsl.LineMap
import Mathlib.Data.List.DropRight
import Mathlib.Data.Prod.Lex

namespace Lsl

/-! ### Bytes -/

namespace Text

/-- The bytes that a text is stored in. -/
def bytes (text : List Char) : List UInt8 := text.flatMap String.utf8EncodeChar

theorem bytes_toList (source : String) : bytes source.toList = source.toUTF8.data.toList := by
  conv => rhs; rw [← String.ofList_toList (s := source)]
  rw [String.toUTF8_eq_toByteArray, String.toByteArray_ofList]
  exact List.toList_data_toByteArray.symm

theorem length_bytes (text : List Char) :
    (bytes text).length = (String.ofList text).utf8ByteSize := by
  rw [← String.size_toByteArray, String.toByteArray_ofList, List.utf8Encode,
    ← ByteArray.size_data, ← Array.length_toList, List.toList_data_toByteArray, bytes]

/-- The bytes of a character that takes several are all large. -/
theorem large_of_mem_utf8EncodeChar {c : Char} {b : UInt8} (hc : 127 < c.val.toNat)
    (hb : b ∈ String.utf8EncodeChar c) : 127 < b.toNat := by
  unfold String.utf8EncodeChar at hb
  generalize c.val.toNat = v at hc hb
  dsimp only at hb
  rw [if_neg (by omega)] at hb
  have hvalue : ∃ n, b = UInt8.ofNat n ∧ 127 < n ∧ n < 256 := by
    split at hb
    · simp only [List.mem_cons, List.not_mem_nil, or_false] at hb
      rcases hb with hb | hb <;> exact ⟨_, hb, by omega⟩
    · split at hb <;> simp only [List.mem_cons, List.not_mem_nil, or_false] at hb
      · rcases hb with hb | hb | hb <;> exact ⟨_, hb, by omega⟩
      · rcases hb with hb | hb | hb | hb <;> exact ⟨_, hb, by omega⟩
  obtain ⟨n, rfl, hlow, hhigh⟩ := hvalue
  rw [UInt8.toNat_ofNat']
  omega

theorem newline_not_mem_utf8EncodeChar {c : Char} (hc : c ≠ '\n') :
    newline ∉ String.utf8EncodeChar c := by
  intro hmem
  rcases Nat.lt_or_ge 127 c.val.toNat with hlarge | hsmall
  · exact absurd (large_of_mem_utf8EncodeChar hlarge hmem) (by decide)
  · have hsize : c.utf8Size = 1 :=
      Char.utf8Size_eq_one_iff.mpr (UInt32.le_iff_toNat_le.mpr hsmall)
    rw [String.utf8EncodeChar_eq_singleton hsize, List.mem_singleton] at hmem
    have hmod : 10 = c.val.toNat % 256 := congrArg UInt8.toNat hmem
    have hval : c.val.toNat = 10 := by omega
    exact hc (Char.ext (UInt32.toNat_inj.mp hval))

theorem newline_mem_bytes {text : List Char} : newline ∈ bytes text ↔ '\n' ∈ text := by
  rw [bytes, List.mem_flatMap]
  constructor
  · rintro ⟨c, hc, hmem⟩
    by_cases heq : c = '\n'
    · rwa [← heq]
    · exact absurd hmem (newline_not_mem_utf8EncodeChar heq)
  · exact fun h => ⟨'\n', h, by decide⟩

theorem bytes_newline (first rest : List Char) :
    bytes (first ++ '\n' :: rest) = bytes first ++ newline :: bytes rest := by
  rw [bytes, List.flatMap_append, List.flatMap_cons]
  rfl

/-- Cutting behind some characters finds them. -/
theorem cutAt?_bytes (front back : List Char) :
    cutAt? (bytes front).length (front ++ back) = some (front, back) := by
  induction front with
  | nil => rw [bytes, List.flatMap_nil, List.length_nil, List.nil_append, cutAt?]
  | cons c front ih =>
    have hlength : (bytes (c :: front)).length = (bytes front).length + c.utf8Size := by
      rw [bytes, List.flatMap_cons, List.length_append, String.length_utf8EncodeChar, ← bytes,
        Nat.add_comm]
    obtain ⟨n, hn⟩ := Nat.exists_eq_add_of_lt c.utf8Size_pos
    have hpred : (bytes (c :: front)).length = (bytes front).length + n + 1 := by omega
    have hrest : (bytes front).length + n + 1 - c.utf8Size = (bytes front).length := by omega
    rw [hpred, List.cons_append, cutAt?, if_pos (by omega), hrest, ih]
    rfl

theorem slice?_bytes (front part back : List Char) :
    slice? (front ++ (part ++ back)) (bytes front).length
      ((bytes front).length + (bytes part).length) = some part := by
  rw [slice?, if_pos (Nat.le_add_right _ _), cutAt?_bytes, Nat.add_sub_cancel_left]
  simp only [Option.bind_eq_bind, Option.bind_some, cutAt?_bytes]
  rfl

end Text

namespace LineMap

open Text

/-! ### Lines -/

section Lines

variable {first rest text : List Char}

/-- A text is a last line, or a line, a newline and a text. -/
@[elab_as_elim]
theorem line_induction {P : List Char → Prop} (last : ∀ text, '\n' ∉ text → P text)
    (more : ∀ first rest, '\n' ∉ first → P rest → P (first ++ '\n' :: rest)) (text : List Char) :
    P text := by
  induction hlength : text.length using Nat.strong_induction_on generalizing text with
  | _ n ih =>
    by_cases hmem : '\n' ∈ text
    · obtain ⟨first, rest, rfl, hfirst⟩ := List.eq_append_cons_of_mem hmem
      refine more first rest hfirst (ih rest.length ?_ rest rfl)
      rw [← hlength, List.length_append, List.length_cons]
      omega
    · exact last text hmem

theorem splitOn_last (h : '\n' ∉ text) : text.splitOn '\n' = [text] := by
  refine List.splitOnP_eq_singleton fun c hc => ?_
  simpa using ne_of_mem_of_not_mem hc h

theorem splitOn_more (h : '\n' ∉ first) :
    (first ++ '\n' :: rest).splitOn '\n' = first :: rest.splitOn '\n' := by
  refine List.splitOnP_append_cons_of_forall_mem (fun c hc => ?_) '\n' (by simp) rest
  simpa using ne_of_mem_of_not_mem hc h

end Lines

/-! ### Places -/

section Places

variable {before more : List UInt8}

/-- The bytes behind the last newline. -/
def lastLine (before : List UInt8) : List UInt8 := before.rtakeWhile (· != newline)

/-- The line and the column behind some bytes of a text. -/
def placeBehind (before : List UInt8) : Nat × Nat :=
  (before.count newline + 1, (lastLine before).length + 1)

theorem lastLine_append (h : newline ∉ more) :
    lastLine (before ++ more) = lastLine before ++ more := by
  have hall : ∀ b ∈ more.reverse, (b != newline) = true := fun b hb => by
    have hne : b ≠ newline := ne_of_mem_of_not_mem (List.mem_reverse.mp hb) h
    simpa using hne
  rw [lastLine, List.rtakeWhile, List.reverse_append, List.takeWhile_append_of_pos hall,
    List.reverse_append, List.reverse_reverse]
  rfl

theorem placeBehind_append (h : newline ∉ more) :
    placeBehind (before ++ more) =
      ((placeBehind before).1, (placeBehind before).2 + more.length) := by
  simp only [placeBehind, lastLine_append h, List.count_append, List.count_eq_zero_of_not_mem h,
    List.length_append, Nat.add_zero, Nat.add_right_comm]

/-- Further on in a text the place is a later one. -/
theorem placeBehind_lt (hmore : more ≠ []) :
    toLex (placeBehind before) < toLex (placeBehind (before ++ more)) := by
  rw [Prod.Lex.toLex_lt_toLex]
  by_cases hmem : newline ∈ more
  · have hcount : 0 < more.count newline := List.count_pos_iff.mpr hmem
    left
    simp only [placeBehind, List.count_append]
    omega
  · have hlength : 0 < more.length := List.length_pos_iff.mpr hmore
    right
    rw [placeBehind_append hmem]
    exact ⟨rfl, Nat.lt_add_of_pos_right hlength⟩

end Places

/-! ### The table of lines -/

section Table

variable {bytes front back : List UInt8} {k offset : Nat}

theorem behindNewlines_append (front back : List UInt8) (k : Nat) :
    behindNewlines (front ++ back) k =
      behindNewlines front k ++ behindNewlines back (k + front.length) := by
  rw [behindNewlines, List.zipIdx_append, List.filterMap_append, ← behindNewlines, ← behindNewlines]

theorem behindNewlines_cons (b : UInt8) (bytes : List UInt8) (k : Nat) :
    behindNewlines (b :: bytes) k =
      if b = newline then (k + 1) :: behindNewlines bytes (k + 1)
      else behindNewlines bytes (k + 1) := by
  by_cases hb : b = newline
  · simp [behindNewlines, hb]
  · simp [behindNewlines, hb]

theorem length_behindNewlines (bytes : List UInt8) (k : Nat) :
    (behindNewlines bytes k).length = bytes.count newline := by
  induction bytes generalizing k with
  | nil => rfl
  | cons b bytes ih =>
    rw [behindNewlines_cons]
    by_cases hb : b = newline
    · rw [if_pos hb, hb, List.count_cons_self, List.length_cons, ih]
    · rw [if_neg hb, List.count_cons_of_ne hb, ih]

theorem behindNewlines_of_not_mem (h : newline ∉ bytes) : behindNewlines bytes k = [] := by
  apply List.eq_nil_of_length_eq_zero
  rw [length_behindNewlines, List.count_eq_zero_of_not_mem h]

theorem lt_of_mem_behindNewlines {start : Nat} (h : start ∈ behindNewlines bytes k) :
    k < start := by
  induction bytes generalizing k with
  | nil => cases h
  | cons b bytes ih =>
    rw [behindNewlines_cons] at h
    split at h
    · rcases List.mem_cons.mp h with rfl | h
      · exact Nat.lt_succ_self k
      · exact Nat.lt_of_succ_lt (ih h)
    · exact Nat.lt_of_succ_lt (ih h)

/-- The lines start one behind another. -/
theorem behindNewlines_ordered (bytes : List UInt8) (k : Nat) :
    (behindNewlines bytes k).Pairwise (· < ·) := by
  induction bytes generalizing k with
  | nil => exact .nil
  | cons b bytes ih =>
    rw [behindNewlines_cons]
    split
    · exact List.pairwise_cons.mpr ⟨fun _ hmem => lt_of_mem_behindNewlines hmem, ih _⟩
    · exact ih _

/-- Behind the last start there is the last line. -/
theorem getLast?_starts (bytes : List UInt8) :
    (0 :: behindNewlines bytes 0).getLast? = some (bytes.length - (lastLine bytes).length)
      ∧ (lastLine bytes).length ≤ bytes.length := by
  induction bytes using List.reverseRecOn with
  | nil => exact ⟨rfl, Nat.le_refl _⟩
  | append_singleton front b ih =>
    obtain ⟨hlast, hle⟩ := ih
    rw [behindNewlines_append, behindNewlines_cons, List.length_append, List.length_singleton,
      Nat.zero_add]
    by_cases hb : b = newline
    · have hnone : lastLine (front ++ [b]) = [] := List.rtakeWhile_concat_neg _ _ _ (by simp [hb])
      rw [if_pos hb, hnone, ← List.cons_append, List.getLast?_append]
      exact ⟨rfl, Nat.zero_le _⟩
    · have hmore : lastLine (front ++ [b]) = lastLine front ++ [b] :=
        List.rtakeWhile_concat_pos _ _ _ (by simpa using hb)
      rw [if_neg hb, hmore, List.length_append, List.length_singleton, Nat.add_sub_add_right]
      have hsame : behindNewlines front 0 ++ behindNewlines [] (front.length + 1) =
          behindNewlines front 0 := List.append_nil _
      rw [hsame]
      exact ⟨hlast, Nat.add_le_add_right hle 1⟩

/-- Seen from an offset, some lines start no further on, and the others behind it. -/
theorem starts_split (h : offset ≤ bytes.length) :
    0 :: behindNewlines bytes 0 =
      (0 :: behindNewlines (bytes.take offset) 0) ++ behindNewlines (bytes.drop offset) offset := by
  have happend := behindNewlines_append (bytes.take offset) (bytes.drop offset) 0
  rwa [List.take_append_drop, List.length_take_of_le h, Nat.zero_add,
    ← List.cons_inj_right 0, ← List.cons_append] at happend

end Table

/-! ### The search -/

section Search

variable {table : Array Nat} {x low high : Nat}

theorem getElem_lt_of_ordered (h : table.toList.Pairwise (· < ·)) {i j : Nat} (hij : i < j)
    (hj : j < table.size) : table[i] < table[j] := by
  have hlists := List.pairwise_iff_getElem.mp h i j (hij.trans hj) hj hij
  rwa [Array.getElem_toList, Array.getElem_toList] at hlists

/-- What is left out of the search on the left is smaller, and what is left out on
the right is larger. -/
theorem search_spec (h : table.toList.Pairwise (· < ·)) (hlow : low ≤ high)
    (hhigh : high ≤ table.size) (hbelow : ∀ i, (hi : i < table.size) → i < low → table[i] < x)
    (habove : ∀ i, (hi : i < table.size) → high ≤ i → x < table[i]) :
    match search table x low high hlow hhigh with
    | .ok i => table[i] = x
    | .error k => (∀ i, (hi : i < table.size) → i < k → table[i] < x)
        ∧ ∀ i, (hi : i < table.size) → k ≤ i → x < table[i] := by
  fun_induction search table x low high hlow hhigh with
  | case1 low high hlow hhigh hopen middle hmiddle heq => exact heq
  | case2 low high hlow hhigh hopen middle hmiddle hne hlt ih =>
    refine ih (fun i hi hle => ?_) habove
    rcases Nat.lt_or_eq_of_le (Nat.le_of_lt_succ hle) with hless | rfl
    · exact (getElem_lt_of_ordered h hless _).trans hlt
    · exact hlt
  | case3 low high hlow hhigh hopen middle hmiddle hne hge ih =>
    have hgt : x < table[middle] := by omega
    refine ih hbelow fun i hi hle => ?_
    rcases Nat.lt_or_eq_of_le hle with hless | rfl
    · exact hgt.trans (getElem_lt_of_ordered h hless hi)
    · exact hgt
  | case4 low high hlow hhigh hclosed =>
    exact ⟨hbelow, fun i hi hle => habove i hi (by dsimp only at hle; omega)⟩

/-- The line of an offset is the last one that starts no further on. -/
theorem lineIndex_eq {m : LineMap} (h : m.starts.toList.Pairwise (· < ·)) {i : Nat}
    (hi : i < m.starts.size) (hle : m.starts[i] ≤ x)
    (hlt : ∀ j, (hj : j < m.starts.size) → i < j → x < m.starts[j]) : m.lineIndex x = ⟨i, hi⟩ := by
  have hspec := search_spec (x := x) h (Nat.zero_le _) (Nat.le_refl m.starts.size)
    (fun j _ hj => absurd hj (Nat.not_lt_zero j)) (fun j hj hle => absurd hle (by omega))
  apply Fin.ext
  unfold lineIndex
  split at hspec
  · rename_i k heq
    rw [heq]
    rcases Nat.lt_trichotomy k i with hless | hsame | hmore
    · have := getElem_lt_of_ordered h hless hi
      exact absurd (hspec ▸ this) (by omega)
    · exact hsame
    · exact absurd hspec (hlt k k.isLt hmore).ne'
  · rename_i k heq
    rw [heq]
    obtain ⟨hbelow, habove⟩ := hspec
    have hin : i < k := by
      by_contra hout
      exact absurd (habove i hi (by omega)) (by omega)
    have hlast : ¬i < k - 1 := fun hless => by
      have := hlt (k - 1) (by omega) hless
      exact absurd (hbelow (k - 1) (by omega) (by omega)) (by omega)
    dsimp only
    omega

theorem lineCol_of_lineIndex {m : LineMap} {offset : Nat} {i : Fin m.starts.size}
    (h : m.lineIndex (min offset m.source.utf8ByteSize) = i) :
    m.lineCol offset = (i.val + 1, min offset m.source.utf8ByteSize - m.starts[i] + 1) := by
  subst h
  rfl

/-- A place in a table whose lines up to `start` begin no further on, and the others
behind it. -/
theorem lineCol_of_split {m : LineMap} (h : m.starts.toList.Pairwise (· < ·))
    {front back : List Nat} {start offset : Nat} (hsplit : m.starts.toList = front ++ back)
    (hlast : front.getLast? = some start) (hle : start ≤ min offset m.source.utf8ByteSize)
    (hback : ∀ y ∈ back, min offset m.source.utf8ByteSize < y) :
    m.lineCol offset = (front.length, min offset m.source.utf8ByteSize - start + 1) := by
  obtain ⟨init, rfl⟩ := List.getLast?_eq_some_iff.mp hlast
  have hstart : m.starts[init.length]? = some start := by
    rw [← Array.getElem?_toList, hsplit]
    simp
  obtain ⟨hsize, hstart⟩ := Array.getElem?_eq_some_iff.mp hstart
  have hindex := lineIndex_eq h hsize (hstart.trans_le hle) fun j hj hij => by
    have hlater : m.starts[j]? = back[j - (init.length + 1)]? := by
      rw [← Array.getElem?_toList, hsplit, List.getElem?_append_right (by simp; omega)]
      simp
    exact hback _ (List.mem_of_getElem? (hlater.symm.trans (Array.getElem?_eq_getElem hj)))
  rw [lineCol_of_lineIndex hindex, List.length_append, List.length_singleton]
  simp only [Fin.getElem_fin, hstart]

end Search

/-! ### The line map of a source -/

section Source

variable (source : String)

/-- The bytes of a source in front of an offset, all of them if the offset is past the end. -/
def bytesBefore (offset : Nat) : List UInt8 :=
  source.toUTF8.data.toList.take (min offset source.utf8ByteSize)

theorem length_source : source.toUTF8.data.toList.length = source.utf8ByteSize := by
  rw [← bytes_toList, length_bytes, String.ofList_toList]

theorem starts_ofSource : (ofSource source).starts.toList =
    0 :: behindNewlines source.toUTF8.data.toList 0 := rfl

theorem starts_ordered : (ofSource source).starts.toList.Pairwise (· < ·) :=
  List.pairwise_cons.mpr ⟨fun _ hmem => lt_of_mem_behindNewlines hmem, behindNewlines_ordered _ _⟩

theorem lineCount_eq :
    (ofSource source).lineCount = source.toUTF8.data.toList.count newline + 1 := by
  rw [lineCount, ← Array.length_toList, starts_ofSource, List.length_cons, length_behindNewlines]

theorem lineCol_eq (offset : Nat) :
    (ofSource source).lineCol offset = placeBehind (bytesBefore source offset) := by
  have hwithin : min offset source.utf8ByteSize ≤ source.toUTF8.data.toList.length := by
    rw [length_source]
    exact Nat.min_le_right _ _
  have hlength : (bytesBefore source offset).length = min offset source.utf8ByteSize :=
    List.length_take_of_le hwithin
  obtain ⟨hlast, hcolumn⟩ := getLast?_starts (bytesBefore source offset)
  rw [hlength] at hlast hcolumn
  rw [lineCol_of_split (starts_ordered source) (starts_split hwithin) hlast (Nat.sub_le _ _)
    fun _ hmem => lt_of_mem_behindNewlines hmem, List.length_cons, length_behindNewlines]
  exact congrArg (_, · + 1) (Nat.sub_sub_self hcolumn)

theorem length_bytes_line (front first : List Char) :
    (bytes (front ++ first ++ ['\n'])).length =
      (bytes front).length + (bytes first).length + 1 := by
  have hone : (String.utf8EncodeChar '\n').length = 1 := by decide
  simp only [bytes, List.flatMap_append, List.length_append, List.flatMap_singleton, hone]

/-- Behind a line the next one starts. -/
theorem behindNewlines_line (front rest : List Char) {first : List Char} (h : '\n' ∉ first) :
    behindNewlines (bytes (first ++ '\n' :: rest)) (bytes front).length =
      (bytes (front ++ first ++ ['\n'])).length
        :: behindNewlines (bytes rest) (bytes (front ++ first ++ ['\n'])).length := by
  rw [bytes_newline, behindNewlines_append,
    behindNewlines_of_not_mem (mt newline_mem_bytes.mp h), List.nil_append, behindNewlines_cons,
    if_pos rfl, length_bytes_line]

/-- The lines are cut out between their starts. -/
theorem slice?_starts (front text : List Char) (n : Nat) :
    let starts := (bytes front).length :: behindNewlines (bytes text) (bytes front).length
    let stop := (starts[n + 1]?.map (· - 1)).getD ((bytes front).length + (bytes text).length)
    (starts[n]?.bind fun start => slice? (front ++ text) start stop) = (text.splitOn '\n')[n]? := by
  induction text using line_induction generalizing front n with
  | last text hnone =>
    rw [behindNewlines_of_not_mem (mt newline_mem_bytes.mp hnone), splitOn_last hnone]
    cases n with
    | zero =>
      have hslice := slice?_bytes front text []
      rwa [List.append_nil] at hslice
    | succ n => rfl
  | more first rest hnone ih =>
    rw [behindNewlines_line front rest hnone, splitOn_more hnone]
    cases n with
    | zero =>
      have hstop : (bytes (front ++ first ++ ['\n'])).length - 1 =
          (bytes front).length + (bytes first).length := by
        rw [length_bytes_line, Nat.add_sub_cancel]
      have hslice := slice?_bytes front first ('\n' :: rest)
      rw [← hstop] at hslice
      exact hslice
    | succ n =>
      have hrest := ih (front ++ first ++ ['\n']) n
      have hlength : (bytes front).length + (bytes (first ++ '\n' :: rest)).length =
          (bytes (front ++ first ++ ['\n'])).length + (bytes rest).length := by
        rw [length_bytes_line, bytes_newline, List.length_append, List.length_cons]
        omega
      have htext : front ++ (first ++ '\n' :: rest) = front ++ first ++ ['\n'] ++ rest := by
        simp
      rw [hlength, htext]
      exact hrest

theorem dropReturns_ofList (line : List Char) :
    dropReturns (String.ofList line) = String.ofList (line.rdropWhile (· == '\r')) := by
  rw [dropReturns, String.toList_ofList, List.rdropWhile]

theorem lineText_eq (n : Nat) :
    (ofSource source).lineText (n + 1) = (source.toList.splitOn '\n')[n]?.map fun line =>
      String.ofList (line.rdropWhile (· == '\r')) := by
  have hslice := slice?_starts [] source.toList n
  have hnone : (bytes []).length = 0 := rfl
  have hsize : (bytes source.toList).length = source.utf8ByteSize := by
    rw [bytes_toList, length_source]
  rw [hnone, hsize, bytes_toList, Nat.zero_add, List.nil_append, ← starts_ofSource] at hslice
  simp only [Array.getElem?_toList] at hslice
  simp only [← hslice, Option.map_bind, ← dropReturns_ofList]
  rfl

theorem length_splitOn (text : List Char) :
    (text.splitOn '\n').length = (bytes text).count newline + 1 := by
  induction text using line_induction with
  | last text h =>
    rw [splitOn_last h, List.count_eq_zero_of_not_mem (mt newline_mem_bytes.mp h)]
    rfl
  | more first rest h ih =>
    rw [splitOn_more h, List.length_cons, ih, bytes_newline, List.count_append,
      List.count_cons_self, List.count_eq_zero_of_not_mem (mt newline_mem_bytes.mp h)]
    omega

/-- There are just the lines that are counted. -/
theorem isSome_lineText_iff (n : Nat) :
    ((ofSource source).lineText n).isSome ↔ 1 ≤ n ∧ n ≤ (ofSource source).lineCount := by
  cases n with
  | zero => simp [lineText]
  | succ n =>
    rw [lineText_eq, lineCount_eq, ← bytes_toList, ← length_splitOn, Option.isSome_map,
      isSome_getElem?]
    omega

/-- An offset past the end stands for the end. -/
theorem lineCol_min (offset : Nat) :
    (ofSource source).lineCol (min offset source.utf8ByteSize) =
      (ofSource source).lineCol offset := by
  rw [lineCol_eq, lineCol_eq, bytesBefore, Nat.min_eq_left (Nat.min_le_right _ _), ← bytesBefore]

theorem lineCol_lt {a b : Nat} (hab : min a source.utf8ByteSize < min b source.utf8ByteSize) :
    toLex ((ofSource source).lineCol a) < toLex ((ofSource source).lineCol b) := by
  have hmore : (source.toUTF8.data.toList.drop (min a source.utf8ByteSize)).take
      (min b source.utf8ByteSize - min a source.utf8ByteSize) ≠ [] := by
    rw [← List.length_pos_iff, List.length_take, List.length_drop, length_source]
    omega
  have htake : bytesBefore source b = bytesBefore source a ++
      (source.toUTF8.data.toList.drop (min a source.utf8ByteSize)).take
        (min b source.utf8ByteSize - min a source.utf8ByteSize) := by
    rw [bytesBefore, bytesBefore, ← List.take_add]
    congr 1
    omega
  rw [lineCol_eq, lineCol_eq, htake]
  exact placeBehind_lt hmore

/-- **Lines and columns of a source.** The place of an offset is told by the bytes
before it, as many of them as there are: the line by their newlines, the column
by the bytes behind the last newline. Two offsets with one place stand for the
same bytes, and a larger offset has no earlier place. There is one line more than
there are newlines, and the text of the `n`th is the `n`th piece between the
newlines, without carriage returns at its end. -/
theorem lines_and_columns :
    (∀ offset, (ofSource source).lineCol offset =
        ((bytesBefore source offset).count newline + 1,
          ((bytesBefore source offset).rtakeWhile (· != newline)).length + 1))
      ∧ (∀ a b, (ofSource source).lineCol a = (ofSource source).lineCol b →
          min a source.utf8ByteSize = min b source.utf8ByteSize)
      ∧ (∀ a b, a ≤ b →
          toLex ((ofSource source).lineCol a) ≤ toLex ((ofSource source).lineCol b))
      ∧ (ofSource source).lineCount = source.toUTF8.data.toList.count newline + 1
      ∧ (∀ n, ((ofSource source).lineText n).isSome ↔ 1 ≤ n ∧ n ≤ (ofSource source).lineCount)
      ∧ ∀ n, 1 ≤ n → (ofSource source).lineText n =
          (source.toList.splitOn '\n')[n - 1]?.map fun line =>
            String.ofList (line.rdropWhile (· == '\r')) := by
  refine ⟨lineCol_eq source, fun a b hab => ?_, fun a b hab => ?_, lineCount_eq source,
    isSome_lineText_iff source, fun n hn => ?_⟩
  · rcases Nat.lt_trichotomy (min a source.utf8ByteSize) (min b source.utf8ByteSize)
      with hless | heq | hmore
    · exact absurd (congrArg toLex hab) (lineCol_lt source hless).ne
    · exact heq
    · exact absurd (congrArg toLex hab) (lineCol_lt source hmore).ne'
  · rcases Nat.lt_or_ge (min a source.utf8ByteSize) (min b source.utf8ByteSize) with hless | hge
    · exact (lineCol_lt source hless).le
    · have heq : min a source.utf8ByteSize = min b source.utf8ByteSize := by omega
      rw [← lineCol_min source a, ← lineCol_min source b, heq]
  · obtain ⟨k, rfl⟩ := Nat.exists_eq_add_of_le' hn
    exact lineText_eq source k

end Source

/-- A character of two bytes, a line that a carriage return ends, and a last
line without an end; the offsets 1 and 99 lie inside the character and past the
end of the text. -/
theorem lines_and_columns_unicode :
    let map := ofSource "é\r\nab"
    map.lineCol 1 = (1, 2) ∧ map.lineCol 99 = (2, 3)
      ∧ toLex (map.lineCol 1) ≤ toLex (map.lineCol 99)
      ∧ map.lineCol 99 = map.lineCol 6
      ∧ min 99 "é\r\nab".utf8ByteSize = min 6 "é\r\nab".utf8ByteSize
      ∧ map.lineText 1 = some "é" := by
  intro map
  obtain ⟨hplace, hsame, hordered, -, -, htext⟩ := lines_and_columns "é\r\nab"
  have hend : map.lineCol 99 = map.lineCol 6 := (hplace 99).trans (hplace 6).symm
  exact ⟨hplace 1, hplace 99, hordered 1 99 (by decide), hend, hsame 99 6 hend,
    htext 1 (by decide)⟩

end LineMap

end Lsl
