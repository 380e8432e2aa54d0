/- # Reading records off JSON

What the small readers of JSON give on values of which something is known: that
an object shows a field, that it shows it or leaves it out, that an array holds
one item for each member of a list. A reader only has to be right on the values
that stand lower than the one it is called on, so that readers with a bound on
the nesting can be put in.

Key definitions: `Json.Shows`, `Json.MayShow`, `Json.OrNull`, `Json.Items`.
Key theorems: `Json.required_of_shows`, `Json.defaulted_of_mayShow`,
`Json.optional_of_mayShow`, `Json.asList_of_items`.
-/
import Lsl.Json.Decode
import Mathlib.Data.List.Forall2

namespace Lsl

namespace Json

variable {α : Type} {v w : Json} {name : String} {P : Json → Prop}

/-! ### Heights -/

theorem height_le_of_mem_items {items : List Json} (h : w ∈ items) :
    w.height ≤ heightItems items := by
  induction items with
  | nil => cases h
  | cons x rest ih =>
    rw [heightItems]
    rcases List.mem_cons.mp h with rfl | h
    · exact Nat.le_max_left _ _
    · exact Nat.le_trans (ih h) (Nat.le_max_right _ _)

theorem height_le_of_mem_fields {fields : List (String × Json)} (h : (name, w) ∈ fields) :
    w.height ≤ heightFields fields := by
  induction fields with
  | nil => cases h
  | cons x rest ih =>
    obtain ⟨other, u⟩ := x
    rw [heightFields]
    rcases List.mem_cons.mp h with h | h
    · obtain ⟨rfl, rfl⟩ := Prod.mk.inj h
      exact Nat.le_max_left _ _
    · exact Nat.le_trans (ih h) (Nat.le_max_right _ _)

theorem height_lt_of_item {items : List Json} (h : w ∈ items) : w.height < (arr items).height := by
  rw [height]
  exact Nat.lt_succ_of_le (height_le_of_mem_items h)

theorem heightItems_le {items : List Json} {n : Nat} (h : ∀ w ∈ items, w.height ≤ n) :
    heightItems items ≤ n := by
  induction items with
  | nil => exact Nat.zero_le n
  | cons x rest ih =>
    rw [heightItems]
    exact Nat.max_le.mpr ⟨h x List.mem_cons_self, ih fun w hw => h w (List.mem_cons_of_mem _ hw)⟩

theorem height_list_le {encode : α → Json} {xs : List α} {n : Nat}
    (h : ∀ x ∈ xs, (encode x).height ≤ n) : (list encode xs).height ≤ n + 1 := by
  rw [list, height]
  exact Nat.succ_le_succ (heightItems_le (by simpa using h))

/-- A field stands lower than its object. -/
theorem height_lt_of_field? (h : v.field? name = .ok (some w)) : w.height < v.height := by
  cases v with
  | obj fields =>
    have hmem : (name, w) ∈ fields := by
      simp only [field?] at h
      split at h
      · cases h
      · rename_i found u hfound
        cases h
        have hin : (found, w) ∈ fields.filter (·.1 == name) := by simp [hfound]
        obtain ⟨hin, heq⟩ := List.mem_filter.mp hin
        rwa [← beq_iff_eq.mp heq]
      · cases h
    rw [height]
    exact Nat.lt_succ_of_le (height_le_of_mem_fields hmem)
  | _ => cases h

theorem ne_null_of_field? {r : Option Json} (h : v.field? name = .ok r) : v ≠ .null := by
  rintro rfl
  cases h

/-! ### Fields -/

/-- The object has the field once, and `P` holds of its value. -/
def Shows (v : Json) (name : String) (P : Json → Prop) : Prop :=
  ∃ w, v.field? name = .ok (some w) ∧ P w

/-- The object shows the field, or it leaves the field out and `absent` holds. -/
def MayShow (v : Json) (name : String) (P : Json → Prop) (absent : Prop) : Prop :=
  v.Shows name P ∨ v.field? name = .ok none ∧ absent

/-- The value is `null` where there is nothing to write. -/
def OrNull (P : α → Json → Prop) : Option α → Json → Prop
  | none, v => v = .null
  | some a, v => P a v

theorem Shows.ne_null (h : v.Shows name P) : v ≠ .null := by
  obtain ⟨w, hw, -⟩ := h
  exact ne_null_of_field? hw

theorem required_of_shows {decode : Decoder α} {a : α} (h : v.Shows name P)
    (hd : ∀ w, w.height < v.height → P w → decode w = .ok a) : v.required name decode = .ok a := by
  obtain ⟨w, hw, hP⟩ := h
  simp only [required, hw]
  exact hd w (height_lt_of_field? hw) hP

theorem defaulted_of_mayShow {decode : Decoder α} {a default : α}
    (h : v.MayShow name P (a = default))
    (hd : ∀ w, w.height < v.height → P w → decode w = .ok a) :
    v.defaulted name default decode = .ok a := by
  rcases h with ⟨w, hw, hP⟩ | ⟨hw, rfl⟩
  · simp only [defaulted, hw]
    exact hd w (height_lt_of_field? hw) hP
  · simp only [defaulted, hw]
    rfl

theorem nullable_of_orNull {decode : Decoder α} {a : Option α} {P : α → Json → Prop}
    (h : OrNull P a w) (hnull : ∀ a, P a w → w ≠ .null) (hd : ∀ a, P a w → decode w = .ok a) :
    nullable decode w = .ok a := by
  cases a with
  | none =>
    cases h
    rfl
  | some a =>
    have hread := hd a h
    have hne := hnull a h
    cases w with
    | null => exact absurd rfl hne
    | _ =>
      rw [nullable, hread]
      · rfl
      · exact hne

theorem optional_of_mayShow {decode : Decoder α} {a : Option α} {P : α → Json → Prop}
    (h : v.MayShow name (OrNull P a) (a = none)) (hnull : ∀ w a, P a w → w ≠ .null)
    (hd : ∀ w, w.height < v.height → ∀ a, P a w → decode w = .ok a) :
    v.optional name decode = .ok a :=
  defaulted_of_mayShow h fun w hw hP => nullable_of_orNull hP (hnull w) (hd w hw)

/-! ### Items -/

/-- The value is an array with one item for each member of the list. -/
def Items (P : α → Json → Prop) (xs : List α) (v : Json) : Prop :=
  ∃ items, v = .arr items ∧ List.Forall₂ P xs items

theorem decodeAll_of_forall₂ {decode : Decoder α} {P : α → Json → Prop} {xs : List α}
    {items : List Json} (h : List.Forall₂ P xs items)
    (hd : ∀ w ∈ items, ∀ a, P a w → decode w = .ok a) : decodeAll decode items = .ok xs := by
  induction h with
  | nil => rfl
  | cons hP _ ih =>
    rw [decodeAll, hd _ List.mem_cons_self _ hP, ih fun w hw => hd w (List.mem_cons_of_mem _ hw)]
    rfl

theorem asList_of_items {decode : Decoder α} {P : α → Json → Prop} {xs : List α}
    (h : Items P xs v) (hd : ∀ w, w.height < v.height → ∀ a, P a w → decode w = .ok a) :
    asList decode v = .ok xs := by
  obtain ⟨items, rfl, hall⟩ := h
  exact decodeAll_of_forall₂ hall fun w hw => hd w (height_lt_of_item hw)

theorem items_list {P : α → Json → Prop} {encode : α → Json} {xs : List α}
    (h : ∀ x ∈ xs, P x (encode x)) : Items P xs (list encode xs) :=
  ⟨_, rfl, List.forall₂_map_right_iff.mpr (List.forall₂_same.mpr h)⟩

/-! ### Tags -/

/-- A tag that carries nothing: the text alone, or an object of `null`. -/
def IsTag (tag : String) (v : Json) : Prop := v = .str tag ∨ v = .obj [(tag, .null)]

theorem asTag_of_isTag {ofTag? : String → Option α} {tag : String} {a : α}
    (h : IsTag tag v) (ha : ofTag? tag = some a) : asTag ofTag? v = .ok a := by
  rcases h with rfl | rfl
  · simp [asTag, variant, ha, bind, Except.bind, pure, Except.pure]
  · simp [asTag, variant, ha, bind, Except.bind, pure, Except.pure]

/-! ### Leaves -/

theorem asString_of_eq {text : String} (h : v = .str text) :
    asString v = .ok text := by
  rw [h]
  rfl

theorem required_text {text : String} (h : v.Shows name (· = .str text)) :
    v.required name asString = .ok text :=
  required_of_shows h fun _ _ hw => asString_of_eq hw

theorem required_tag {tag : String} {ofTag? : String → Option α}
    {a : α} (h : v.Shows name (IsTag tag)) (ha : ofTag? tag = some a) :
    v.required name (asTag ofTag?) = .ok a :=
  required_of_shows h fun _ _ hw => asTag_of_isTag hw ha

theorem required_of_field? {decode : Decoder α} {a : α} (h : v.field? name = .ok (some w))
    (hd : decode w = .ok a) : v.required name decode = .ok a :=
  required_of_shows ⟨w, h, rfl⟩ fun _ _ hw => hw ▸ hd

theorem defaulted_of_field? {decode : Decoder α} {a default : α}
    (h : v.field? name = .ok (some w)) (hd : decode w = .ok a) :
    v.defaulted name default decode = .ok a :=
  defaulted_of_mayShow (.inl ⟨w, h, rfl⟩) fun _ _ hw => hw ▸ hd

theorem asList_list {decode : Decoder α} {encode : α → Json} {xs : List α}
    (h : ∀ x ∈ xs, decode (encode x) = .ok x) : asList decode (list encode xs) = .ok xs :=
  asList_of_items (P := fun x w => decode w = .ok x) (items_list h) fun _ _ _ hw => hw

end Json

end Lsl
