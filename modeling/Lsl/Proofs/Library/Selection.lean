/- # Which overload a call means

Selection looks at overloads only through two filters, those that accept the
arguments and those that need no conversion, so the order of the overloads does
not matter. Where no variadic overload accepts the arguments, the parameters of
an exact overload have the types of the arguments, and a lawful catalog holds one
such overload at most. An argument that is wrong fits every parameter.

Key theorems: `selectOverload_cases`, `LibraryFunction.accepts_iff`,
`LibraryFunction.types_of_exactly`, `Catalog.Lawful.selection`.
-/
import Lsl.Proofs.Library.Lawful
import Lsl.Proofs.Typing.Values

namespace Lsl

variable {f g : LibraryFunction} {overloads fs : List LibraryFunction} {args : List Argument}
  {tys : List Ty}

namespace LibraryFunction

/-! ### Accepting arguments -/

theorem firstMismatch?_eq_none {k : Nat} :
    f.firstMismatch? k args = none
      ↔ ∀ i a, args[i]? = some a → f.argumentMismatch? (k + i) a = none := by
  induction args generalizing k with
  | nil => simp [firstMismatch?]
  | cons a rest ih =>
    rw [firstMismatch?, Option.or_eq_none_iff, ih]
    constructor
    · rintro ⟨hfirst, hrest⟩ (_ | i) b hb
      · obtain rfl := Option.some.inj hb
        exact hfirst
      · rw [Nat.add_comm i, ← Nat.add_assoc]
        exact hrest i b hb
    · intro h
      refine ⟨h 0 a rfl, fun i b hb => ?_⟩
      rw [Nat.add_assoc, Nat.add_comm 1]
      exact h (i + 1) b hb

/-- The count fits, and so does every argument. -/
theorem accepts_iff :
    f.accepts args = true ↔ f.countFits args.length = true
      ∧ ∀ i a, args[i]? = some a → f.argumentMismatch? i a = none := by
  rw [accepts, Option.isNone_iff_eq_none, mismatch?]
  split
  · rename_i hcount
    simp only [firstMismatch?_eq_none, Nat.zero_add, hcount, true_and]
  · rename_i hcount
    simp [hcount]

/-- An argument that is wrong fits wherever it stands. -/
theorem accepts_set_untyped (i : Nat) (h : f.accepts args = true) :
    f.accepts (args.set i .untyped) = true := by
  rw [accepts_iff] at h ⊢
  refine ⟨by simpa using h.1, fun j a ha => ?_⟩
  rcases eq_or_ne i j with rfl | hne
  · obtain ⟨hlt, rfl⟩ : i < args.length ∧ .untyped = a := by
      simpa [List.getElem?_set] using ha
    rfl
  · rw [List.getElem?_set_ne hne] at ha
    exact h.2 j a ha

theorem fixedCount_of_fixed (h : f.isVariadic = false) : f.fixedCount = f.params.length := by
  simp [fixedCount, h]

theorem paramTypeAt_of_fixed (h : f.isVariadic = false) (i : Nat) :
    f.paramTypeAt i = (f.params.map (·.ty))[i]? := by
  have hlast : (f.params.getLast?.filter (·.variadic)).map (·.ty) = none := by
    unfold isVariadic at h
    cases hl : f.params.getLast? with
    | none => rfl
    | some p => simpa [hl] using h
  rw [paramTypeAt, List.getElem?_map]
  cases f.params[i]? with
  | some p => rfl
  | none => exact hlast

theorem argumentMismatch?_of_fixed (h : f.isVariadic = false) {i : Nat} {ty : Ty} :
    f.argumentMismatch? i (.typed ty) = none
      ↔ ∃ expected, (f.params.map (·.ty))[i]? = some expected ∧ assignable expected ty = true := by
  rw [argumentMismatch?, paramTypeAt_of_fixed h]
  cases (f.params.map (·.ty))[i]? with
  | none => simp
  | some expected => simp [h]

/-! ### Arguments that need no conversion -/

theorem exactFrom_iff {k : Nat} :
    f.exactFrom k args = true
      ↔ ∀ i a, args[i]? = some a →
          ∃ t, f.paramTypeAt (k + i) = some t ∧ (t = a.ty ∨ t = .void) := by
  induction args generalizing k with
  | nil => simp [exactFrom]
  | cons a rest ih =>
    rw [exactFrom, Bool.and_eq_true, ih]
    have hhead : (f.paramTypeAt k).any (fun t => t == a.ty || t.isVoid) = true
        ↔ ∃ t, f.paramTypeAt k = some t ∧ (t = a.ty ∨ t = .void) := by
      cases f.paramTypeAt k <;> simp [Ty.isVoid]
    rw [hhead]
    constructor
    · rintro ⟨hfirst, hrest⟩ (_ | i) b hb
      · obtain rfl := Option.some.inj hb
        exact hfirst
      · rw [Nat.add_comm i, ← Nat.add_assoc]
        exact hrest i b hb
    · intro h
      refine ⟨h 0 a rfl, fun i b hb => ?_⟩
      rw [Nat.add_assoc, Nat.add_comm 1]
      exact h (i + 1) b hb

theorem assignable_self {ty : Ty} (h : ty ≠ .void) : assignable ty ty = true := by
  cases ty <;> first | rfl | exact absurd rfl h

theorem getElem?_typed {i : Nat} {a : Argument} (h : (tys.map Argument.typed)[i]? = some a) :
    ∃ ty, tys[i]? = some ty ∧ a = .typed ty := by
  rw [List.getElem?_map, Option.map_eq_some_iff] at h
  obtain ⟨ty, hty, rfl⟩ := h
  exact ⟨ty, hty, rfl⟩

/-- An overload takes arguments of the types of its parameters as they are. -/
theorem accepts_own (h : f.isVariadic = false) (htys : f.params.map (·.ty) = tys)
    (hvoid : .void ∉ tys) :
    f.accepts (tys.map .typed) = true ∧ f.exactly (tys.map .typed) = true := by
  constructor
  · rw [accepts_iff]
    refine ⟨by simp [countFits, h, fixedCount_of_fixed h, ← htys], fun i a ha => ?_⟩
    obtain ⟨ty, hty, rfl⟩ := getElem?_typed ha
    have hne : ty ≠ .void := fun heq => hvoid (heq ▸ List.mem_of_getElem? hty)
    exact (argumentMismatch?_of_fixed h).mpr ⟨ty, htys ▸ hty, assignable_self hne⟩
  · refine exactFrom_iff.mpr fun i a ha => ?_
    obtain ⟨ty, hty, rfl⟩ := getElem?_typed ha
    rw [paramTypeAt_of_fixed h, htys, Nat.zero_add]
    exact ⟨ty, hty, .inl rfl⟩

/-- An overload that is not variadic and takes the arguments as they are has
parameters of their types. -/
theorem types_of_exactly (h : f.isVariadic = false) (haccepts : f.accepts (tys.map .typed) = true)
    (hexact : f.exactly (tys.map .typed) = true) : f.params.map (·.ty) = tys := by
  obtain ⟨hcount, hfits⟩ := accepts_iff.mp haccepts
  have hlength : tys.length = (f.params.map (·.ty)).length := by
    simpa [countFits, h, fixedCount_of_fixed h] using hcount
  refine List.ext_getElem? fun i => ?_
  cases hty : tys[i]? with
  | none =>
    rw [List.getElem?_eq_none_iff] at hty ⊢
    exact hlength ▸ hty
  | some ty =>
    have hi : (tys.map Argument.typed)[i]? = some (.typed ty) := by
      rw [List.getElem?_map, hty, Option.map_some]
    obtain ⟨expected, hexpected, hassign⟩ := (argumentMismatch?_of_fixed h).mp (hfits i _ hi)
    obtain ⟨t, ht, hsame⟩ := exactFrom_iff.mp hexact i _ hi
    rw [Nat.zero_add, paramTypeAt_of_fixed h, hexpected] at ht
    obtain rfl := Option.some.inj ht
    -- a parameter of type `void` takes no value unless it is variadic
    rcases hsame with rfl | rfl
    · exact hexpected
    · simp [assignable, Ty.isVoid] at hassign

/-- Overloads that are not variadic are told apart by the types of their
parameters. -/
theorem shape_of_fixed (h : f.isVariadic = false)
    (hplaced : ∀ p ∈ f.params.dropLast, p.variadic = false) :
    f.shape = (f.params.map (·.ty)).map fun ty => (ty, false) := by
  have hall : ∀ p ∈ f.params, p.variadic = false := by
    intro p hp
    rcases List.eq_nil_or_concat f.params with hnil | ⟨before, last, hsnoc⟩
    · simp [hnil] at hp
    · unfold isVariadic at h
      rw [hsnoc, List.concat_eq_append] at hp hplaced h
      rcases List.mem_append.mp hp with hp | hp
      · exact hplaced p (by simpa using hp)
      · simpa [List.mem_singleton.mp hp] using h
  rw [shape, List.map_map]
  exact List.map_congr_left fun p hp => by simp [hall p hp]

end LibraryFunction

/-! ### The two filters -/

theorem selectOverload_of_nil (h : overloads.filter (·.accepts args) = []) :
    selectOverload overloads args = .error .noMatch := by
  simp [selectOverload, h]

theorem selectOverload_of_singleton (h : overloads.filter (·.accepts args) = [f]) :
    selectOverload overloads args = .ok f := by
  simp [selectOverload, h]

/-- The only overload that accepts the arguments as they are is selected. -/
theorem selectOverload_of_exact
    (h : (overloads.filter (·.accepts args)).filter (·.exactly args) = [f]) :
    selectOverload overloads args = .ok f := by
  cases haccepted : overloads.filter (·.accepts args) with
  | nil => simp [haccepted] at h
  | cons g rest =>
    rw [haccepted] at h
    cases rest with
    | nil =>
      have hmem : f ∈ [g] := List.mem_of_mem_filter (h ▸ List.mem_singleton_self f)
      exact List.mem_singleton.mp hmem ▸ selectOverload_of_singleton haccepted
    | cons g' rest => simp [selectOverload, haccepted, h]

theorem selectOverload_of_ambiguous (hmany : 1 < (overloads.filter (·.accepts args)).length)
    (h : ((overloads.filter (·.accepts args)).filter (·.exactly args)).length ≠ 1) :
    selectOverload overloads args = .error .ambiguous := by
  unfold selectOverload
  split
  · simp_all
  · simp_all
  · split
    · simp_all
    · rfl

/-- Selection fails where no overload accepts the arguments; it takes the only
one that does, and else the only one of these that needs no conversion. -/
theorem selectOverload_cases (overloads : List LibraryFunction) (args : List Argument) :
    (overloads.filter (·.accepts args) = [] ∧ selectOverload overloads args = .error .noMatch)
      ∨ (∃ f, overloads.filter (·.accepts args) = [f] ∧ selectOverload overloads args = .ok f)
      ∨ (∃ f, (overloads.filter (·.accepts args)).filter (·.exactly args) = [f]
          ∧ selectOverload overloads args = .ok f)
      ∨ 1 < (overloads.filter (·.accepts args)).length
        ∧ ((overloads.filter (·.accepts args)).filter (·.exactly args)).length ≠ 1
        ∧ selectOverload overloads args = .error .ambiguous := by
  rcases Nat.lt_trichotomy (overloads.filter (·.accepts args)).length 1 with hnone | hone | hmany
  · have hnil := List.length_eq_zero_iff.mp (Nat.lt_one_iff.mp hnone)
    exact .inl ⟨hnil, selectOverload_of_nil hnil⟩
  · obtain ⟨f, hf⟩ := List.length_eq_one_iff.mp hone
    exact .inr (.inl ⟨f, hf, selectOverload_of_singleton hf⟩)
  · by_cases hexact : ((overloads.filter (·.accepts args)).filter (·.exactly args)).length = 1
    · obtain ⟨f, hf⟩ := List.length_eq_one_iff.mp hexact
      exact .inr (.inr (.inl ⟨f, hf, selectOverload_of_exact hf⟩))
    · exact .inr (.inr (.inr ⟨hmany, hexact, selectOverload_of_ambiguous hmany hexact⟩))

theorem selectOverload_perm (h : fs.Perm overloads) :
    selectOverload fs args = selectOverload overloads args := by
  have haccepted := h.filter (·.accepts args)
  have hexact := haccepted.filter (·.exactly args)
  rcases selectOverload_cases overloads args with
    ⟨hnil, hselect⟩ | ⟨f, hone, hselect⟩ | ⟨f, hone, hselect⟩ | ⟨hmany, hnot, hselect⟩
  · rw [hselect, selectOverload_of_nil (List.perm_nil.mp (hnil ▸ haccepted))]
  · rw [hselect, selectOverload_of_singleton (List.perm_singleton.mp (hone ▸ haccepted))]
  · rw [hselect, selectOverload_of_exact (List.perm_singleton.mp (hone ▸ hexact))]
  · rw [← haccepted.length_eq] at hmany
    rw [← hexact.length_eq] at hnot
    rw [hselect, selectOverload_of_ambiguous hmany hnot]

theorem accepts_of_selectOverload (h : selectOverload overloads args = .ok f) :
    f ∈ overloads ∧ f.accepts args = true := by
  have hmem : f ∈ overloads.filter (·.accepts args) := by
    rcases selectOverload_cases overloads args with
      ⟨-, hselect⟩ | ⟨g, hone, hselect⟩ | ⟨g, hone, hselect⟩ | ⟨-, -, hselect⟩
    · cases hselect.symm.trans h
    · obtain rfl := Except.ok.inj (hselect.symm.trans h)
      exact hone ▸ List.mem_singleton_self g
    · obtain rfl := Except.ok.inj (hselect.symm.trans h)
      exact List.mem_of_mem_filter (hone ▸ List.mem_singleton_self g)
    · cases hselect.symm.trans h
  exact List.mem_filter.mp hmem

theorem accepts_eq_false_of_noMatch (h : selectOverload overloads args = .error .noMatch)
    (hf : f ∈ overloads) : f.accepts args = false := by
  rcases selectOverload_cases overloads args with
    ⟨hnil, -⟩ | ⟨g, -, hselect⟩ | ⟨g, -, hselect⟩ | ⟨-, -, hselect⟩
  · simpa using List.filter_eq_nil_iff.mp hnil f hf
  all_goals cases hselect.symm.trans h

namespace Catalog

variable {c : Catalog}

/-- In a lawful catalog, what is kept of the overloads of a name by a filter that
fixes their shape is one overload. -/
theorem Lawful.filter_overloads_eq (hc : c.Lawful) {name : String} {p : LibraryFunction → Bool}
    (hf : f ∈ c.overloads name) (hp : p f = true)
    (hshape : ∀ g ∈ c.overloads name, p g = true → g.shape = f.shape) :
    (c.overloads name).filter p = [f] := by
  have hmem : f ∈ (c.overloads name).filter p := List.mem_filter.mpr ⟨hf, hp⟩
  have hall : ∀ g ∈ (c.overloads name).filter p, g.shape = f.shape := fun g hg =>
    hshape g (List.mem_of_mem_filter hg) (List.mem_filter.mp hg).2
  have hapart := (hc.overloads_apart name).filter p
  revert hmem hall hapart
  rcases (c.overloads name).filter p with _ | ⟨g, _ | ⟨g', rest⟩⟩ <;> intro hmem hall hapart
  · cases hmem
  · rw [List.mem_singleton.mp hmem]
  · have hne : g.shape ≠ g'.shape := List.rel_of_pairwise_cons hapart List.mem_cons_self
    exact absurd ((hall g (by simp)).trans (hall g' (by simp)).symm) hne

/-- The overload whose parameters have the types of the arguments wins over those
that need a conversion. -/
theorem Lawful.select_exact (hc : c.Lawful) {name : String} (hvoid : .void ∉ tys)
    (hf : f ∈ c.overloads name) (hfixed : f.isVariadic = false)
    (htys : f.params.map (·.ty) = tys)
    (hothers : ∀ g ∈ c.overloads name, g.isVariadic = true → g.accepts (tys.map .typed) = false) :
    selectOverload (c.overloads name) (tys.map .typed) = .ok f := by
  obtain ⟨haccepts, hexact⟩ := f.accepts_own hfixed htys hvoid
  have hplaced : ∀ g ∈ c.overloads name, ∀ p ∈ g.params.dropLast, p.variadic = false :=
    fun g hg => hc.placed (hc.mem_overloads.mp hg).1
  refine selectOverload_of_exact ?_
  rw [List.filter_filter]
  refine hc.filter_overloads_eq hf (by simp [haccepts, hexact]) fun g hg hboth => ?_
  obtain ⟨hgexact, hgaccepts⟩ := Bool.and_eq_true_iff.mp hboth
  have hgfixed : g.isVariadic = false := by
    by_contra hvariadic
    exact Bool.false_ne_true ((hothers g hg (by simpa using hvariadic)).symm.trans hgaccepts)
  rw [g.shape_of_fixed hgfixed (hplaced g hg), f.shape_of_fixed hfixed (hplaced f hf), htys,
    g.types_of_exactly hgfixed hgaccepts hgexact]

/-- **Which overload of a lawful catalog a call selects.** The order of the
overloads does not matter; a selected overload is one of them and accepts the
arguments; where all arguments have values of known types and no variadic
overload accepts them, the overload with just these types is selected; and an
argument that turns out wrong never makes a selected call one without overloads. -/
theorem Lawful.selection (hc : c.Lawful) (name : String) (args : List Argument) :
    (∀ fs : List LibraryFunction, fs.Perm (c.overloads name) →
        selectOverload fs args = selectOverload (c.overloads name) args)
      ∧ (∀ f, selectOverload (c.overloads name) args = .ok f →
          f ∈ c.overloads name ∧ f.mismatch? args = none)
      ∧ (∀ tys, args = tys.map .typed → .void ∉ tys → ∀ f ∈ c.overloads name,
          f.isVariadic = false → f.params.map (·.ty) = tys →
          (∀ g ∈ c.overloads name, g.isVariadic = true → g.mismatch? args ≠ none) →
          selectOverload (c.overloads name) args = .ok f)
      ∧ ∀ f i, selectOverload (c.overloads name) args = .ok f →
          selectOverload (c.overloads name) (args.set i .untyped) ≠ .error .noMatch := by
  refine ⟨fun fs => selectOverload_perm, fun f h => ?_, ?_, fun f i h hnone => ?_⟩
  · obtain ⟨hmem, haccepts⟩ := accepts_of_selectOverload h
    exact ⟨hmem, by simpa [LibraryFunction.accepts] using haccepts⟩
  · rintro tys rfl hvoid f hf hfixed htys hothers
    refine hc.select_exact hvoid hf hfixed htys fun g hg hvariadic => ?_
    simpa [LibraryFunction.accepts, Option.isNone_eq_false_iff, Option.isSome_iff_ne_none]
      using hothers g hg hvariadic
  · obtain ⟨hmem, haccepts⟩ := accepts_of_selectOverload h
    have hset := f.accepts_set_untyped i haccepts
    exact Bool.false_ne_true ((accepts_eq_false_of_noMatch hnone hmem).symm.trans hset)

/-- Overloads for a float, an integer, and a key with any number of strings: an
integer selects the second, in any order, and still selects one when it is
wrong beside a second argument. -/
theorem selection_of_integer :
    let float : LibraryFunction := { name := "osSet", params := [⟨"a", .float, false⟩] }
    let integer : LibraryFunction := { name := "osSet", params := [⟨"a", .integer, false⟩] }
    let texts : LibraryFunction :=
      { name := "osSet", params := [⟨"k", .key, false⟩, ⟨"s", .string, true⟩] }
    let c := ((empty.withFunction float).withFunction integer).withFunction texts
    c.Lawful ∧ c.overloads "osSet" = [float, integer, texts]
      ∧ selectOverload [texts, integer, float] [.typed .integer] = .ok integer
      ∧ selectOverload (c.overloads "osSet") [.typed .key, .typed .string] = .ok texts
      ∧ selectOverload (c.overloads "osSet") [.typed .key, .untyped] ≠ .error .noMatch := by
  intro float integer texts c
  have hc : c.Lawful := kept_lawful.withFunction _
    (kept_lawful.withFunction _ (kept_lawful.withFunction _ lawful_empty))
  have hall : c.overloads "osSet" = [float, integer, texts] := by decide
  obtain ⟨hperm, -, hexact, -⟩ := Lawful.selection hc "osSet" [.typed .integer]
  obtain ⟨-, -, -, huntyped⟩ := Lawful.selection hc "osSet" [.typed .key, .typed .string]
  have hinteger : selectOverload (c.overloads "osSet") [.typed .integer] = .ok integer := by
    refine hexact [.integer] rfl (by decide) integer (by simp [hall]) (by decide) (by decide) ?_
    rw [hall]
    decide
  have htexts : selectOverload (c.overloads "osSet") [.typed .key, .typed .string] = .ok texts := by
    rw [hall]
    rfl
  refine ⟨hc, hall, ?_, htexts, huntyped texts 1 htexts⟩
  rw [← hinteger]
  exact hperm _ (by rw [hall]; decide)

end Catalog

end Lsl
