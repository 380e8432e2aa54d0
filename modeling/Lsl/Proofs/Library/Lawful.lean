/- # How a catalog files its entries

Every name is opened once and holds overloads of that name only, at least one
and no two of the same shape; only the last parameter of a function is variadic;
constants and events have names of their own, and constants have values. The
empty and the standard catalog are filed like this, and every entry that is
added leaves the others as they are.

Key definitions: `Catalog.Lawful`.
Key theorems: `Catalog.kept_lawful`, `Catalog.Constructed.lawful`,
`Catalog.Lawful.mem_overloads`.
-/
import Lsl.Proofs.Library.Constructed
import Mathlib.Data.List.Nodup

namespace Lsl

/-- The overloads of each name. -/
abbrev OverloadTable := List (String × List LibraryFunction)

namespace Catalog

variable {c c' : Catalog} {f g : LibraryFunction} {name : String}

/-- The names that the table opens, in order. -/
def names (table : OverloadTable) : List String := table.map (·.1)

/-! ### Tables of overloads -/

section Tables

variable {table before after : OverloadTable} {fs : List LibraryFunction}

theorem lookup_of_not_mem (h : name ∉ names table) : table.lookup name = none := by
  refine List.lookup_eq_none_iff.mpr fun p hp => ?_
  have hne : name ≠ p.1 := fun heq => h (heq ▸ List.mem_map_of_mem hp)
  simpa using hne

/-- A name is found where it is opened first. -/
theorem lookup_of_split (h : name ∉ names before) :
    (before ++ (name, fs) :: after).lookup name = some fs := by
  rw [List.lookup_append, lookup_of_not_mem h, Option.none_or, List.lookup_cons_self]

theorem pushOverload_new (h : f.name ∉ names table) :
    pushOverload f table = table ++ [(f.name, [f])] := by
  induction table with
  | nil => rfl
  | cons p rest ih =>
    simp only [names, List.map_cons, List.mem_cons, not_or] at h
    have hne : (p.1 == f.name) = false := by simpa using Ne.symm h.1
    rw [pushOverload, hne, List.cons_append, ih h.2]
    rfl

theorem pushOverload_split (h : f.name ∉ names before) :
    pushOverload f (before ++ (f.name, fs) :: after)
      = before ++ (f.name, fs ++ [f]) :: after := by
  induction before with
  | nil => simp [pushOverload]
  | cons p rest ih =>
    simp only [names, List.map_cons, List.mem_cons, not_or] at h
    have hne : (p.1 == f.name) = false := by simpa using Ne.symm h.1
    rw [List.cons_append, pushOverload, hne, ih h.2]
    rfl

/-- An overload opens its name at the end, or joins those of its name. -/
theorem pushOverload_cases (f : LibraryFunction) (table : OverloadTable) :
    (f.name ∉ names table ∧ table.lookup f.name = none
        ∧ pushOverload f table = table ++ [(f.name, [f])])
      ∨ ∃ before fs after, table = before ++ (f.name, fs) :: after
        ∧ table.lookup f.name = some fs
        ∧ pushOverload f table = before ++ (f.name, fs ++ [f]) :: after := by
  cases hfound : table.lookup f.name with
  | none =>
    have hnew : f.name ∉ names table := by
      intro hmem
      obtain ⟨p, hp, hname⟩ := List.mem_map.mp hmem
      simpa [hname] using List.lookup_eq_none_iff.mp hfound p hp
    exact .inl ⟨hnew, rfl, pushOverload_new hnew⟩
  | some fs =>
    obtain ⟨before, after, rfl, hbefore⟩ := List.lookup_eq_some_iff.mp hfound
    have hnew : f.name ∉ names before := by
      intro hmem
      obtain ⟨p, hp, hname⟩ := List.mem_map.mp hmem
      simpa [hname] using hbefore p hp
    exact .inr ⟨before, fs, after, rfl, rfl, pushOverload_split hnew⟩

end Tables

/-! ### Lawful catalogs -/

/-- The name holds overloads of its own, and no two that calls cannot tell apart. -/
structure Filed (name : String) (fs : List LibraryFunction) : Prop where
  inhabited : fs ≠ []
  named : ∀ f ∈ fs, f.name = name
  apart : fs.Pairwise (·.shape ≠ ·.shape)
  /-- Only the last parameter is variadic. -/
  placed : ∀ f ∈ fs, ∀ p ∈ f.params.dropLast, p.variadic = false

/-- Every entry stands under its own name and has a place of its own there. -/
structure Lawful (c : Catalog) : Prop where
  opened : (names c.functions).Nodup
  filed : ∀ name fs, (name, fs) ∈ c.functions → Filed name fs
  constants : (c.constants.map (·.name)).Nodup
  valued : c.Valued
  events : (c.events.map (·.name)).Nodup

theorem placed_iff : f.wellPlaced = true ↔ ∀ p ∈ f.params.dropLast, p.variadic = false := by
  simp [LibraryFunction.wellPlaced]

/-- What is asked of a function that a catalog takes in, and where it goes. -/
theorem addFunction_cases (h : c.addFunction f = .ok c') :
    (∀ p ∈ f.params.dropLast, p.variadic = false) ∧ (∀ g ∈ c.overloads f.name, g.shape ≠ f.shape)
      ∧ c' = c.pushFunction f := by
  unfold addFunction at h
  split at h
  · cases h
  · rename_i hplaced
    split at h
    · cases h
    · rename_i hshape
      cases h
      refine ⟨placed_iff.mp (by simpa using hplaced), ?_, rfl⟩
      simpa using hshape

theorem filed_single (h : ∀ p ∈ f.params.dropLast, p.variadic = false) : Filed f.name [f] where
  inhabited := by simp
  named := by simp
  apart := by simp
  placed := by simpa using h

theorem Filed.push {fs : List LibraryFunction} (hfs : Filed f.name fs)
    (hplaced : ∀ p ∈ f.params.dropLast, p.variadic = false) (hshape : ∀ g ∈ fs, g.shape ≠ f.shape) :
    Filed f.name (fs ++ [f]) where
  inhabited := by simp
  named := List.forall_mem_append.mpr ⟨hfs.named, by simp⟩
  apart := List.pairwise_append.mpr ⟨hfs.apart, by simp, by simpa using hshape⟩
  placed := List.forall_mem_append.mpr ⟨hfs.placed, by simpa using hplaced⟩

theorem Lawful.addFunction (hc : c.Lawful) (h : c.addFunction f = .ok c') : c'.Lawful := by
  obtain ⟨hplaced, hshape, rfl⟩ := addFunction_cases h
  rcases pushOverload_cases f c.functions with
    ⟨hnew, -, hpush⟩ | ⟨before, fs, after, hsplit, hfound, hpush⟩
  · refine { hc with opened := ?_, filed := ?_ }
    · rw [pushFunction, hpush, names, List.map_append]
      exact List.concat_eq_append ▸ hc.opened.concat hnew
    · intro name gs hmem
      rw [pushFunction, hpush] at hmem
      rcases List.mem_append.mp hmem with hmem | hmem
      · exact hc.filed name gs hmem
      · obtain ⟨rfl, rfl⟩ := Prod.mk.inj (List.mem_singleton.mp hmem)
        exact filed_single hplaced
  · have hopened := hc.opened
    have hfiled := hc.filed
    rw [overloads, hfound] at hshape
    rw [hsplit] at hopened hfiled
    refine { hc with opened := ?_, filed := ?_ }
    · rw [pushFunction, hpush]
      simpa [names] using hopened
    · intro name gs hmem
      rw [pushFunction, hpush] at hmem
      rcases List.mem_append.mp hmem with hmem | hmem
      · exact hfiled name gs (List.mem_append_left _ hmem)
      · rcases List.mem_cons.mp hmem with hmem | hmem
        · obtain ⟨rfl, rfl⟩ := Prod.mk.inj hmem
          exact (hfiled f.name fs (by simp)).push hplaced hshape
        · exact hfiled name gs (by simp [hmem])

/-- What is asked of a constant that a catalog takes in, and where it goes. -/
theorem addConstant_cases {k : LibraryConstant} (h : c.addConstant k = .ok c') :
    k.ty ≠ .void ∧ k.name ∉ c.constants.map (·.name)
      ∧ c' = { c with constants := c.constants ++ [k] } := by
  unfold addConstant at h
  split at h
  · cases h
  · rename_i hvoid
    split at h
    · cases h
    · rename_i hthere
      cases h
      refine ⟨fun hty => hvoid (by rw [hty]; rfl), ?_, rfl⟩
      simpa [hasConstant, constant?] using hthere

/-- What is asked of an event that a catalog takes in, and where it goes. -/
theorem addEvent_cases {e : LibraryEvent} (h : c.addEvent e = .ok c') :
    e.name ∉ c.events.map (·.name) ∧ c' = { c with events := c.events ++ [e] } := by
  unfold addEvent at h
  split at h
  · cases h
  · rename_i hthere
    cases h
    exact ⟨by simpa [event?] using hthere, rfl⟩

theorem kept_lawful : Kept Lawful where
  function hc h := hc.addFunction h
  constant hc h := by
    have hvalued := kept_valued.constant hc.valued h
    obtain ⟨-, hnew, rfl⟩ := addConstant_cases h
    refine { hc with constants := ?_, valued := hvalued }
    rw [List.map_append]
    exact List.concat_eq_append ▸ hc.constants.concat hnew
  event hc h := by
    obtain ⟨hnew, rfl⟩ := addEvent_cases h
    refine { hc with events := ?_ }
    rw [List.map_append]
    exact List.concat_eq_append ▸ hc.events.concat hnew

theorem lawful_empty : Catalog.empty.Lawful where
  opened := List.nodup_nil
  filed _ _ h := nomatch h
  constants := List.nodup_nil
  valued _ h := nomatch h
  events := List.nodup_nil

/-- A check of one name in a table, for tables that are written down. -/
def filedCheck (p : String × List LibraryFunction) : Bool :=
  !p.2.isEmpty && p.2.all (·.name == p.1) && decide (p.2.Pairwise (·.shape ≠ ·.shape))
    && p.2.all (·.wellPlaced)

theorem filed_of_check {fs : List LibraryFunction} (h : filedCheck (name, fs) = true) :
    Filed name fs := by
  simp only [filedCheck, Bool.and_eq_true, List.all_eq_true, decide_eq_true_eq, beq_iff_eq,
    Bool.not_eq_true', List.isEmpty_eq_false_iff] at h
  obtain ⟨⟨⟨hne, hnamed⟩, hapart⟩, hplaced⟩ := h
  exact ⟨hne, hnamed, hapart, fun f hf => placed_iff.mp (hplaced f hf)⟩

theorem lawful_standard : Catalog.standard.Lawful where
  opened := by decide +kernel
  filed name fs h := by
    have hall : Catalog.standard.functions.all filedCheck = true := by decide +kernel
    exact filed_of_check (List.all_eq_true.mp hall _ h)
  constants := by decide +kernel
  valued := Constructed.standard.valued
  events := by decide +kernel

/-- **Every catalog that can be constructed is lawful.** -/
theorem Constructed.lawful (h : c.Constructed) : c.Lawful :=
  h.of_kept kept_lawful lawful_empty lawful_standard

/-! ### Lookup in a lawful catalog -/

theorem Lawful.overloads_of_mem (hc : c.Lawful) {fs : List LibraryFunction}
    (h : (name, fs) ∈ c.functions) : c.overloads name = fs := by
  obtain ⟨before, after, hsplit⟩ := List.append_of_mem h
  have hopened := hc.opened
  rw [hsplit, names, List.map_append] at hopened
  have hnew : name ∉ names before := fun hmem =>
    (List.nodup_append'.mp hopened).2.2 hmem List.mem_cons_self
  rw [overloads, hsplit, lookup_of_split hnew]
  rfl

/-- Every function is found under its own name. -/
theorem Lawful.mem_overloads (hc : c.Lawful) :
    f ∈ c.overloads name ↔ f ∈ c.allFunctions ∧ f.name = name := by
  constructor
  · intro hf
    cases hfound : c.functions.lookup name with
    | none => simp [overloads, hfound] at hf
    | some fs =>
      obtain ⟨before, after, hsplit, -⟩ := List.lookup_eq_some_iff.mp hfound
      have hmem : (name, fs) ∈ c.functions := by simp [hsplit]
      rw [hc.overloads_of_mem hmem] at hf
      exact ⟨List.mem_flatMap.mpr ⟨_, hmem, hf⟩, (hc.filed name fs hmem).named f hf⟩
  · rintro ⟨hf, rfl⟩
    obtain ⟨⟨name, fs⟩, hmem, hin⟩ := List.mem_flatMap.mp hf
    rw [(hc.filed name fs hmem).named f hin, hc.overloads_of_mem hmem]
    exact hin

/-- Calls can tell the overloads of a name apart. -/
theorem Lawful.overloads_apart (hc : c.Lawful) (name : String) :
    (c.overloads name).Pairwise (·.shape ≠ ·.shape) := by
  cases hfound : c.functions.lookup name with
  | none => simp [overloads, hfound]
  | some fs =>
    obtain ⟨before, after, hsplit, -⟩ := List.lookup_eq_some_iff.mp hfound
    rw [overloads, hfound]
    exact (hc.filed name fs (by simp [hsplit])).apart

theorem Lawful.placed (hc : c.Lawful) (hf : f ∈ c.allFunctions) :
    ∀ p ∈ f.params.dropLast, p.variadic = false := by
  obtain ⟨⟨name, fs⟩, hmem, hin⟩ := List.mem_flatMap.mp hf
  exact (hc.filed name fs hmem).placed f hin

/-- In a list without two items of one key, the item of a key is the one found. -/
theorem find?_eq_some_of_nodup {α : Type} {key : α → String} {items : List α}
    (h : (items.map key).Nodup) (a : α) :
    items.find? (key · == name) = some a ↔ a ∈ items ∧ key a = name := by
  constructor
  · intro hfound
    exact ⟨List.mem_of_find?_eq_some hfound, by simpa using List.find?_some hfound⟩
  · rintro ⟨hmem, rfl⟩
    obtain ⟨before, after, rfl⟩ := List.append_of_mem hmem
    rw [List.map_append] at h
    have hnone : before.find? (key · == key a) = none := by
      refine List.find?_eq_none.mpr fun b hb heq => ?_
      have hkey : key b = key a := by simpa using heq
      exact (List.nodup_append'.mp h).2.2 (List.mem_map_of_mem hb) (hkey ▸ List.mem_cons_self)
    rw [List.find?_append, hnone]
    simp

theorem Lawful.constant?_eq_some (hc : c.Lawful) (k : LibraryConstant) :
    c.constant? name = some k ↔ k ∈ c.constants ∧ k.name = name :=
  find?_eq_some_of_nodup hc.constants k

theorem Lawful.event?_eq_some (hc : c.Lawful) (e : LibraryEvent) :
    c.event? name = some e ↔ e ∈ c.events ∧ e.name = name :=
  find?_eq_some_of_nodup hc.events e

end Catalog

end Lsl
