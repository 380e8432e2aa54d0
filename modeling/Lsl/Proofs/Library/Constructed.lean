/- # Catalogs that can be constructed

A catalog is taken from the standard one, read from a file, extended by entries
or merged with another one. All of this adds one entry after the other, so that
what each addition keeps holds of every catalog. None of it takes in a constant
of type `void`.

Key definitions: `Catalog.Constructed`, `Catalog.Kept`.
Key theorems: `Catalog.Constructed.valued`, `Catalog.Constructed.of_kept`.
-/
import Lsl.Library.Json
import Lsl.Library.Standard

namespace Lsl

namespace Catalog

/-- The catalogs there can be. -/
inductive Constructed : Catalog → Prop where
  | empty : Constructed empty
  | standard : Constructed standard
  | ofText {c : Catalog} (text : String) (h : ofText text = .ok c) : Constructed c
  | addFunction {c c' : Catalog} (f : LibraryFunction) (hc : Constructed c)
    (h : c.addFunction f = .ok c') : Constructed c'
  | addConstant {c c' : Catalog} (k : LibraryConstant) (hc : Constructed c)
    (h : c.addConstant k = .ok c') : Constructed c'
  | addEvent {c c' : Catalog} (e : LibraryEvent) (hc : Constructed c)
    (h : c.addEvent e = .ok c') : Constructed c'
  | merge {c other : Catalog} (hc : Constructed c) (ho : Constructed other) :
    Constructed (c.merge other)

variable {c c' other : Catalog}

/-- Every constant has a value. -/
def Valued (c : Catalog) : Prop := ∀ k ∈ c.constants, k.ty ≠ .void

theorem constants_addFunction {f : LibraryFunction} (h : c.addFunction f = .ok c') :
    c'.constants = c.constants := by
  unfold addFunction at h
  split at h
  · cases h
  · split at h
    · cases h
    · cases h
      rfl

theorem constants_addEvent {e : LibraryEvent} (h : c.addEvent e = .ok c') :
    c'.constants = c.constants := by
  unfold addEvent at h
  split at h
  · cases h
  · cases h
    rfl

/-! ### Properties that additions keep -/

/-- Every entry that a catalog takes in leaves the property as it was. -/
structure Kept (P : Catalog → Prop) : Prop where
  function : ∀ {c c' : Catalog} {f : LibraryFunction}, P c → c.addFunction f = .ok c' → P c'
  constant : ∀ {c c' : Catalog} {k : LibraryConstant}, P c → c.addConstant k = .ok c' → P c'
  event : ∀ {c c' : Catalog} {e : LibraryEvent}, P c → c.addEvent e = .ok c' → P c'

section Kept

variable {α : Type} {P : Catalog → Prop}

/-- What holds of a catalog and is kept with each entry holds in the end. -/
theorem foldlM_keeps {add : Catalog → α → Except CatalogError Catalog}
    (hadd : ∀ c a c', P c → add c a = .ok c' → P c') (entries : List α) (hc : P c)
    (h : entries.foldlM add c = .ok c') : P c' := by
  induction entries generalizing c with
  | nil =>
    cases h
    exact hc
  | cons a rest ih =>
    rw [List.foldlM_cons] at h
    cases ha : add c a with
    | error e =>
      rw [ha] at h
      cases h
    | ok c₁ =>
      rw [ha] at h
      exact ih (hadd c a c₁ hc ha) h

theorem foldl_keeps {add : Catalog → α → Catalog} (entries : List α)
    (hadd : ∀ c, ∀ a ∈ entries, P c → P (add c a)) (hc : P c) : P (entries.foldl add c) := by
  induction entries generalizing c with
  | nil => exact hc
  | cons a rest ih =>
    exact ih (fun c b hb => hadd c b (List.mem_cons_of_mem _ hb)) (hadd c a List.mem_cons_self hc)

theorem orKeep_keeps {r : Except CatalogError Catalog} (hc : P c) (h : ∀ c', r = .ok c' → P c') :
    P (c.orKeep r) := by
  cases r with
  | ok c' => exact h c' rfl
  | error e => exact hc

theorem Kept.withFunction (hP : Kept P) (f : LibraryFunction) (hc : P c) : P (c.withFunction f) :=
  orKeep_keeps hc fun _ h => hP.function hc h

theorem Kept.withConstant (hP : Kept P) (k : LibraryConstant) (hc : P c) : P (c.withConstant k) :=
  orKeep_keeps hc fun _ h => hP.constant hc h

theorem Kept.withEvent (hP : Kept P) (e : LibraryEvent) (hc : P c) : P (c.withEvent e) :=
  orKeep_keeps hc fun _ h => hP.event hc h

theorem Kept.ofEntries (hP : Kept P) (hempty : P Catalog.empty) {functions : List LibraryFunction}
    {constants : List LibraryConstant} {events : List LibraryEvent}
    (h : ofEntries functions constants events = .ok c) : P c := by
  unfold Catalog.ofEntries at h
  cases hf : functions.foldlM Catalog.addFunction Catalog.empty with
  | error e =>
    rw [hf] at h
    cases h
  | ok c₁ =>
    rw [hf] at h
    have h1 : P c₁ := foldlM_keeps (fun _ _ _ => hP.function) functions hempty hf
    cases hk : constants.foldlM Catalog.addConstant c₁ with
    | error e =>
      simp only [bind, Except.bind, hk] at h
      cases h
    | ok c₂ =>
      simp only [bind, Except.bind, hk] at h
      have h2 : P c₂ := foldlM_keeps (fun _ _ _ => hP.constant) constants h1 hk
      exact foldlM_keeps (fun _ _ _ => hP.event) events h2 h

theorem Kept.ofText (hP : Kept P) (hempty : P Catalog.empty) {text : String}
    (h : ofText text = .ok c) : P c := by
  unfold Catalog.ofText at h
  split at h
  · unfold ofJson at h
    split at h
    · exact hP.ofEntries hempty h
    · cases h
  · cases h

/-- A constant that has a value is offered as it is added. -/
theorem offerConstant_eq {k : LibraryConstant} (hk : k.ty ≠ .void) (c : Catalog) :
    c.offerConstant k = c.withConstant k := by
  have hvoid : k.ty.isVoid = false := by simpa [Ty.isVoid] using hk
  unfold offerConstant withConstant addConstant
  rw [hvoid]
  by_cases hthere : c.hasConstant k.name <;> simp [hthere, orKeep]

theorem Kept.merge (hP : Kept P) (hc : P c) (ho : other.Valued) : P (c.merge other) := by
  have hoffer : ∀ c, ∀ k ∈ other.constants, P c → P (c.offerConstant k) := by
    intro c k hk hc
    rw [offerConstant_eq (ho k hk)]
    exact hP.withConstant k hc
  have h1 := foldl_keeps other.allFunctions (fun _ f _ => hP.withFunction f) hc
  have h2 := foldl_keeps other.constants hoffer h1
  exact foldl_keeps other.events (fun _ e _ => hP.withEvent e) h2

end Kept

/-! ### Constants have values -/

theorem kept_valued : Kept Valued where
  function hc h := by
    rw [Valued, constants_addFunction h]
    exact hc
  constant hc h := by
    unfold Catalog.addConstant at h
    split at h
    · cases h
    · rename_i hk
      split at h
      · cases h
      · cases h
        intro x hx
        rcases List.mem_append.mp hx with hx | hx
        · exact hc x hx
        · rw [List.mem_singleton.mp hx]
          exact fun hty => hk (by rw [hty]; rfl)
  event hc h := by
    rw [Valued, constants_addEvent h]
    exact hc

/-- **A catalog that can be constructed has a value for every constant.** -/
theorem Constructed.valued (h : c.Constructed) : c.Valued := by
  have hempty : Catalog.empty.Valued := by simp [Valued, Catalog.empty]
  induction h with
  | empty => exact hempty
  | standard =>
    have hall : Catalog.standard.constants.all (fun k => k.ty != .void) = true := by decide
    intro k hk
    simpa using List.all_eq_true.mp hall k hk
  | ofText text h => exact kept_valued.ofText hempty h
  | addFunction f _ h ih => exact kept_valued.function ih h
  | addConstant k _ h ih => exact kept_valued.constant ih h
  | addEvent e _ h ih => exact kept_valued.event ih h
  | merge _ _ ihc iho => exact kept_valued.merge ihc iho

/-- What holds of the empty and of the standard catalog and is kept by additions
holds of every catalog. -/
theorem Constructed.of_kept {P : Catalog → Prop} (hP : Kept P) (hempty : P Catalog.empty)
    (hstandard : P Catalog.standard) (h : c.Constructed) : P c := by
  induction h with
  | empty => exact hempty
  | standard => exact hstandard
  | ofText text h => exact hP.ofText hempty h
  | addFunction f _ h ih => exact hP.function ih h
  | addConstant k _ h ih => exact hP.constant ih h
  | addEvent e _ h ih => exact hP.event ih h
  | merge _ ho ihc _ => exact hP.merge ihc ho.valued

theorem kept_constructed : Kept Constructed where
  function hc h := .addFunction _ hc h
  constant hc h := .addConstant _ hc h
  event hc h := .addEvent _ hc h

end Catalog

end Lsl
