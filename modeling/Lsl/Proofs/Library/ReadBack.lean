/- # Catalogs are read back as they were written

The file of a catalog lists all overloads one after the other, those of a name
together. Reading adds them one by one, so that every name is opened where it
stood and holds its overloads in their order; none is refused, since a lawful
catalog holds nothing that could not be added to what stands before it.

Key theorems: `Catalog.ofEntries_lawful`, `Catalog.ofJson_toJson`,
`Catalog.readBack_of_constructed`.
-/
import Lsl.Proofs.Json.Fields
import Lsl.Proofs.Json.ReadBack
import Lsl.Proofs.Library.Lawful

namespace Lsl

open Json (asString asBool asTag asList asTag_of_isTag required_of_field? defaulted_of_field? asList_list)

/-! ### Entries -/

theorem LibraryParam.ofJson_toJson (p : LibraryParam) : ofJson p.toJson = .ok p := by
  have hname : p.toJson.required "name" asString = .ok p.name := required_of_field? rfl rfl
  have hty : p.toJson.required "ty" (asTag Ty.ofTag?) = .ok p.ty :=
    required_of_field? rfl (asTag_of_isTag (.inl rfl) p.ty.ofTag?_name)
  have hvariadic : p.toJson.defaulted "variadic" false asBool = .ok p.variadic :=
    defaulted_of_field? rfl rfl
  rw [ofJson, hname, hty, hvariadic]
  rfl

theorem asList_params (ps : List LibraryParam) :
    asList LibraryParam.ofJson (.list LibraryParam.toJson ps) = .ok ps :=
  asList_list fun p _ => p.ofJson_toJson

theorem LibraryFunction.ofJson_toJson (f : LibraryFunction) : ofJson f.toJson = .ok f := by
  have hname : f.toJson.required "name" asString = .ok f.name := required_of_field? rfl rfl
  have hreturn : f.toJson.defaulted "return_type" .void (asTag Ty.ofTag?) = .ok f.returnType :=
    defaulted_of_field? rfl (asTag_of_isTag (.inl rfl) f.returnType.ofTag?_name)
  have hparams : f.toJson.defaulted "params" [] (asList LibraryParam.ofJson) = .ok f.params :=
    defaulted_of_field? rfl (asList_params f.params)
  have hinvoke : f.toJson.defaulted "mod_invoke" false asBool = .ok f.modInvoke :=
    defaulted_of_field? rfl rfl
  have hdeprecated : f.toJson.defaulted "deprecated" false asBool = .ok f.deprecated :=
    defaulted_of_field? rfl rfl
  rw [ofJson, hname, hreturn, hparams, hinvoke, hdeprecated]
  rfl

theorem LibraryConstant.ofJson_toJson (k : LibraryConstant) : ofJson k.toJson = .ok k := by
  have hname : k.toJson.required "name" asString = .ok k.name := required_of_field? rfl rfl
  have hty : k.toJson.required "ty" (asTag Ty.ofTag?) = .ok k.ty :=
    required_of_field? rfl (asTag_of_isTag (.inl rfl) k.ty.ofTag?_name)
  have hvalue : k.toJson.required "value" asString = .ok k.value := required_of_field? rfl rfl
  have hexpand : k.toJson.defaulted "expand" false asBool = .ok k.expand :=
    defaulted_of_field? rfl rfl
  have hdeprecated : k.toJson.defaulted "deprecated" false asBool = .ok k.deprecated :=
    defaulted_of_field? rfl rfl
  rw [ofJson, hname, hty, hvalue, hexpand, hdeprecated]
  rfl

theorem LibraryEvent.ofJson_toJson (e : LibraryEvent) : ofJson e.toJson = .ok e := by
  have hname : e.toJson.required "name" asString = .ok e.name := required_of_field? rfl rfl
  have hparams : e.toJson.defaulted "params" [] (asList LibraryParam.ofJson) = .ok e.params :=
    defaulted_of_field? rfl (asList_params e.params)
  have hdeprecated : e.toJson.defaulted "deprecated" false asBool = .ok e.deprecated :=
    defaulted_of_field? rfl rfl
  rw [ofJson, hname, hparams, hdeprecated]
  rfl

namespace Catalog

variable {c : Catalog}

theorem entriesOfJson_toJson (c : Catalog) :
    entriesOfJson c.toJson = .ok (c.allFunctions, c.constants, c.events) := by
  have hfunctions : c.toJson.defaulted "functions" [] (asList LibraryFunction.ofJson)
      = .ok c.allFunctions :=
    defaulted_of_field? rfl (asList_list fun f _ => f.ofJson_toJson)
  have hconstants : c.toJson.defaulted "constants" [] (asList LibraryConstant.ofJson)
      = .ok c.constants :=
    defaulted_of_field? rfl (asList_list fun k _ => k.ofJson_toJson)
  have hevents : c.toJson.defaulted "events" [] (asList LibraryEvent.ofJson) = .ok c.events :=
    defaulted_of_field? rfl (asList_list fun e _ => e.ofJson_toJson)
  rw [entriesOfJson, hfunctions, hconstants, hevents]
  rfl

/-! ### Adding the entries of a lawful catalog -/

theorem addFunction_ok {f : LibraryFunction}
    (hplaced : ∀ p ∈ f.params.dropLast, p.variadic = false)
    (hshape : ∀ g ∈ c.overloads f.name, g.shape ≠ f.shape) :
    c.addFunction f = .ok (c.pushFunction f) := by
  have hany : (c.overloads f.name).any (·.shape == f.shape) = false := by simpa using hshape
  rw [addFunction, placed_iff.mpr hplaced, hany]
  rfl

/-- Behind what is open already, the overloads of a name join it in their order. -/
theorem foldlM_addFunction_overloads {before : OverloadTable} {name : String}
    (hnew : name ∉ names before) (fs : List LibraryFunction) :
    ∀ done, Filed name (done ++ fs) → done ≠ [] →
      fs.foldlM addFunction { functions := before ++ [(name, done)] }
        = .ok { functions := before ++ [(name, done ++ fs)] } := by
  induction fs with
  | nil =>
    intro done _ _
    rw [List.append_nil]
    rfl
  | cons f fs ih =>
    intro done hfiled hdone
    have hname : f.name = name := hfiled.named f (by simp)
    subst hname
    have hapart := (List.pairwise_append.mp hfiled.apart).2.2
    have hadd : addFunction { functions := before ++ [(f.name, done)] } f
        = .ok { functions := before ++ [(f.name, done ++ [f])] } := by
      rw [addFunction_ok (hfiled.placed f (by simp)), pushFunction, pushOverload_split hnew]
      intro g hg
      rw [overloads, lookup_of_split hnew] at hg
      exact hapart g hg f List.mem_cons_self
    rw [List.foldlM_cons, hadd]
    have hrest := ih (done ++ [f]) (by simpa using hfiled) (by simp)
    rw [List.append_assoc, List.singleton_append] at hrest
    exact hrest

/-- Adding every overload of a table opens its names again, in their order. -/
theorem foldlM_addFunction_table (table : OverloadTable) :
    ∀ before, (names (before ++ table)).Nodup → (∀ name fs, (name, fs) ∈ table → Filed name fs) →
      (table.flatMap (·.2)).foldlM addFunction { functions := before }
        = .ok { functions := before ++ table } := by
  induction table with
  | nil =>
    intro before _ _
    rw [List.append_nil]
    rfl
  | cons p rest ih =>
    intro before hopened hall
    obtain ⟨name, fs⟩ := p
    have hfiled := hall name fs List.mem_cons_self
    have hnew : name ∉ names before := by
      rw [names, List.map_append] at hopened
      exact fun hmem => (List.nodup_append'.mp hopened).2.2 hmem List.mem_cons_self
    have hfs : fs.foldlM addFunction { functions := before }
        = .ok { functions := before ++ [(name, fs)] } := by
      cases fs with
      | nil => exact absurd rfl hfiled.inhabited
      | cons f fs =>
        have hname : f.name = name := hfiled.named f List.mem_cons_self
        subst hname
        have hfirst : addFunction { functions := before } f
            = .ok { functions := before ++ [(f.name, [f])] } := by
          rw [addFunction_ok (hfiled.placed f List.mem_cons_self), pushFunction,
            pushOverload_new hnew]
          intro g hg
          simp [overloads, lookup_of_not_mem hnew] at hg
        rw [List.foldlM_cons, hfirst]
        exact foldlM_addFunction_overloads hnew fs [f] hfiled (by simp)
    rw [List.flatMap_cons, List.foldlM_append, hfs]
    have hrest := ih (before ++ [(name, fs)]) (by simpa using hopened)
      fun other gs hmem => hall other gs (List.mem_cons_of_mem _ hmem)
    rw [List.append_assoc, List.singleton_append] at hrest
    exact hrest

theorem foldlM_addConstant (ks : List LibraryConstant) :
    ∀ c : Catalog, ((c.constants ++ ks).map (·.name)).Nodup → (∀ k ∈ ks, k.ty ≠ .void) →
      ks.foldlM addConstant c = .ok { c with constants := c.constants ++ ks } := by
  induction ks with
  | nil =>
    intro c _ _
    rw [List.append_nil]
    rfl
  | cons k ks ih =>
    intro c hnodup hvalued
    have hnew : c.hasConstant k.name = false := by
      rw [List.map_append] at hnodup
      have hnot := fun hmem => (List.nodup_append'.mp hnodup).2.2 hmem List.mem_cons_self
      simpa [hasConstant, constant?] using hnot
    have hvoid : k.ty.isVoid = false := by simpa [Ty.isVoid] using hvalued k List.mem_cons_self
    have hadd : c.addConstant k = .ok { c with constants := c.constants ++ [k] } := by
      rw [addConstant, hvoid, hnew]
      rfl
    rw [List.foldlM_cons, hadd]
    have hrest := ih { c with constants := c.constants ++ [k] } (by simpa using hnodup)
      fun j hj => hvalued j (List.mem_cons_of_mem _ hj)
    simp only [List.append_assoc, List.singleton_append] at hrest
    exact hrest

theorem foldlM_addEvent (es : List LibraryEvent) :
    ∀ c : Catalog, ((c.events ++ es).map (·.name)).Nodup →
      es.foldlM addEvent c = .ok { c with events := c.events ++ es } := by
  induction es with
  | nil =>
    intro c _
    rw [List.append_nil]
    rfl
  | cons e es ih =>
    intro c hnodup
    have hnew : (c.event? e.name).isSome = false := by
      rw [List.map_append] at hnodup
      have hnot := fun hmem => (List.nodup_append'.mp hnodup).2.2 hmem List.mem_cons_self
      simpa [event?] using hnot
    have hadd : c.addEvent e = .ok { c with events := c.events ++ [e] } := by
      rw [addEvent, hnew]
      rfl
    rw [List.foldlM_cons, hadd]
    have hrest := ih { c with events := c.events ++ [e] } (by simpa using hnodup)
    simp only [List.append_assoc, List.singleton_append] at hrest
    exact hrest

/-- The entries of a lawful catalog make up that catalog. -/
theorem ofEntries_lawful (hc : c.Lawful) :
    ofEntries c.allFunctions c.constants c.events = .ok c := by
  have hfunctions := foldlM_addFunction_table c.functions [] hc.opened hc.filed
  have hconstants := foldlM_addConstant c.constants { functions := c.functions } hc.constants
    hc.valued
  have hevents := foldlM_addEvent c.events { functions := c.functions, constants := c.constants }
    hc.events
  simp only [List.nil_append] at hfunctions hconstants hevents
  unfold ofEntries allFunctions empty
  rw [hfunctions]
  simp only [bind, Except.bind]
  rw [hconstants]
  exact hevents

theorem ofJson_toJson (hc : c.Lawful) : ofJson c.toJson = .ok c := by
  rw [ofJson, entriesOfJson_toJson]
  exact ofEntries_lawful hc

/-! ### The file of a catalog -/

/-- A catalog file has names, tags and marks at its leaves, and no numbers. -/
theorem plain_toJson (c : Catalog) : c.toJson.Plain := by
  have hparam : ∀ p : LibraryParam, p.toJson.Plain := by simp [LibraryParam.toJson]
  simp [toJson, LibraryFunction.toJson, LibraryConstant.toJson, LibraryEvent.toJson, hparam]

theorem height_params_le (ps : List LibraryParam) : (Json.list LibraryParam.toJson ps).height ≤ 2 :=
  Json.height_list_le fun p _ => by
    simp [LibraryParam.toJson, Json.height, Json.heightFields]

theorem height_toJson_le (c : Catalog) : c.toJson.height ≤ 5 := by
  have hfunctions : (Json.list LibraryFunction.toJson c.allFunctions).height ≤ 4 :=
    Json.height_list_le fun f _ => by
      have := height_params_le f.params
      simp only [LibraryFunction.toJson, Json.height, Json.heightFields]
      omega
  have hconstants : (Json.list LibraryConstant.toJson c.constants).height ≤ 2 :=
    Json.height_list_le fun k _ => by
      simp [LibraryConstant.toJson, Json.height, Json.heightFields]
  have hevents : (Json.list LibraryEvent.toJson c.events).height ≤ 4 :=
    Json.height_list_le fun e _ => by
      have := height_params_le e.params
      simp only [LibraryEvent.toJson, Json.height, Json.heightFields]
      omega
  simp only [toJson, Json.height, Json.heightFields]
  omega

theorem ofText_toText (hc : c.Lawful) : ofText c.toText = .ok c := by
  have hlimit : c.toJson.height ≤ Json.nestingLimit :=
    Nat.le_trans (height_toJson_le c) (by decide)
  rw [ofText, toText, Json.read_pretty (plain_toJson c) hlimit]
  exact ofJson_toJson hc

/-- **Every catalog is lawful and read back from its file.** However a catalog
was put together, entry by entry (those that are refused leave it as it was),
from files and from other catalogs: its functions are found under their own
names, no two overloads of a name have the same shape, only a last parameter is
variadic, no constant is of type `void`, and its file holds the same functions,
constants and events in the same order. -/
theorem readBack_of_constructed (h : c.Constructed) :
    c.Lawful
      ∧ (∀ name f, f ∈ c.overloads name ↔ f ∈ c.allFunctions ∧ f.name = name)
      ∧ (∀ name k, c.constant? name = some k ↔ k ∈ c.constants ∧ k.name = name)
      ∧ (∀ name e, c.event? name = some e ↔ e ∈ c.events ∧ e.name = name)
      ∧ (∀ name, (c.overloads name).Pairwise (·.shape ≠ ·.shape))
      ∧ (∀ f ∈ c.allFunctions, ∀ p ∈ f.params.dropLast, p.variadic = false)
      ∧ (∀ k ∈ c.constants, k.ty ≠ .void)
      ∧ ofText c.toText = .ok c
      ∧ (∀ f, (c.withFunction f).Constructed) ∧ (∀ k, (c.withConstant k).Constructed)
      ∧ ∀ e, (c.withEvent e).Constructed := by
  have hc := h.lawful
  exact ⟨hc, fun _ _ => hc.mem_overloads, fun _ => hc.constant?_eq_some, fun _ => hc.event?_eq_some,
    hc.overloads_apart, fun _ => hc.placed, hc.valued, ofText_toText hc,
    fun f => kept_constructed.withFunction f h, fun k => kept_constructed.withConstant k h,
    fun e => kept_constructed.withEvent e h⟩

/-- The standard catalog, merged with one that brings a second overload of a
name it has, is read back with both. -/
theorem readBack_merged :
    let extra : LibraryFunction := { name := "llSay", params := [⟨"rest", .void, true⟩] }
    let c := standard.merge (empty.withFunction extra)
    c.Constructed ∧ (c.overloads "llSay").length = 2 ∧ ofText c.toText = .ok c := by
  have hc := Constructed.merge .standard (kept_constructed.withFunction
    { name := "llSay", params := [⟨"rest", .void, true⟩] } .empty)
  obtain ⟨-, -, -, -, -, -, -, hread, -⟩ := readBack_of_constructed hc
  exact ⟨hc, by decide +kernel, hread⟩

end Catalog

end Lsl
