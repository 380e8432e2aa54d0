/- # Merging catalogs

A list of entries with keys takes in what another list has under new keys, behind
its own entries. This is what merging does to the constants and the events of a
catalog, to the names of its functions, and to the overloads of each name, so
merging is associative, the empty catalog changes nothing, and neither does a
second copy of the same catalog.

Key definitions: `Catalog.offer`, `Catalog.withNew`.
Key theorems: `Catalog.withNew_assoc`, `Catalog.foldl_offer`,
`Catalog.Lawful.overloads_merge`, `Catalog.merge_laws`.
-/
import Lsl.Proofs.Library.Lawful

namespace Lsl

namespace Catalog

/-! ### Lists of entries with keys -/

section Keyed

variable {α β : Type} [DecidableEq β] {key : α → β} {xs ys zs : List α}

/-- The list with one more entry, unless its key is taken. -/
def offer (key : α → β) (xs : List α) (x : α) : List α :=
  if key x ∈ xs.map key then xs else xs ++ [x]

/-- The list, and behind it what another one has under new keys. -/
def withNew (key : α → β) (xs ys : List α) : List α :=
  xs ++ ys.filter fun y => key y ∉ xs.map key

theorem withNew_nil_left : withNew key [] ys = ys := by simp [withNew]

theorem withNew_nil_right : withNew key xs [] = xs := by simp [withNew]

theorem withNew_self : withNew key xs xs = xs := by
  have hnone : xs.filter (fun x => key x ∉ xs.map key) = [] :=
    List.filter_eq_nil_iff.mpr fun x hx => by simpa using ⟨x, hx, rfl⟩
  rw [withNew, hnone, List.append_nil]

/-- The keys taken by both lists are those taken by one of them. -/
theorem key_mem_withNew {b : β} :
    b ∈ (withNew key xs ys).map key ↔ b ∈ xs.map key ∨ b ∈ ys.map key := by
  rw [withNew, List.map_append, List.mem_append]
  constructor
  · rintro (h | h)
    · exact .inl h
    · obtain ⟨y, hy, rfl⟩ := List.mem_map.mp h
      exact .inr (List.mem_map_of_mem (List.mem_of_mem_filter hy))
  · rintro (h | h)
    · exact .inl h
    · obtain ⟨y, hy, rfl⟩ := List.mem_map.mp h
      by_cases hthere : key y ∈ xs.map key
      · exact .inl hthere
      · exact .inr (List.mem_map_of_mem (List.mem_filter.mpr ⟨hy, by simpa using hthere⟩))

theorem withNew_assoc :
    withNew key (withNew key xs ys) zs = withNew key xs (withNew key ys zs) := by
  have hsame : zs.filter (fun z => key z ∉ (withNew key xs ys).map key)
      = (zs.filter fun z => key z ∉ ys.map key).filter fun z => key z ∉ xs.map key := by
    rw [List.filter_filter]
    refine List.filter_congr fun z _ => ?_
    simp only [key_mem_withNew, not_or, Bool.decide_and]
  calc withNew key (withNew key xs ys) zs
      = (xs ++ ys.filter fun y => key y ∉ xs.map key)
          ++ zs.filter fun z => key z ∉ (withNew key xs ys).map key := rfl
    _ = xs ++ (ys ++ zs.filter fun z => key z ∉ ys.map key).filter fun z => key z ∉ xs.map key := by
        rw [hsame, List.filter_append, List.append_assoc]
    _ = withNew key xs (withNew key ys zs) := rfl

theorem offer_eq (x : α) : offer key xs x = withNew key xs [x] := by
  unfold offer withNew
  rw [List.filter_singleton]
  by_cases h : key x ∈ xs.map key
  · rw [if_pos h, decide_eq_false (not_not_intro h), cond_false, List.append_nil]
  · rw [if_neg h, decide_eq_true h, cond_true]

/-- Entries with keys of their own join one after the other. -/
theorem foldl_offer (h : (ys.map key).Nodup) : ys.foldl (offer key) xs = withNew key xs ys := by
  induction ys generalizing xs with
  | nil => exact withNew_nil_right.symm
  | cons y rest ih =>
    rw [List.map_cons, List.nodup_cons] at h
    have hnew : withNew key [y] rest = y :: rest := by
      have hall : rest.filter (fun z => key z ∉ [y].map key) = rest :=
        List.filter_eq_self.mpr fun z hz => by
          simpa using fun heq : key z = key y => h.1 (heq ▸ List.mem_map_of_mem hz)
      rw [withNew, hall]
      rfl
    rw [List.foldl_cons, ih h.2, offer_eq, withNew_assoc, hnew]

/-- What is found under a key is what the first list has there, else what the
second has. -/
theorem find?_withNew (b : β) :
    (withNew key xs ys).find? (key · == b)
      = (xs.find? (key · == b)).or (ys.find? (key · == b)) := by
  rw [withNew, List.find?_append]
  cases hx : xs.find? (key · == b) with
  | some x => rfl
  | none =>
    have hfree : b ∉ xs.map key := by simpa using hx
    rw [Option.none_or, Option.none_or, List.find?_filter]
    refine congrArg (List.find? · ys) (funext fun y => ?_)
    by_cases heq : key y = b
    · subst heq
      simp [hfree]
    · simp [heq]

end Keyed

variable {a b c c' : Catalog} {f : LibraryFunction} {name : String}

/-! ### Functions -/

/-- A function joins its name unless one of its shape is there. -/
theorem withFunction_cases (h : ∀ p ∈ f.params.dropLast, p.variadic = false) (c : Catalog) :
    f.shape ∈ (c.overloads f.name).map (·.shape) ∧ c.withFunction f = c
      ∨ f.shape ∉ (c.overloads f.name).map (·.shape) ∧ c.withFunction f = c.pushFunction f := by
  rw [withFunction, addFunction, placed_iff.mpr h]
  by_cases hthere : f.shape ∈ (c.overloads f.name).map (·.shape)
  · refine .inl ⟨hthere, ?_⟩
    have hany : (c.overloads f.name).any (·.shape == f.shape) = true := by simpa using hthere
    rw [hany]
    rfl
  · refine .inr ⟨hthere, ?_⟩
    have hany : (c.overloads f.name).any (·.shape == f.shape) = false := by simpa using hthere
    rw [hany]
    rfl

theorem lookup_pushOverload (f : LibraryFunction) (table : OverloadTable) (name : String) :
    (pushOverload f table).lookup name
      = if f.name = name then some ((table.lookup name).getD [] ++ [f]) else table.lookup name := by
  induction table with
  | nil =>
    by_cases h : f.name = name
    · subst h
      simp [pushOverload]
    · have hne : (name == f.name) = false := beq_eq_false_iff_ne.mpr (Ne.symm h)
      simp [pushOverload, h, List.lookup_cons, hne]
  | cons p rest ih =>
    rcases p with ⟨n, fs⟩
    by_cases hn : n = f.name
    · subst hn
      by_cases h : f.name = name
      · subst h
        simp [pushOverload]
      · have hne : (name == f.name) = false := beq_eq_false_iff_ne.mpr (Ne.symm h)
        simp [pushOverload, h, List.lookup_cons, hne]
    · by_cases h : name = n
      · subst h
        simp [pushOverload, hn, Ne.symm hn]
      · simp [pushOverload, hn, List.lookup_cons, beq_eq_false_iff_ne.mpr h, ih]

theorem overloads_pushFunction (c : Catalog) (f : LibraryFunction) (name : String) :
    (c.pushFunction f).overloads name
      = if f.name = name then c.overloads name ++ [f] else c.overloads name := by
  rw [overloads, pushFunction, lookup_pushOverload]
  split <;> rfl

theorem overloads_withFunction (h : ∀ p ∈ f.params.dropLast, p.variadic = false) (c : Catalog)
    (name : String) :
    (c.withFunction f).overloads name
      = if f.name = name then offer (·.shape) (c.overloads name) f else c.overloads name := by
  rcases withFunction_cases h c with ⟨hthere, heq⟩ | ⟨hnew, heq⟩
  · rw [heq]
    split
    · rename_i hname
      subst hname
      rw [offer, if_pos hthere]
    · rfl
  · rw [heq, overloads_pushFunction]
    split
    · rename_i hname
      subst hname
      rw [offer, if_neg hnew]
    · rfl

theorem names_withFunction (h : ∀ p ∈ f.params.dropLast, p.variadic = false) (c : Catalog) :
    names (c.withFunction f).functions = offer id (names c.functions) f.name := by
  rcases withFunction_cases h c with ⟨hthere, heq⟩ | ⟨-, heq⟩
  · have hopen : f.name ∈ names c.functions := by
      by_contra hnot
      simp [overloads, lookup_of_not_mem hnot] at hthere
    rw [heq, offer, if_pos (by simpa using hopen)]
  · rw [heq, pushFunction]
    rcases pushOverload_cases f c.functions with
      ⟨hnew, -, hpush⟩ | ⟨before, fs, after, hsplit, -, hpush⟩
    · rw [hpush, offer, if_neg (by simpa using hnew), names, List.map_append]
      rfl
    · have hopen : f.name ∈ names c.functions := by
        rw [hsplit]
        simp [names]
      rw [hpush, offer, if_pos (by simpa using hopen), hsplit]
      simp [names]

section Fold

variable {fs : List LibraryFunction}

/-- The overloads of a name, when functions of all names come in. -/
theorem overloads_foldl (h : ∀ f ∈ fs, ∀ p ∈ f.params.dropLast, p.variadic = false)
    (c : Catalog) (name : String) :
    (fs.foldl withFunction c).overloads name
      = (fs.filter (·.name == name)).foldl (offer (·.shape)) (c.overloads name) := by
  induction fs generalizing c with
  | nil => rfl
  | cons f rest ih =>
    rw [List.foldl_cons, ih (fun g hg => h g (List.mem_cons_of_mem _ hg)),
      overloads_withFunction (h f List.mem_cons_self), List.filter_cons]
    by_cases hname : f.name = name <;> simp [hname]

theorem names_foldl (h : ∀ f ∈ fs, ∀ p ∈ f.params.dropLast, p.variadic = false) (c : Catalog) :
    names (fs.foldl withFunction c).functions
      = (fs.map (·.name)).foldl (offer id) (names c.functions) := by
  induction fs generalizing c with
  | nil => rfl
  | cons f rest ih =>
    rw [List.foldl_cons, ih (fun g hg => h g (List.mem_cons_of_mem _ hg)),
      names_withFunction (h f List.mem_cons_self), List.map_cons, List.foldl_cons]

theorem foldl_offer_known {opened : List String} (h : ∀ f ∈ fs, f.name ∈ opened) :
    (fs.map (·.name)).foldl (offer id) opened = opened := by
  induction fs with
  | nil => rfl
  | cons f rest ih =>
    have hknown : offer id opened f.name = opened :=
      if_pos (by simpa using h f List.mem_cons_self)
    rw [List.map_cons, List.foldl_cons, hknown]
    exact ih fun g hg => h g (List.mem_cons_of_mem _ hg)

/-- The functions of one name open it once. -/
theorem foldl_offer_named {opened : List String} (hfiled : Filed name fs) :
    (fs.map (·.name)).foldl (offer id) opened = offer id opened name := by
  rcases fs with _ | ⟨f, rest⟩
  · exact absurd rfl hfiled.inhabited
  · have hname : f.name = name := hfiled.named f List.mem_cons_self
    have hopen : name ∈ offer id opened name := by
      unfold offer
      split
      · rename_i hin
        simpa using hin
      · exact List.mem_append_right _ List.mem_cons_self
    rw [List.map_cons, List.foldl_cons, hname]
    refine foldl_offer_known fun g hg => ?_
    rw [hfiled.named g (List.mem_cons_of_mem _ hg)]
    exact hopen

/-- The functions of a table open its names, one after the other. -/
theorem foldl_offer_table {opened : List String} {table : OverloadTable}
    (h : ∀ name fs, (name, fs) ∈ table → Filed name fs) :
    ((table.flatMap (·.2)).map (·.name)).foldl (offer id) opened
      = (names table).foldl (offer id) opened := by
  induction table generalizing opened with
  | nil => rfl
  | cons p rest ih =>
    rw [List.flatMap_cons, List.map_append, List.foldl_append,
      foldl_offer_named (h p.1 p.2 List.mem_cons_self),
      ih fun name fs hmem => h name fs (List.mem_cons_of_mem _ hmem)]
    rfl

/-- The functions of one name are those filed under it. -/
theorem filter_table {table : OverloadTable} (hnodup : (names table).Nodup)
    (h : ∀ name fs, (name, fs) ∈ table → Filed name fs) (name : String) :
    (table.flatMap (·.2)).filter (·.name == name) = (table.lookup name).getD [] := by
  induction table with
  | nil => rfl
  | cons p rest ih =>
    rcases p with ⟨n, fs⟩
    rw [names, List.map_cons, List.nodup_cons] at hnodup
    have hfiled := h n fs List.mem_cons_self
    have hrest := ih hnodup.2 fun name fs hmem => h name fs (List.mem_cons_of_mem _ hmem)
    rw [List.flatMap_cons, List.filter_append, hrest]
    by_cases hn : name = n
    · subst hn
      have hall : fs.filter (·.name == name) = fs :=
        List.filter_eq_self.mpr fun f hf => by simpa using hfiled.named f hf
      rw [hall, lookup_of_not_mem hnodup.1, List.lookup_cons_self, Option.getD_none,
        List.append_nil, Option.getD_some]
    · have hnone : fs.filter (·.name == name) = [] :=
        List.filter_eq_nil_iff.mpr fun f hf => by
          simpa [hfiled.named f hf] using Ne.symm hn
      have hne : (name == n) = false := beq_eq_false_iff_ne.mpr hn
      rw [hnone, List.nil_append, List.lookup_cons, hne]

end Fold

/-! ### What a merged catalog holds -/

theorem foldl_withFunction_eq (fs : List LibraryFunction) (c : Catalog) :
    fs.foldl withFunction c = { c with functions := (fs.foldl withFunction c).functions } := by
  obtain ⟨hconstants, hevents⟩ : (fs.foldl withFunction c).constants = c.constants
      ∧ (fs.foldl withFunction c).events = c.events := by
    refine foldl_keeps (P := fun d => d.constants = c.constants ∧ d.events = c.events) fs
      (fun d f _ hd => ?_) ⟨rfl, rfl⟩
    exact orKeep_keeps (P := fun d => d.constants = c.constants ∧ d.events = c.events) hd
      fun d' h => (addFunction_cases h).2.2 ▸ hd
  rw [← hconstants, ← hevents]

theorem foldl_offerConstant_eq (ks : List LibraryConstant) (c : Catalog) :
    ks.foldl offerConstant c
      = { c with constants := ks.foldl (offer (·.name)) c.constants } := by
  induction ks generalizing c with
  | nil => rfl
  | cons k rest ih =>
    have hstep : c.offerConstant k = { c with constants := offer (·.name) c.constants k } := by
      have hthere : c.hasConstant k.name = true ↔ k.name ∈ c.constants.map (·.name) := by
        simp [hasConstant, constant?]
      by_cases hk : k.name ∈ c.constants.map (·.name)
      · rw [offerConstant, if_pos (hthere.mpr hk), offer, if_pos hk]
      · rw [offerConstant, if_neg (mt hthere.mp hk), offer, if_neg hk]
    rw [List.foldl_cons, hstep, ih, List.foldl_cons]

theorem foldl_withEvent_eq (es : List LibraryEvent) (c : Catalog) :
    es.foldl withEvent c = { c with events := es.foldl (offer (·.name)) c.events } := by
  induction es generalizing c with
  | nil => rfl
  | cons e rest ih =>
    have hstep : c.withEvent e = { c with events := offer (·.name) c.events e } := by
      have hthere : (c.event? e.name).isSome = true ↔ e.name ∈ c.events.map (·.name) := by
        simp [event?]
      by_cases he : e.name ∈ c.events.map (·.name)
      · rw [withEvent, addEvent, if_pos (hthere.mpr he), offer, if_pos he]
        rfl
      · rw [withEvent, addEvent, if_neg (mt hthere.mp he), offer, if_neg he]
        rfl
    rw [List.foldl_cons, hstep, ih, List.foldl_cons]

theorem merge_eq (a b : Catalog) :
    a.merge b = {
      functions := (b.allFunctions.foldl withFunction a).functions
      constants := b.constants.foldl (offer (·.name)) a.constants
      events := b.events.foldl (offer (·.name)) a.events } := by
  rw [merge, foldl_withFunction_eq, foldl_offerConstant_eq, foldl_withEvent_eq]

theorem overloads_congr (h : c.functions = c'.functions) (name : String) :
    c.overloads name = c'.overloads name := by rw [overloads, h, overloads]

/-- The overloads of a name stay, and those of new shapes come behind them. -/
theorem Lawful.overloads_merge (hb : b.Lawful) (a : Catalog) (name : String) :
    (a.merge b).overloads name = withNew (·.shape) (a.overloads name) (b.overloads name) := by
  have hown : b.allFunctions.filter (·.name == name) = b.overloads name :=
    filter_table hb.opened hb.filed name
  have hapart : ((b.overloads name).map (·.shape)).Nodup :=
    List.pairwise_map.mpr (hb.overloads_apart name)
  calc (a.merge b).overloads name
      = (b.allFunctions.foldl withFunction a).overloads name :=
        overloads_congr (by rw [merge_eq]) name
    _ = (b.overloads name).foldl (offer (·.shape)) (a.overloads name) := by
        rw [overloads_foldl fun f hf => hb.placed hf, hown]
    _ = withNew (·.shape) (a.overloads name) (b.overloads name) := foldl_offer hapart

theorem Lawful.names_merge (hb : b.Lawful) (a : Catalog) :
    names (a.merge b).functions = withNew id (names a.functions) (names b.functions) := by
  rw [merge_eq, names_foldl fun f hf => hb.placed hf, allFunctions, foldl_offer_table hb.filed,
    foldl_offer (by simpa using hb.opened)]

theorem Lawful.constants_merge (hb : b.Lawful) (a : Catalog) :
    (a.merge b).constants = withNew (·.name) a.constants b.constants := by
  rw [merge_eq, foldl_offer hb.constants]

theorem Lawful.events_merge (hb : b.Lawful) (a : Catalog) :
    (a.merge b).events = withNew (·.name) a.events b.events := by
  rw [merge_eq, foldl_offer hb.events]

/-! ### Laws of merging -/

theorem Lawful.functions_eq (hc : c.Lawful) :
    c.functions = (names c.functions).map fun name => (name, c.overloads name) := by
  have hsame : ∀ p ∈ c.functions, (p.1, c.overloads p.1) = p := fun p hp => by
    rw [hc.overloads_of_mem hp]
  rw [names, List.map_map]
  exact ((List.map_congr_left hsame).trans (List.map_id _)).symm

/-- A lawful catalog is known by its names, the overloads of each, its constants
and its events. -/
theorem Lawful.ext (hc : c.Lawful) (hc' : c'.Lawful)
    (hnames : names c.functions = names c'.functions)
    (hoverloads : ∀ name, c.overloads name = c'.overloads name)
    (hconstants : c.constants = c'.constants) (hevents : c.events = c'.events) : c = c' := by
  have hfunctions : c.functions = c'.functions := by
    rw [hc.functions_eq, hc'.functions_eq, hnames]
    exact List.map_congr_left fun name _ => by rw [hoverloads]
  cases c
  cases c'
  simp_all

theorem Lawful.merge (ha : a.Lawful) (hb : b.Lawful) : (a.merge b).Lawful :=
  kept_lawful.merge ha hb.valued

theorem Lawful.merge_assoc (ha : a.Lawful) (hb : b.Lawful) (hc : c.Lawful) :
    (a.merge b).merge c = a.merge (b.merge c) := by
  have hbc := hb.merge hc
  refine ((ha.merge hb).merge hc).ext (ha.merge hbc) ?_ (fun name => ?_) ?_ ?_
  · rw [hc.names_merge, hb.names_merge, hbc.names_merge, hc.names_merge, withNew_assoc]
  · rw [hc.overloads_merge, hb.overloads_merge, hbc.overloads_merge, hc.overloads_merge,
      withNew_assoc]
  · rw [hc.constants_merge, hb.constants_merge, hbc.constants_merge, hc.constants_merge,
      withNew_assoc]
  · rw [hc.events_merge, hb.events_merge, hbc.events_merge, hc.events_merge, withNew_assoc]

theorem Lawful.empty_merge (ha : a.Lawful) : empty.merge a = a := by
  refine (lawful_empty.merge ha).ext ha ?_ (fun name => ?_) ?_ ?_
  · exact (ha.names_merge empty).trans withNew_nil_left
  · exact (ha.overloads_merge empty name).trans withNew_nil_left
  · exact (ha.constants_merge empty).trans withNew_nil_left
  · exact (ha.events_merge empty).trans withNew_nil_left

theorem merge_empty (a : Catalog) : a.merge empty = a := rfl

theorem Lawful.merge_self (ha : a.Lawful) : a.merge a = a := by
  refine (ha.merge ha).ext ha ?_ (fun name => ?_) ?_ ?_
  · rw [ha.names_merge, withNew_self]
  · rw [ha.overloads_merge, withNew_self]
  · rw [ha.constants_merge, withNew_self]
  · rw [ha.events_merge, withNew_self]

/-- **Merging is a left-biased union that keeps the order.** On lawful catalogs it
is associative, the empty catalog is its identity on both sides, and a catalog
merged into itself stays as it is. A constant or an event is the one that the
first catalog has, else the one of the second; the overloads of a name are those
of the first catalog, and behind them, in order, those of the second whose shape
no overload of the first has. -/
theorem merge_laws (ha : a.Lawful) (hb : b.Lawful) (hc : c.Lawful) :
    (a.merge b).Lawful
      ∧ (a.merge b).merge c = a.merge (b.merge c)
      ∧ empty.merge a = a ∧ a.merge empty = a ∧ a.merge a = a
      ∧ (∀ name, (a.merge b).constant? name = (a.constant? name).or (b.constant? name))
      ∧ (∀ name, (a.merge b).event? name = (a.event? name).or (b.event? name))
      ∧ ∀ name, (a.merge b).overloads name = a.overloads name
          ++ (b.overloads name).filter fun f => (a.overloads name).all (·.shape != f.shape) := by
  refine ⟨ha.merge hb, ha.merge_assoc hb hc, ha.empty_merge, merge_empty a, ha.merge_self,
    fun name => ?_, fun name => ?_, fun name => ?_⟩
  · rw [constant?, hb.constants_merge]
    exact find?_withNew name
  · rw [event?, hb.events_merge]
    exact find?_withNew name
  · rw [hb.overloads_merge, withNew]
    refine congrArg (_ ++ ·) (List.filter_congr fun f _ => ?_)
    rw [Bool.eq_iff_iff]
    simp only [decide_eq_true_eq, List.all_eq_true, bne_iff_ne, List.mem_map, not_exists, not_and,
      ne_eq]

/-- Two catalogs that share a constant and one of two overloads, merged with each
other and with the standard catalog. -/
theorem merge_overlapping :
    let number : LibraryFunction := { name := "osTell", params := [⟨"n", .integer, false⟩] }
    let text : LibraryFunction := { name := "osTell", params := [⟨"s", .string, false⟩] }
    let a := (empty.withFunction number).withConstant { name := "K", ty := .integer, value := "1" }
    let b := ((empty.withFunction { number with returnType := .key }).withFunction text).withConstant
      { name := "K", ty := .float, value := "2.0" }
    (a.merge b).merge standard = a.merge (b.merge standard)
      ∧ (a.merge b).overloads "osTell" = [number, text]
      ∧ (a.merge b).constant? "K" = some { name := "K", ty := .integer, value := "1" } := by
  intro number text a b
  have ha : a.Lawful := kept_lawful.withConstant _ (kept_lawful.withFunction _ lawful_empty)
  have hb : b.Lawful := kept_lawful.withConstant _
    (kept_lawful.withFunction _ (kept_lawful.withFunction _ lawful_empty))
  obtain ⟨-, hassoc, -, -, -, hconstant, -, hoverloads⟩ := merge_laws ha hb lawful_standard
  exact ⟨hassoc, (hoverloads "osTell").trans (by decide), (hconstant "K").trans (by decide)⟩

end Catalog

end Lsl
