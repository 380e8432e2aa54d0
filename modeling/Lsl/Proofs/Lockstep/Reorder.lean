/- # Scripts that declare in another order

Of two scripts that declare the same functions and states in different orders,
the declarations have other numbers and are known by the same names. So the
globals are resolved alike, and the bodies of both begin abreast.

Key definitions: `Run.Reordered`.
Key theorems: `Run.Declares.abreast`, `openScript_reordered`.
-/
import Lsl.Proofs.Lockstep.Opening

namespace Lsl

variable {library : Catalog} {warnUnused : Bool} {script script' : Script} {env env' : Env}
  {n n' : ScriptNode} {run run' : Run} {g : Nat → Nat} {start : Nat} {xs ys : List Decl}

/-! ### Declarations and their names -/

namespace Decl

theorem map_fst_placed (start : Nat) (xs : List Decl) : (placed start xs).map (·.1) = xs := by
  induction xs generalizing start with
  | nil => rfl
  | cons x rest ih => rw [placed, List.map_cons, ih]

theorem Renumbers.node (h : Renumbers g start xs ys) {x : Decl × Nat} (hx : x ∈ placed start xs) :
    g (x.1.node x.2) = x.1.node (g x.2) :=
  h.along x hx _ (Nat.sub_lt x.1.width_pos Nat.one_pos)

/-- The declarations of one sort in both orders. -/
theorem Renumbers.filter (h : Renumbers g start xs ys) (p : Decl → Bool) :
    ((placed start ys).filter (p ·.1)).Perm
      (((placed start xs).filter (p ·.1)).map fun x => (x.1, g x.2)) := by
  have hperm := h.perm.filter (p ·.1)
  rwa [List.filter_map] at hperm

theorem Renumbers.nodes (h : Renumbers g start xs ys) (p : Decl → Bool) :
    (nodes ((placed start ys).filter (p ·.1))).Perm
      ((nodes ((placed start xs).filter (p ·.1))).map g) := by
  refine ((h.filter p).map _).trans (.of_eq ?_)
  rw [Decl.nodes, List.map_map, List.map_map]
  exact List.map_congr_left fun x hx => (h.node (List.mem_filter.mp hx).1).symm

theorem Renumbers.named (h : Renumbers g start xs ys) (p : Decl → Bool) :
    (named ((placed start ys).filter (p ·.1))).Perm
      ((named ((placed start xs).filter (p ·.1))).map fun x => (x.1, g x.2)) := by
  refine ((h.filter p).map _).trans (.of_eq ?_)
  rw [Decl.named, List.map_map, List.map_map]
  exact List.map_congr_left fun x hx =>
    Prod.ext rfl (h.node (List.mem_filter.mp hx).1).symm

end Decl

/-- The order of names does not matter if they are distinct. -/
theorem Names.lookup_perm {known known' : Names} (h : known.Perm known')
    (hdistinct : (known.map (·.1)).Nodup) (name : String) : known.lookup name = known'.lookup name := by
  induction h with
  | nil => rfl
  | cons x _ ih =>
    rw [List.lookup_cons, List.lookup_cons, ih (List.nodup_cons.mp hdistinct).2]
  | swap x y rest =>
    have hne : y.1 ≠ x.1 := fun he =>
      (List.nodup_cons.mp hdistinct).1 (List.mem_map.mpr ⟨x, List.mem_cons_self, he.symm⟩)
    rw [List.lookup_cons, List.lookup_cons, List.lookup_cons, List.lookup_cons]
    by_cases hx : name = x.1
    · rw [show (name == y.1) = false from beq_false_of_ne fun he => hne (he.symm.trans hx)]
    · rw [show (name == x.1) = false from beq_false_of_ne hx]
  | trans h₁ _ ih₁ ih₂ =>
    exact (ih₁ hdistinct).trans (ih₂ ((h₁.map (·.1)).nodup_iff.mp hdistinct))

/-- Distinct names stand for the same declarations in both orders. -/
theorem Decl.Renumbers.lookup (h : Renumbers g start xs ys) (p : Decl → Bool)
    (hdistinct : ((Decl.named ((placed start xs).filter (p ·.1))).map (·.1)).Nodup)
    (name : String) :
    (Decl.named ((placed start ys).filter (p ·.1))).lookup name
      = ((Decl.named ((placed start xs).filter (p ·.1))).lookup name).map g := by
  have hkeys : ((Decl.named ((placed start ys).filter (p ·.1))).map (·.1)).Nodup := by
    have hperm := (h.named p).map (·.1)
    rw [List.map_map] at hperm
    exact hperm.nodup_iff.mpr hdistinct
  rw [Names.lookup_perm (h.named p) hkeys, lookup_rename]

theorem Script.named_functions (script : Script) :
    (Decl.named (script.placedDecls.filter (·.1.isFunction))).map (·.1)
      = script.functions.map (·.name) := by
  rw [placedDecls_functions, Decl.named, List.map_map]
  change (Decl.placed _ _).map (Decl.name ∘ Prod.fst) = _
  rw [← List.map_map, Decl.map_fst_placed, List.map_map]
  rfl

theorem Script.named_states (script : Script) :
    (Decl.named (script.placedDecls.filter (·.1.isNamedState))).map (·.1)
      = script.states.map (·.name) := by
  rw [placedDecls_named, Decl.named, List.map_map]
  change (Decl.placed _ _).map (Decl.name ∘ Prod.fst) = _
  rw [← List.map_map, Decl.map_fst_placed, List.map_map]
  rfl

/-! ### Declarations abreast -/

/-- What a declaration makes refers to nothing but itself. -/
theorem Decl.alone_inner (x : Decl) {i : Nat} {k : NodeKind}
    (hk : (x.alone library).tree.kind? i = some k) :
    ∀ j : Nat, j ∈ k.mentions → j < x.width := by
  obtain ⟨b, htwin⟩ : ∃ b, Run.Twin (({} : Run).abreast_empty.pairing fun _ => False) false
      (x.alone library) b := by
    match x with
    | function d =>
      exact ⟨_, (declareFunction_sim (Run.twin_empty {}) library [] [] d
        (fun _ => rfl) (by simp)).twin⟩
    | state d true => exact ⟨_, (declareState_sim (Run.twin_empty {}) d true).twin⟩
    | state d false =>
      exact ⟨_, (declareNamedState_sim (Run.twin_empty {}) [] [] d
        (fun _ => rfl) (by simp)).twin⟩
  intro j hj
  have hat := htwin.tree.inner i k (Nat.zero_le i) hk j hj
  rw [← x.size_alone library]
  exact hat.2

theorem Decl.Renumbers.refl (start : Nat) (xs : List Decl) : Renumbers id start xs xs :=
  ⟨Function.injective_id, fun _ _ => rfl, fun _ _ => rfl, fun _ _ _ _ => rfl, by simp⟩

/-- The block of numbers that a node belongs to. -/
theorem Run.Declares.block (h : ({} : Run).Declares library xs ns run) {i : Nat}
    (hi : run.tree.Has i) : ∃ x ∈ Decl.placed 0 xs, ∃ j < x.1.width, i = x.2 + j := by
  refine Decl.placed_cover (Nat.zero_le i) ?_
  have hsize := h.size
  rw [Tree.Has, hsize] at hi
  exact hi

/-- Nodes of one block in both orders. -/
theorem Run.Declares.kinds {ns ns' : List Notice} (h : ({} : Run).Declares library xs ns run)
    (h' : ({} : Run).Declares library ys ns' run') (hg : Decl.Renumbers g 0 xs ys) {i : Nat}
    (hi : run.tree.Has i) :
    ∃ (k : NodeKind) (s s' : Nat), run.tree.kind? i = some (k.rename (s + ·))
      ∧ run'.tree.kind? (g i) = some (k.rename (s' + ·))
      ∧ (∀ j : Nat, j ∈ k.mentions → g (s + j) = s' + j ∧ run.tree.Has (s + j))
      ∧ run'.tree.span (g i) = run.tree.span i := by
  obtain ⟨x, hx, j, hj, rfl⟩ := h.block hi
  have hx' : (x.1, g x.2) ∈ Decl.placed 0 ys :=
    hg.perm.mem_iff.mpr (List.mem_map_of_mem (f := fun x : Decl × Nat => (x.1, g x.2)) hx)
  have hhas : (x.1.alone library).tree.Has j := by rwa [Tree.Has, Decl.size_alone]
  obtain ⟨k, hk⟩ := Tree.exists_kind? hhas
  have hcopy := h.blocks x hx
  have hcopy' := h'.blocks (x.1, g x.2) hx'
  rw [hg.along x hx j hj]
  refine ⟨k, x.2, g x.2, ?_, ?_, fun l hl => ?_, ?_⟩
  · rw [hcopy.kind j hhas, hk, Option.map_some]
  · rw [hcopy'.kind j hhas, hk, Option.map_some]
  · have hlt := x.1.alone_inner hk l hl
    refine ⟨hg.along x hx l hlt, ?_⟩
    have hbound := (Decl.placed_bounds 0 xs x hx).2
    have hsize : run.tree.size = 0 + Decl.total xs := h.size
    rw [Tree.Has, hsize]
    omega
  · rw [hcopy'.span j hhas, hcopy.span j hhas]

/-- The parameters of a function are among what it mentions. -/
theorem NodeKind.params_mentioned {k : NodeKind} {f : FunctionNode} (h : k.function? = some f) :
    ∀ p ∈ f.params, p ∈ k.mentions := by
  cases k <;> cases h
  exact fun p hp => List.mem_append_left _ hp

theorem NodeKind.heading_rename_congr {k : NodeKind} {f f' : NodeId → NodeId}
    (h : ∀ j ∈ k.mentions, f j = f' j) : k.heading.rename f = k.heading.rename f' := by
  refine Heading.rename_congr fun x hx p hp => ?_
  obtain ⟨fn, hfn, rfl⟩ := Option.map_eq_some_iff.mp hx
  exact h p (NodeKind.params_mentioned hfn p hp)

theorem Run.Declares.size_perm {ns ns' : List Notice} (h : ({} : Run).Declares library xs ns run)
    (h' : ({} : Run).Declares library ys ns' run') (hperm : xs.Perm ys) :
    run'.tree.size = run.tree.size := by
  rw [h'.size, h.size, Decl.total, Decl.total, (hperm.map Decl.width).sum_nat]

/-- **The declarations of both scripts are the same but for the numbers.** -/
theorem Run.Declares.abreast {ns ns' : List Notice} (h : ({} : Run).Declares library xs ns run)
    (h' : ({} : Run).Declares library ys ns' run') (hg : Decl.Renumbers g 0 xs ys)
    (hperm : xs.Perm ys) : Run.Abreast g run run' := by
  have hsize : run.tree.size = 0 + Decl.total xs := h.size
  constructor
  case inj => exact hg.inj
  case stays =>
    intro i hi
    rw [Tree.Has, hsize] at hi ⊢
    exact hg.lt hi
  case size => exact Nat.le_of_eq (h.size_perm h' hperm).symm
  case heading =>
    intro i hi
    obtain ⟨k, s, s', hk, hk', hmoved, -⟩ := h.kinds h' hg hi
    rw [hk, hk', Option.map_some, Option.map_some, NodeKind.heading_rename, NodeKind.heading_rename,
      Heading.rename_rename]
    exact congrArg some (NodeKind.heading_rename_congr fun j hj => (hmoved j hj).1.symm)
  case span =>
    intro i hi
    obtain ⟨k, s, s', -, -, -, hspan⟩ := h.kinds h' hg hi
    exact hspan

theorem Run.Declares.uses {ns ns' : List Notice} (h : ({} : Run).Declares library xs ns run)
    (h' : ({} : Run).Declares library ys ns' run') (hg : Decl.Renumbers g 0 xs ys) {i : Nat}
    (hi : run.tree.Has i) : run'.tree.uses (g i) = [] ↔ run.tree.uses i = [] := by
  obtain ⟨k, s, s', hk, hk', -⟩ := h.kinds h' hg hi
  rw [Tree.uses_of_kind? hk, Tree.uses_of_kind? hk', NodeKind.uses_rename, NodeKind.uses_rename,
    List.map_eq_nil_iff, List.map_eq_nil_iff]

theorem Run.Declares.paramsExist (h : ({} : Run).Declares library xs ns run) :
    run.tree.ParamsExist := by
  intro i f hf p hp
  have hkind := Tree.function?_eq_some.mp hf
  have hi := Tree.has_of_kind? hkind
  obtain ⟨k, s, s', hk, -, hmoved, -⟩ := h.kinds h (.refl 0 xs) hi
  have hsame : k.rename (s + ·) = .function f := Option.some.inj (hk.symm.trans hkind)
  have hmem : p ∈ (k.rename (s + ·)).children := hsame ▸ List.mem_append_left _ hp
  rw [NodeKind.children_rename] at hmem
  obtain ⟨q, hq, rfl⟩ := List.mem_map.mp hmem
  exact (hmoved q (k.children_subset_mentions hq)).2

/-! ### Both scripts up to their bodies -/

/-- The scripts are the same but for the order of the functions and of the states,
which have distinct names. -/
structure Script.Reorders (script script' : Script) : Prop where
  functions : script.functions.Perm script'.functions
  states : script.states.Perm script'.states
  defaultState : script'.defaultState = script.defaultState
  globals : script'.globals = script.globals
  span : script'.span = script.span
  functionNames : (script.functions.map (·.name)).Nodup
  stateNames : (script.states.map (·.name)).Nodup

namespace Script.Reorders

theorem functionNames' (h : script.Reorders script') : (script'.functions.map (·.name)).Nodup :=
  (h.functions.map _).nodup_iff.mp h.functionNames

theorem stateNames' (h : script.Reorders script') : (script'.states.map (·.name)).Nodup :=
  (h.states.map _).nodup_iff.mp h.stateNames

theorem decls (h : script.Reorders script') : script.decls.Perm script'.decls := by
  rw [Script.decls, Script.decls, h.defaultState]
  exact (h.functions.map _).append ((h.states.map _).append_left _)

theorem declNotices (h : script.Reorders script') :
    (script'.declNotices library).Perm (script.declNotices library) := by
  rw [Script.declNotices, Script.declNotices, h.defaultState, h.span]
  exact (h.decls.symm.flatMap_right _).append_right _

end Script.Reorders

theorem Option.toList_perm {α : Type} {a b : Option α} (h : a.toList.Perm b.toList) : a = b := by
  cases a <;> cases b <;> simp_all

theorem Run.DeclaresScript.has {p : Decl → Bool} {id : NodeId}
    (h : run.DeclaresScript library warnUnused script env n)
    (hid : id ∈ Decl.nodes (script.placedDecls.filter (p ·.1))) : run.tree.Has id := by
  obtain ⟨ns, -, hdecl⟩ := h.declares
  obtain ⟨x, hx, rfl⟩ := List.mem_map.mp hid
  have hbound := (Decl.placed_bounds 0 script.decls x (List.mem_filter.mp hx).1).2
  have hsize : run.tree.size = 0 + Decl.total script.decls := hdecl.size
  have hpos := x.1.width_pos
  rw [Tree.Has, hsize, Decl.node]
  omega

theorem Decl.mem_nodes_of_lookup {xs : List (Decl × Nat)} {name : String} {id : NodeId}
    (h : (Decl.named xs).lookup name = some id) : id ∈ Decl.nodes xs := by
  obtain ⟨x, hx, he⟩ := List.mem_map.mp (mem_of_lookup h)
  exact List.mem_map.mpr ⟨x, hx, congrArg Prod.snd he⟩

/-- The names stand for the same declarations in both orders. -/
theorem Run.DeclaresScript.beside (hs : script.Reorders script')
    (h : run.DeclaresScript library warnUnused script env n)
    (h' : run'.DeclaresScript library warnUnused script' env' n')
    (hg : Decl.Renumbers g 0 script.decls script'.decls) :
    Env.Beside g (fun _ => True) run env env' := by
  have hdefault : Decl.nodes (script'.placedDecls.filter (·.1.isDefaultState))
      = (Decl.nodes (script.placedDecls.filter (·.1.isDefaultState))).map g := by
    have hperm := hg.nodes Decl.isDefaultState
    rw [← Script.placedDecls, ← Script.placedDecls, ← h.numbers.defaultState,
      ← h'.numbers.defaultState, ← Option.toList_map] at hperm
    rw [← h.numbers.defaultState, ← h'.numbers.defaultState, ← Option.toList_map,
      Option.toList_perm hperm]
  rw [h.env_eq, h'.env_eq]
  constructor
  case library => rfl
  case warnUnused => rfl
  case functions =>
    intro name
    change env'.functions.lookup name = (env.functions.lookup name).map g
    rw [h.functionNames, h'.functionNames]
    split
    · rfl
    · exact hg.lookup Decl.isFunction
        (by rw [← Script.placedDecls, Script.named_functions]; exact hs.functionNames) name
  case function =>
    intro name id hid
    change env.functions.lookup name = some id at hid
    rw [h.functionNames] at hid
    split at hid
    · cases hid
    · exact ⟨h.has (Decl.mem_nodes_of_lookup hid), trivial⟩
  case states =>
    intro name
    change env'.states.lookup name = (env.states.lookup name).map g
    have hfirst : (((Decl.nodes (script.placedDecls.filter (·.1.isDefaultState))).map g).map
        fun id => (defaultStateName, id)).lookup name
          = (((Decl.nodes (script.placedDecls.filter (·.1.isDefaultState))).map fun id =>
            (defaultStateName, id)).lookup name).map g := by
      rw [← lookup_rename, List.map_map, List.map_map]
      rfl
    rw [h.stateNames, h'.stateNames, hdefault, hfirst, Option.map_or]
    congr 1
    split
    · rfl
    · exact hg.lookup Decl.isNamedState
        (by rw [← Script.placedDecls, Script.named_states]; exact hs.stateNames) name
  case state =>
    intro name id hid
    change env.states.lookup name = some id at hid
    rw [h.stateNames, Option.or_eq_some_iff] at hid
    rcases hid with hid | ⟨-, hid⟩
    · obtain ⟨i, hi, he⟩ := List.mem_map.mp (mem_of_lookup hid)
      obtain ⟨-, rfl⟩ := Prod.mk.inj he
      exact h.has hi
    · split at hid
      · cases hid
      · exact h.has (Decl.mem_nodes_of_lookup hid)
  case globals => exact fun _ => rfl
  case global => exact fun name id hid => by cases hid
  case outside => rfl
  case outside' => rfl

/-- Two scripts that are opened and have the same declarations with other numbers. -/
structure Run.Reordered (g : Nat → Nat) (script script' : Script) (env env' : Env)
    (n n' : ScriptNode) (base base' : Run) : Prop where
  renumbers : Decl.Renumbers g 0 script.decls script'.decls
  numbers : n.Numbers script
  numbers' : n'.Numbers script'
  abreast : Run.Abreast g base base'
  beside : Env.Beside g base.tree.Shared base env env'
  params : base.tree.ParamsExist
  uses : ∀ i, base.tree.Has i → (base'.tree.uses (g i) = [] ↔ base.tree.uses i = [])
  notices : base'.notices.Perm base.notices
  globals : n'.globals = n.globals.map g
  global : ∀ id ∈ n.globals, base.tree.Has id

section Globals

variable {base base' : Run} {h : Run.Abreast g run run'} {inside : Bool}

theorem Run.Abreast.map_eq (h : Run.Abreast g run run') {N : Nat → Prop}
    (hsize : run'.tree.size = run.tree.size) (hbehind : ∀ i, run.tree.size ≤ i → g i = i) :
    (h.pairing N).map = g := by
  funext i
  change Run.moved g run run' i = g i
  rcases Nat.lt_or_ge i run.tree.size with hi | hi
  · exact Run.moved_of_has hi
  · rw [Run.moved_of_le hi, hbehind i hi]
    omega

/-- Runs that were abreast and in step since are abreast. -/
theorem Run.Twin.abreast (ht : Run.Twin (h.pairing fun _ => True) inside base base')
    (hsize : run'.tree.size = run.tree.size) (hbehind : ∀ i, run.tree.size ≤ i → g i = i)
    (hle : run.tree.size ≤ base.tree.size) : Run.Abreast g base base' := by
  have hmap := h.map_eq (N := fun _ => True) hsize hbehind
  have hend := ht.tree.map_size
  rw [hmap, hbehind _ hle] at hend
  constructor
  case inj => exact h.inj
  case stays =>
    intro i hi
    rcases Nat.lt_or_ge i run.tree.size with hlt | hge
    · exact Nat.lt_of_lt_of_le (h.stays i hlt) hle
    · rwa [hbehind i hge]
  case size => exact Nat.le_of_eq hend
  case heading =>
    intro i hi
    rcases Nat.lt_or_ge i run.tree.size with hlt | hge
    · obtain ⟨k, k', hk, hk', hakin⟩ := ht.tree.known i hlt
      rw [hmap] at hk'
      rw [hk, hk', Option.map_some, Option.map_some, hakin.heading, hmap]
    · have hkind := ht.tree.kind? hge
      rw [hmap] at hkind
      rw [hkind, Option.map_map]
      exact congrArg (Option.map · _) (funext fun k => k.heading_rename g)
  case span =>
    intro i hi
    have hspan := ht.tree.spanOf (i := i) (Nat.lt_or_ge i run.tree.size).symm
    rwa [hmap] at hspan

theorem Run.Twin.uses_iff (ht : Run.Twin (h.pairing fun _ => True) inside base base')
    (hsize : run'.tree.size = run.tree.size) (hbehind : ∀ i, run.tree.size ≤ i → g i = i)
    (huses : ∀ i, run.tree.Has i → (run'.tree.uses (g i) = [] ↔ run.tree.uses i = [])) (i : Nat) :
    base'.tree.uses (g i) = [] ↔ base.tree.uses i = [] := by
  have hmap := h.map_eq (N := fun _ => True) hsize hbehind
  rcases Nat.lt_or_ge i run.tree.size with hlt | hge
  · obtain ⟨k, k', hk, hk', hakin⟩ := ht.tree.known i hlt
    obtain ⟨added, hadd, hadd'⟩ := hakin.uses
    rw [hmap] at hk' hadd'
    rw [Tree.uses_of_kind? hk, Tree.uses_of_kind? hk', hadd, hadd', List.append_eq_nil_iff,
      List.append_eq_nil_iff, List.map_eq_nil_iff]
    exact and_congr_left' (huses i hlt)
  · have hkind := ht.tree.kind? hge
    rw [hmap] at hkind
    rw [Tree.uses, hkind, Tree.uses]
    rcases base.tree.kind? i with _ | k
    · rfl
    · simp [NodeKind.uses_rename]

theorem Run.Twin.paramsExist (ht : Run.Twin (h.pairing fun _ => True) inside base base')
    (hle : run.tree.size ≤ base.tree.size) : base.tree.ParamsExist := by
  intro i f hf p hp
  have hkind := Tree.function?_eq_some.mp hf
  rcases Nat.lt_or_ge i run.tree.size with hlt | hge
  · obtain ⟨k, k', hk, -, hakin⟩ := ht.tree.known i hlt
    rw [hk] at hkind
    have hknown := hakin.params f (by rw [Option.some.inj hkind]; rfl) p hp
    exact Nat.lt_of_lt_of_le hknown hle
  · exact (ht.tree.inner i _ hge hkind p (NodeKind.params_mentioned (k := .function f) rfl p hp)).2

end Globals

/-- After the declarations no scope is open and no label is left. -/
theorem Run.Declares.twin {ns ns' : List Notice} (hd : ({} : Run).Declares library xs ns run)
    (hd' : ({} : Run).Declares library ys ns' run') (h : Run.Abreast g run run') :
    Run.Twin (h.pairing fun _ => True) true run run' := by
  refine ⟨(h.twin hd.paramsExist).tree, (h.twin hd.paramsExist).told, fun _ => ?_⟩
  constructor
  · rw [hd.scopes, hd'.scopes]
    rfl
  · rw [hd.scopes]
    exact fun fr hfr => absurd hfr List.not_mem_nil
  · rw [hd.labels, hd'.labels]
    rfl
  · rw [hd.labels]
    exact fun l hl => absurd hl List.not_mem_nil
  · rw [hd.lastScope, hd'.lastScope]

/-- The names of the globals stand beside those of the functions and the states. -/
theorem Env.Beside.withGlobals {base : Run} {globals globals' : Lsl.Names}
    (h : Env.Beside g (fun _ => True) run env env')
    (hopened : Opened script library { env with globals } base n)
    (hle : run.tree.size ≤ base.tree.size)
    (hglobals : ∀ name, globals'.lookup name = (globals.lookup name).map g) :
    Env.Beside g base.tree.Shared base { env with globals } { env' with globals := globals' } where
  library := h.library
  warnUnused := h.warnUnused
  functions := h.functions
  function name id hid := by
    have hsort := hopened.known.functions _ (mem_of_lookup hid)
    exact ⟨Tree.has_of_sort? hsort, .inl hsort⟩
  states := h.states
  state name id hid := Nat.lt_of_lt_of_le (h.state name id hid) hle
  globals := hglobals
  global name id hid := by
    have hsort := hopened.known.globals _ (mem_of_lookup hid)
    exact ⟨Tree.has_of_sort? hsort, .inr hsort⟩
  outside := h.outside
  outside' := h.outside'

/-- **Scripts that declare in another order are abreast when their bodies begin.** -/
theorem openScript_reordered (hs : script.Reorders script') {base base' : Run}
    (h : openScript library warnUnused script {} = ((env, n), base))
    (h' : openScript library warnUnused script' {} = ((env', n'), base')) :
    ∃ g, Run.Reordered g script script' env env' n n' base base' := by
  obtain ⟨g, hg⟩ := Decl.exists_renumbers hs.decls 0
  have hopened := openScript_opened h
  obtain ⟨outer, m, run, globals, ids, hr, hr₁, rfl, rfl⟩ := openScript_run h
  obtain ⟨outer', m', run', globals', ids', hr', hr₁', rfl, rfl⟩ := openScript_run h'
  have hdecl := declareScript_declares hs.functionNames hs.stateNames hr
  have hdecl' := declareScript_declares hs.functionNames' hs.stateNames' hr'
  obtain ⟨ns, hns, hlaid⟩ := hdecl.declares
  obtain ⟨ns', hns', hlaid'⟩ := hdecl'.declares
  have habreast := hlaid.abreast hlaid' hg hs.decls
  have hsize := hlaid.size_perm hlaid' hs.decls
  have hbehind : ∀ i, run.tree.size ≤ i → g i = i := fun i hi => by
    have hlaidSize : run.tree.size = 0 + Decl.total script.decls := hlaid.size
    exact hg.behind i (hlaidSize ▸ hi)
  have hmap := habreast.map_eq (N := fun _ => True) hsize hbehind
  have hbeside := Run.DeclaresScript.beside hs hdecl hdecl' hg
  have henv := hbeside.twin (m := run.tree.size) (N := fun _ => True) habreast fun _ _ => trivial
  -- the globals are resolved in step
  obtain ⟨ht, hle, hnames, hids, hat⟩ :=
    resolveGlobals_sim henv (hlaid.twin hlaid' habreast) script.globals
  rw [hr₁] at ht hle hnames hids hat
  rw [← hs.globals, hr₁'] at ht hnames hids
  refine ⟨g, ?_⟩
  constructor
  case renumbers => exact hg
  case numbers => exact ⟨hdecl.numbers.functions, hdecl.numbers.defaultState, hdecl.numbers.states⟩
  case numbers' =>
    exact ⟨hdecl'.numbers.functions, hdecl'.numbers.defaultState, hdecl'.numbers.states⟩
  case abreast => exact ht.abreast hsize hbehind hle
  case beside =>
    refine hbeside.withGlobals hopened hle fun name => ?_
    have hlookup := hnames.lookup name
    rwa [hmap] at hlookup
  case params => exact ht.paramsExist hle
  case uses => exact fun i _ => ht.uses_iff hsize hbehind (fun i hi => hlaid.uses hlaid' hg hi) i
  case notices =>
    obtain ⟨more, hmore, hmore'⟩ := ht.told
    change base.notices = run.notices ++ more at hmore
    change base'.notices = run'.notices ++ more at hmore'
    rw [hmore, hmore', hlaid.notices, hlaid'.notices]
    exact (((hns'.trans hs.declNotices).trans hns.symm).append_left _).append_right _
  case globals => rwa [hmap] at hids
  case global => exact fun id hid => (hat id hid).2

end Lsl
