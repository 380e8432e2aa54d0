/- # The order of declarations does not matter

A script can declare its functions and states in any order, as long as their
names are distinct. In each order there is the same to say about it, and every
body is the same but for the numbers of its nodes: the same statements are dead
for the same reasons, in the same segments, and the same ways through it return.

Key definitions: `Script.parts`, `Tree.SameFlow`, `Tree.SameBody`.
Key theorems: `Script.check_reordered`.
-/
import Lsl.Proofs.Check.ErrorFlags
import Lsl.Proofs.Check.Forest
import Lsl.Proofs.Lockstep.Reorder
import Lsl.Proofs.Scoping.Numbering

namespace Lsl

variable {library : Catalog} {warnUnused : Bool} {script script' : Script} {env env' : Env}
  {n n' : ScriptNode} {base base' run run' r r' : Run} {g : Nat → Nat}

/-! ### The parts of a script -/

/-- The functions and states of a script with their nodes, in the order they are resolved. -/
def Script.parts (script : Script) (n : ScriptNode) : List Part :=
  (script.functions.zip n.functions).map (fun x => .function x.1 x.2)
    ++ ((script.defaultState.toList.zip n.defaultState.toList).map (fun x => .state x.1 x.2)
      ++ (script.states.zip n.states).map fun x => .state x.1 x.2)

theorem resolveBodies_eq (env : Env) (script : Script) (n : ScriptNode) :
    resolveBodies env script n = (do
      (script.parts n).forM (·.resolve env)
      if env.warnUnused then warnUnusedGlobals n.globals n.functions
      Check.alloc (.script n) script.span) := by
  unfold resolveBodies Script.parts
  simp only [List.forM_eq_forM, List.forM_append, List.forM_map, bind_assoc]
  rfl

/-- What is said about globals and functions in the end. -/
def ScriptNode.unused (n : ScriptNode) (t : Tree) : List Notice :=
  n.globals.flatMap (t.unused Heading.varName? .globalNeverUsed)
    ++ n.functions.flatMap (t.unused Heading.functionName? .functionNeverUsed)

/-- Once its parts are resolved, the script itself is made. -/
theorem resolveBodies_ok {root : NodeId} (h : resolveBodies env script n base = .ok (root, run)) :
    ∃ r, (script.parts n).forM (·.resolve env) base = .ok ((), r)
      ∧ run.tree = (r.tree.alloc (.script n) script.span).1
      ∧ run.notices = r.notices ++ if env.warnUnused then n.unused r.tree else [] := by
  rw [resolveBodies_eq] at h
  obtain ⟨⟨⟩, r, hparts, h⟩ := CheckBody.bind_ok h
  refine ⟨r, hparts, ?_⟩
  by_cases hw : env.warnUnused = true
  · simp only [hw, if_true] at h ⊢
    rw [CheckBody.lift_bind, warnUnusedGlobals_run] at h
    cases h
    exact ⟨rfl, List.append_assoc ..⟩
  · simp only [hw, Bool.false_eq_true, if_false] at h ⊢
    cases h
    exact ⟨rfl, (List.append_nil _).symm⟩

/-- The part that a declaration becomes at its place. -/
def Decl.part (x : Decl × Nat) : Part :=
  match x.1 with
  | .function d => .function d (x.1.node x.2)
  | .state d _ => .state d (x.1.node x.2)

theorem Decl.node_part (x : Decl × Nat) : (Decl.part x).node = x.1.node x.2 := by
  rcases x with ⟨_ | _, _⟩ <;> rfl

theorem Decl.zip_nodes {δ : Type} {decl : δ → Decl} {f : δ → NodeId → Part}
    (hf : ∀ d start, Decl.part (decl d, start) = f d ((decl d).node start)) (start : Nat)
    (ds : List δ) :
    (ds.zip (Decl.nodes (Decl.placed start (ds.map decl)))).map (fun x => f x.1 x.2)
      = (Decl.placed start (ds.map decl)).map Decl.part := by
  induction ds generalizing start with
  | nil => rfl
  | cons d rest ih =>
    have hrest := ih (start + (decl d).width)
    rw [List.map_cons, Decl.placed, List.map_cons, hf, ← hrest]
    rfl

theorem Script.parts_eq (h : n.Numbers script) : script.parts n = script.placedDecls.map Decl.part := by
  rw [parts, h.functions, h.defaultState, h.states, placedDecls_functions, placedDecls_default,
    placedDecls_named, Decl.zip_nodes (fun _ _ => rfl), Decl.zip_nodes (fun _ _ => rfl),
    Decl.zip_nodes (fun _ _ => rfl), placedDecls, decls, Decl.placed_append, Decl.placed_append,
    List.map_append, List.map_append, Nat.zero_add]

/-- The parts of the other script, by the numbers they have there. -/
theorem Run.Reordered.parts (h : Run.Reordered g script script' env env' n n' base base') :
    (script'.parts n').Perm ((script.parts n).map (·.renumber g)) := by
  rw [Script.parts_eq h.numbers, Script.parts_eq h.numbers']
  refine (h.renumbers.perm.map _).trans (.of_eq ?_)
  rw [List.map_map, List.map_map]
  refine List.map_congr_left fun x hx => ?_
  have hnode := h.renumbers.node hx
  rcases x with ⟨_ | _, start⟩ <;>
    simp only [Function.comp_apply, Decl.part, Part.renumber, hnode]

/-! ### Parts that stand apart -/

theorem Env.Opens.declared_parts (h : env.Opens library script n base) :
    ∀ x ∈ script.parts n, x.Declared base.tree := by
  intro x hx
  rcases List.mem_append.mp hx with hx | hx
  · obtain ⟨y, hy, rfl⟩ := List.mem_map.mp hx
    rw [h.functions, Script.functionNodes, zip_numberFunctions] at hy
    exact h.declared y hy
  · rcases List.mem_append.mp hx with hx | hx
    · obtain ⟨y, hy, rfl⟩ := List.mem_map.mp hx
      exact (List.forall₂_iff_zip.mp h.defaultState).2 hy
    · obtain ⟨y, hy, rfl⟩ := List.mem_map.mp hx
      exact (List.forall₂_iff_zip.mp h.states).2 hy

/-- The parameters of a part are in its block, and they are parameters. -/
theorem Opened.params_of_part (h : Opened script library env base n)
    (hopens : env.Opens library script n base) (hn : n.Numbers script) {x : Decl × Nat}
    (hx : x ∈ script.placedDecls) :
    ∀ p : Nat, p ∈ (Decl.part x).params base.tree →
      x.2 ≤ p ∧ p < x.1.node x.2 ∧ base.tree.sort? p = some .param := by
  intro p hp
  have hmem : Decl.part x ∈ script.parts n := by
    rw [Script.parts_eq hn]
    exact List.mem_map_of_mem hx
  rcases x with ⟨d | _, start⟩
  case state => cases hp
  obtain ⟨f, hf, -, -, hparams, -⟩ := hopens.declared_parts _ hmem
  have hsort : ∃ f', base.tree.function? ((Decl.function d).node start) = some f'
      ∧ ∀ q ∈ f'.params, base.tree.sort? q = some .param := by
    have hzip : (d, (Decl.function d).node start) ∈ script.functions.zip n.functions := by
      rcases List.mem_append.mp hmem with hmem | hmem
      · obtain ⟨y, hy, he⟩ := List.mem_map.mp hmem
        obtain ⟨rfl, hnode⟩ := Part.function.inj he
        rw [← hnode]
        exact hy
      · rcases List.mem_append.mp hmem with hmem | hmem <;>
          · obtain ⟨y, -, he⟩ := List.mem_map.mp hmem
            cases he
    obtain ⟨f', hf', -, hq⟩ := (List.forall₂_iff_zip.mp h.functions).2 hzip
    exact ⟨f', hf', hq⟩
  obtain ⟨f', hf', hsorts⟩ := hsort
  obtain rfl : f' = f := Option.some.inj (hf'.symm.trans hf)
  have hp' : p ∈ f'.params := by
    change p ∈ ((base.tree.function? ((Decl.function d).node start)).map (·.params)).getD [] at hp
    rwa [hf'] at hp
  refine ⟨?_, ?_, hsorts p hp'⟩ <;>
  · rw [hparams] at hp'
    obtain ⟨y, hy, rfl⟩ := List.mem_map.mp hp'
    obtain ⟨z, hz, rfl⟩ := List.mem_map.mp hy
    have hbounds := List.mem_zipIdx hz
    simp only [Decl.node, Decl.width] at hbounds ⊢
    omega

/-- Different parts of a script leave each other's parameters alone. -/
theorem Opened.parts_apart (h : Opened script library env base n)
    (hopens : env.Opens library script n base) (hn : n.Numbers script) {xs : List Part}
    (hxs : xs.Perm (script.parts n)) : xs.Pairwise (Part.Apart base.tree) := by
  rw [Script.parts_eq hn] at hxs
  let Disjoint (x y : Decl × Nat) : Prop := x.2 + x.1.width ≤ y.2 ∨ y.2 + y.1.width ≤ x.2
  have : Std.Symm Disjoint := ⟨fun _ _ => Or.symm⟩
  have hblocks : script.placedDecls.Pairwise Disjoint :=
    (Decl.placed_pairwise 0 script.decls).imp .inl
  have hnodes : (script.placedDecls.map Decl.part).Pairwise fun x y => x.node ≠ y.node := by
    rw [List.pairwise_map]
    refine (Decl.placed_pairwise 0 script.decls).imp fun {x y} hxy => ?_
    have := x.1.width_pos
    have hlt : x.1.node x.2 < y.1.node y.2 := by
      simp only [Decl.node]
      omega
    rw [Decl.node_part, Decl.node_part]
    exact Nat.ne_of_lt hlt
  have hnodes' : xs.Pairwise fun x y => x.node ≠ y.node :=
    (hxs.pairwise_iff fun {x y} (hne : x.node ≠ y.node) => hne.symm).mpr hnodes
  refine hnodes'.imp_of_mem fun {x y} hx hy hne => ⟨hne, fun (p : Nat) hp => ?_⟩
  obtain ⟨u, hu, rfl⟩ := List.mem_map.mp (hxs.mem_iff.mp hx)
  obtain ⟨v, hv, rfl⟩ := List.mem_map.mp (hxs.mem_iff.mp hy)
  have hdisjoint := hblocks.forall hu hv fun he => hne (he ▸ rfl)
  obtain ⟨hlow, hhigh, hsort⟩ := h.params_of_part hopens hn hv p hp
  have hu₀ := u.1.width_pos
  have hv₀ := v.1.width_pos
  simp only [Decl.node] at hhigh
  refine ⟨?_, fun he => ?_⟩
  · rintro ((hs | hs) | hmem)
    · rw [hsort] at hs
      cases hs
    · rw [hsort] at hs
      cases hs
    · obtain ⟨hlow', hhigh', -⟩ := h.params_of_part hopens hn hu p hmem
      simp only [Decl.node] at hhigh'
      omega
  · have he : p = u.2 + (u.1.width - 1) := he.trans (Decl.node_part u)
    omega

/-! ### The same parts in both scripts -/

/-- What comes of a part right behind the declarations. -/
def Part.alone (env : Env) (base : Run) (x : Part) : Run :=
  match x.resolve env base with
  | .ok (_, a) => a
  | .error _ => base

theorem Env.Opens.resolve_alone (h : env.Opens library script n base) {x : Part}
    (hx : x ∈ script.parts n) : x.resolve env base = .ok ((), x.alone env base) := by
  obtain ⟨⟨⟩, a, ha, -⟩ := Part.resolve_gives h.names (h.declared_parts x hx)
  rw [Part.alone, ha]

theorem Run.Abreast.refl (base : Run) : Run.Abreast id base base where
  inj := Function.injective_id
  stays _ hi := hi
  size := Nat.le_refl _
  heading _ _ := congrArg (Option.map · _) (funext fun k => (k.heading.rename_id).symm)
  span _ _ := rfl

theorem Env.Beside.refl {N : Nat → Prop} (h : Env.Beside g N base env env') :
    Env.Beside id N base env env where
  library := rfl
  warnUnused := rfl
  functions _ := (congrFun Option.map_id _).symm
  function := h.function
  states _ := (congrFun Option.map_id _).symm
  state := h.state
  globals _ := (congrFun Option.map_id _).symm
  global := h.global
  outside := h.outside
  outside' := h.outside

theorem Part.renumber_id (x : Part) : x.renumber id = x := by
  cases x <;> rfl

/-- Both scripts up to their bodies. -/
structure Run.Beginnings (library : Catalog) (g : Nat → Nat) (script script' : Script) (env env' : Env)
    (n n' : ScriptNode) (base base' : Run) : Prop
    extends Run.Reordered g script script' env env' n n' base base' where
  opened : Opened script library env base n
  opens : env.Opens library script n base
  opens' : env'.Opens library script' n' base'

namespace Run.Beginnings

variable (h : Run.Beginnings library g script script' env env' n n' base base')
include h

/-- The parts of the script, as each comes about alone. -/
theorem follow (hr : (script.parts n).forM (·.resolve env) base = .ok ((), r)) :
    Part.AllFollow id base base (script.parts n) (Part.alone env base) r := by
  refine Part.allFollow (.refl base) h.beside.refl h.params h.opens.names
    (fun x hx => ⟨h.opens.declared_parts x hx, h.opens.resolve_alone hx⟩)
    (fun x hx => ?_) (fun _ _ _ _ => Iff.rfl) (h.opened.parts_apart h.opens h.numbers (.refl _)) ?_
  · rw [Part.renumber_id]
    exact h.opens.declared_parts x hx
  · simp only [Part.renumber_id]
    exact hr

/-- The parts of the other script are the same in another order. -/
theorem follow' (hr : (script'.parts n').forM (·.resolve env') base' = .ok ((), r')) :
    ∃ xs, xs.Perm (script.parts n)
      ∧ Part.AllFollow g base base' xs (Part.alone env base) r' := by
  obtain ⟨xs, heq, hperm⟩ : Relation.Comp (· = List.map (Part.renumber g) ·) List.Perm
      (script'.parts n') (script.parts n) := by
    rw [List.eq_map_comp_perm]
    exact h.toReordered.parts
  have hmem : ∀ x ∈ xs, x ∈ script.parts n := fun x hx => hperm.mem_iff.mp hx
  refine ⟨xs, hperm, Part.allFollow h.abreast h.beside h.params h.opens'.names
    (fun x hx => ⟨h.opens.declared_parts x (hmem x hx), h.opens.resolve_alone (hmem x hx)⟩)
    (fun x hx => h.opens'.declared_parts _ ?_) (fun x _ p hp => h.uses p (h.params.has hp))
    (h.opened.parts_apart h.opens h.numbers hperm) ?_⟩
  · rw [heq]
    exact List.mem_map_of_mem hx
  · rw [heq, List.forM_eq_forM, List.forM_map] at hr
    exact hr

variable {xs : List Part} (hf : Part.AllFollow id base base (script.parts n) (Part.alone env base) r)
  (hxs : xs.Perm (script.parts n))
  (hf' : Part.AllFollow g base base' xs (Part.alone env base) r')
include hf hxs hf'

/-- A declaration is used in both scripts or in none. -/
theorem unused {name? : Heading → Option String} {warning : String → Warning}
    (hname : ∀ f h, name? (Heading.rename f h) = name? h) {i : Nat} (hi : base.tree.Has i) :
    r'.tree.unused name? warning (g i) = r.tree.unused name? warning i := by
  refine Tree.unused_congr (f := g) (hname g) ?_ ?_
    ((hf'.abreast.span i hi).trans (hf.abreast.span i hi).symm)
  · have hheading := hf.abreast.heading i hi
    rw [id] at hheading
    have hmap : (r.tree.kind? i).map (·.heading.rename g)
        = ((r.tree.kind? i).map (·.heading)).map (Heading.rename g) := by
      rw [Option.map_map]
      rfl
    rw [hf'.abreast.heading i hi, hmap, hheading, Option.map_map]
    exact congrArg (Option.map · _) (funext fun k => (Heading.rename_rename id g k.heading).symm)
  · have huses := hf.uses i hi
    rw [id] at huses
    rw [huses, hf'.uses i hi, h.uses i hi]
    exact and_congr_right fun _ => forall_congr' fun x => imp_congr_left hxs.mem_iff

/-- **Both scripts have the same to say.** -/
theorem told (hrun : run.notices = r.notices ++ if env.warnUnused then n.unused r.tree else [])
    (hrun' : run'.notices = r'.notices ++ if env'.warnUnused then n'.unused r'.tree else []) :
    run'.notices.Perm run.notices := by
  have hglobals : n'.globals.flatMap (r'.tree.unused Heading.varName? .globalNeverUsed)
      = n.globals.flatMap (r.tree.unused Heading.varName? .globalNeverUsed) := by
    rw [h.globals, List.flatMap_map]
    exact List.flatMap_congr fun i hi =>
      h.unused hf hxs hf' Heading.varName?_rename (h.global i hi)
  have hfunctions : (n'.functions.flatMap (r'.tree.unused Heading.functionName? .functionNeverUsed)).Perm
      (n.functions.flatMap (r.tree.unused Heading.functionName? .functionNeverUsed)) := by
    have hperm : n'.functions.Perm (n.functions.map g) := by
      rw [h.numbers.functions, h.numbers'.functions]
      exact h.renumbers.nodes Decl.isFunction
    refine (hperm.flatMap_right _).trans (.of_eq ?_)
    rw [List.flatMap_map]
    refine List.flatMap_congr fun i hi => h.unused hf hxs hf' Heading.functionName?_rename ?_
    rw [h.opens.functions] at hi
    obtain ⟨x, hx, rfl⟩ := List.mem_map.mp hi
    obtain ⟨f, hf, -⟩ := h.opens.declared x hx
    exact Tree.has_of_kind? (Tree.function?_eq_some.mp hf)
  rw [hrun, hrun', hf.told, hf'.told, h.beside.warnUnused]
  refine (h.notices.append (hxs.flatMap_right _)).append ?_
  split
  · rw [ScriptNode.unused, ScriptNode.unused, hglobals]
    exact hfunctions.append_left _
  · exact .refl _

end Run.Beginnings

/-! ### The same bodies -/

/-- The body at `b` is the body at `π b` of the other tree with other numbers. So the
same statements are dead, for the same reasons and in the same segments, and the
same statements make every way through a scope return. -/
structure Tree.SameFlow (t : Tree) (b : NodeId) (t' : Tree) (π : NodeId → NodeId) : Prop where
  inj : Set.InjOn π {i | t.Within i b}
  kinds : ∀ i k, t.Within i b → t.kind? i = some k → t'.kind? (π i) = some (k.rename π)
  dead : ∀ i s, t.Within i b → t.stmt? i = some s → ∃ s', t'.stmt? (π i) = some s'
    ∧ s'.info.dead = s.info.dead ∧ s'.info.returnPath = s.info.returnPath.map π
  scopes : ∀ i c, t.Within i b → t.scope? i = some c → ∃ c', t'.scope? (π i) = some c'
    ∧ c'.deadSegments = c.deadSegments.map (·.rename π) ∧ c'.returnPath = c.returnPath.map π

theorem Tree.SameFlow.of_kinds {t t' : Tree} {b : NodeId} {π : NodeId → NodeId}
    (hinj : Set.InjOn π {i | t.Within i b})
    (hkinds : ∀ i k, t.Within i b → t.kind? i = some k → t'.kind? (π i) = some (k.rename π)) :
    t.SameFlow b t' π where
  inj := hinj
  kinds := hkinds
  dead i s hi hs := by
    have hkind := hkinds i _ hi (Tree.stmt?_eq_some.mp hs)
    exact ⟨s.rename π, Tree.stmt?_eq_some.mpr hkind, rfl, rfl⟩
  scopes i c hi hc := by
    have hkind := hkinds i _ hi (Tree.scope?_eq_some.mp hc)
    exact ⟨c.rename π, Tree.scope?_eq_some.mpr hkind, rfl, rfl⟩

/-- Two functions or event handlers have the same body. -/
def Tree.SameBody (t t' : Tree) (x x' : NodeId) : Prop :=
  ∃ b π, t.body? x = some b ∧ t'.body? x' = some (π b) ∧ t.SameFlow b t' π

section Copies

variable {x : Part} {π₁ π₂ : Nat → Nat} {a : Run} {t t' : Tree}
  (h : x.CopiedTo π₁ id base a t) (h' : x.CopiedTo π₂ g base a t')
  (hclosed : ∀ i, base.tree.size ≤ i → ∀ c ∈ a.tree.children i, base.tree.size ≤ c ∧ a.tree.Has c)
  (hforest : t.Forest)
include h h' hclosed hforest

/-- Two copies of one body have the same flow. -/
theorem Part.CopiedTo.sameFlow {b : NodeId} (hb : base.tree.size ≤ b ∧ a.tree.Has b) :
    ∃ π, π (π₁ b) = π₂ b ∧ t.SameFlow (π₁ b) t' π := by
  have hback : ∀ i, π₂ (Function.invFun π₁ (π₁ i)) = π₂ i := fun i =>
    congrArg π₂ (Function.leftInverse_invFun h.inj i)
  -- what lies within the copy is a copy of what was made
  have hmade : ∀ i, t.Within i (π₁ b) → ∃ j, i = π₁ j ∧ base.tree.size ≤ j ∧ a.tree.Has j := by
    intro i hi
    induction hi using Relation.ReflTransGen.head_induction_on with
    | refl => exact ⟨b, rfl, hb⟩
    | @head c q hq _ ih =>
      obtain ⟨j, rfl, hj, hhas⟩ := ih
      obtain ⟨k, hk⟩ := Tree.exists_kind? hhas
      have hmem := (hforest.links c _).mp hq
      rw [Tree.children_of_kind? (h.kind j k hj hk), NodeKind.children_rename] at hmem
      obtain ⟨l, hl, rfl⟩ := List.mem_map.mp hmem
      exact ⟨l, rfl, hclosed j hj l (by rwa [Tree.children_of_kind? hk])⟩
  refine ⟨π₂ ∘ Function.invFun π₁, hback b, .of_kinds ?_ fun i k hi hk => ?_⟩
  · rintro i hi j hj heq
    obtain ⟨i, rfl, -⟩ := hmade i hi
    obtain ⟨j, rfl, -⟩ := hmade j hj
    simp only [Function.comp_apply, hback] at heq
    rw [h'.inj heq]
  · obtain ⟨j, rfl, hj, hhas⟩ := hmade i hi
    obtain ⟨k₀, hk₀⟩ := Tree.exists_kind? hhas
    obtain rfl : k₀.rename π₁ = k := Option.some.inj ((h.kind j k₀ hj hk₀).symm.trans hk)
    rw [NodeKind.rename_rename, Function.comp_apply, hback, h'.kind j k₀ hj hk₀]
    exact congrArg (fun f => some (k₀.rename f)) (funext fun i => (hback i).symm)

/-- Two copies of one function or event handler have the same body. -/
theorem Part.CopiedTo.sameBody {y b : NodeId} (hy : base.tree.size ≤ y ∧ a.tree.Has y)
    (hb : t.body? (π₁ y) = some b) : t.SameBody t' (π₁ y) (π₂ y) := by
  obtain ⟨k, hk⟩ := Tree.exists_kind? hy.2
  have hkind := h.kind y k hy.1 hk
  have hkind' := h'.kind y k hy.1 hk
  obtain ⟨c, hc, rfl, hb'⟩ : ∃ c ∈ k.children, π₁ c = b ∧ t'.body? (π₂ y) = some (π₂ c) := by
    rw [Tree.body?, hkind] at hb
    rw [Tree.body?, hkind']
    cases k with
    | function f =>
      obtain ⟨c, hc, rfl⟩ := Option.map_eq_some_iff.mp (show f.body.map π₁ = some b from hb)
      refine ⟨c, List.mem_append_right _ (by simp [hc]), rfl, ?_⟩
      exact congrArg (Option.map π₂) hc
    | handler n =>
      exact ⟨n.body, List.mem_append_right _ List.mem_cons_self, Option.some.inj hb, rfl⟩
    | _ => cases hb
  obtain ⟨π, hπ, hflow⟩ := h.sameFlow h' hclosed hforest
    (hclosed y hy.1 c (by rwa [Tree.children_of_kind? hk]))
  exact ⟨π₁ c, π, hb, hπ ▸ hb', hflow⟩

variable (hfilled : ∀ i ∈ a.tree.filling x.node, base.tree.size ≤ i ∧ a.tree.Has i)
include hfilled

theorem Part.CopiedTo.sameBody_function {f f' : FunctionNode} {b : NodeId}
    (hf : t.kind? x.node = some (.function f)) (hb : f.body = some b)
    (hf' : t'.kind? (g x.node) = some (.function f')) : t.SameBody t' x.node (g x.node) := by
  have hfilling : (a.tree.filling x.node).map π₁ = [b] := by
    rw [← h.filling, Tree.filling, id, hf]
    exact congrArg Option.toList hb
  obtain ⟨c, hc, rfl⟩ := List.map_eq_singleton_iff.mp hfilling
  have hb' : f'.body = some (π₂ c) := by
    have hfilling' := h'.filling
    rw [hc, Tree.filling, hf'] at hfilling'
    exact Option.toList_eq_singleton_iff.mp hfilling'
  obtain ⟨π, hπ, hflow⟩ := h.sameFlow h' hclosed hforest
    (hfilled c (by rw [hc]; exact List.mem_cons_self))
  refine ⟨π₁ c, π, ?_, ?_, hflow⟩
  · rw [Tree.body?, hf]
    exact hb
  · rw [Tree.body?, hf', hπ]
    exact hb'

theorem Part.CopiedTo.sameBody_handlers {s s' : StateNode} (hs : t.kind? x.node = some (.state s))
    (hs' : t'.kind? (g x.node) = some (.state s')) (hb : ∀ y ∈ s.handlers, ∃ b, t.body? y = some b) :
    List.Forall₂ (t.SameBody t') s.handlers s'.handlers := by
  have hhandlers : s.handlers = (a.tree.filling x.node).map π₁ := by
    rw [← h.filling, Tree.filling, id, hs]
    rfl
  have hhandlers' : s'.handlers = (a.tree.filling x.node).map π₂ := by
    rw [← h'.filling, Tree.filling, hs']
    rfl
  rw [hhandlers] at hb ⊢
  rw [hhandlers', List.forall₂_map_left_iff, List.forall₂_map_right_iff, List.forall₂_same]
  intro y hy
  obtain ⟨b, hyb⟩ := hb (π₁ y) (List.mem_map_of_mem hy)
  exact h.sameBody h' hclosed hforest (hfilled y hy) hyb

end Copies

/-! ### Checking in another order -/

/-- Declarations of one kind have their nodes. -/
theorem Decl.exists_placed {δ : Type} {decl : δ → Decl} {p : Decl → Bool} {xs : List (Decl × Nat)}
    {start : Nat} {ds : List δ} (hxs : xs.filter (p ·.1) = Decl.placed start (ds.map decl)) {d : δ}
    (hd : d ∈ ds) : ∃ s, (decl d, s) ∈ xs := by
  have hmem : decl d ∈ (xs.filter (p ·.1)).map (·.1) := by
    rw [hxs, Decl.map_fst_placed]
    exact List.mem_map_of_mem hd
  obtain ⟨⟨_, s⟩, hx, rfl⟩ := List.mem_map.mp hmem
  exact ⟨s, (List.mem_filter.mp hx).1⟩

theorem Decl.mem_zip_nodes {δ : Type} {decl : δ → Decl} (hinj : Function.Injective decl)
    {p : Decl → Bool} {xs : List (Decl × Nat)} {start : Nat} {ds : List δ}
    (hxs : xs.filter (p ·.1) = Decl.placed start (ds.map decl)) {d : δ} {s : Nat}
    (hp : p (decl d) = true) (hmem : (decl d, s) ∈ xs) :
    (d, (decl d).node s) ∈ ds.zip (Decl.nodes (xs.filter (p ·.1))) := by
  have hplaced : (decl d, s) ∈ Decl.placed start (ds.map decl) := by
    rw [← hxs]
    exact List.mem_filter.mpr ⟨hmem, hp⟩
  rw [hxs]
  clear hxs
  induction ds generalizing start with
  | nil => cases hplaced
  | cons e rest ih =>
    rcases List.mem_cons.mp hplaced with heq | hplaced
    · obtain ⟨he, rfl⟩ := Prod.mk.inj heq
      rw [hinj he]
      exact List.mem_cons_self
    · exact List.mem_cons_of_mem _ (ih hplaced)

/-- The event handlers of two states have the same bodies, one for each of `d`. -/
def Tree.SameHandlers (t t' : Tree) (d : StateDecl) (x x' : NodeId) : Prop :=
  (t.handlers x).length = d.handlers.length
    ∧ List.Forall₂ (t.SameBody t') (t.handlers x) (t'.handlers x')

/-- Two checked scripts have the same bodies, wherever they declare them. -/
structure CheckedScript.SameBodies (script script' : Script) (n n' : ScriptNode) (t t' : Tree) :
    Prop where
  functions : ∀ d ∈ script.functions, ∃ x x', (d, x) ∈ script.functions.zip n.functions
    ∧ (d, x') ∈ script'.functions.zip n'.functions ∧ t.SameBody t' x x'
  defaultState : ∀ d ∈ script.defaultState, ∃ x x', n.defaultState = some x
    ∧ n'.defaultState = some x' ∧ t.SameHandlers t' d x x'
  states : ∀ d ∈ script.states, ∃ x x', (d, x) ∈ script.states.zip n.states
    ∧ (d, x') ∈ script'.states.zip n'.states ∧ t.SameHandlers t' d x x'

theorem Run.HoldsBodies.function (h : run.HoldsBodies library script n)
    (hopens : env.Opens library script n base) {d : FunctionDecl} {id : NodeId}
    (hmem : (d, id) ∈ script.functions.zip n.functions) :
    run.HoldsFunction library script.aroundBodies d id := by
  rw [hopens.functions, Script.functionNodes, zip_numberFunctions] at hmem
  exact h.functions (d, id) hmem

theorem Run.HoldsBodies.state (h : run.HoldsBodies library script n)
    (hopens : env.Opens library script n base) {d : StateDecl} {id : NodeId}
    (hmem : (d, id) ∈ script.defaultState.toList.zip n.defaultState.toList
      ++ script.states.zip n.states) :
    run.HoldsState library script.aroundBodies d id := by
  rw [← List.zip_append hopens.defaultState.length_eq] at hmem
  exact (List.forall₂_iff_zip.mp h.states).2 hmem

namespace Run.Beginnings

variable (h : Run.Beginnings library g script script' env env' n n' base base')
include h

theorem mem_placedDecls {x : Decl × Nat} (hx : x ∈ script.placedDecls) :
    (x.1, g x.2) ∈ script'.placedDecls :=
  h.renumbers.perm.mem_iff.mpr (List.mem_map_of_mem (f := fun x : Decl × Nat => (x.1, g x.2)) hx)

/-- What a part is made of is in both trees. -/
theorem copies {root root' : NodeId} (hrun : resolveBodies env script n base = .ok (root, run))
    (hrun' : resolveBodies env' script' n' base' = .ok (root', run')) {x : Part}
    (hx : x ∈ script.parts n) :
    ∃ π₁ π₂, x.CopiedTo π₁ id base (x.alone env base) run.tree
      ∧ x.CopiedTo π₂ g base (x.alone env base) run'.tree := by
  obtain ⟨r, hr, htree, -⟩ := resolveBodies_ok hrun
  obtain ⟨r', hr', htree', -⟩ := resolveBodies_ok hrun'
  have hf := h.follow hr
  obtain ⟨xs, hxs, hf'⟩ := h.follow' hr'
  have hold : ∀ {t : Tree} {kind : NodeKind} {span : Span} {j : Nat}, t.Has j →
      (t.alloc kind span).1.kind? j = t.kind? j := fun hj => by
    rw [Tree.kind?_alloc, if_neg (Nat.ne_of_lt hj)]
  have hhas := (h.opens.declared_parts x hx).has
  obtain ⟨π₁, h₁⟩ := hf.copied x hx
  obtain ⟨π₂, h₂⟩ := hf'.copied x (hxs.mem_iff.mpr hx)
  refine ⟨π₁, π₂, h₁.keep ?_ fun j _ hj => ?_, h₂.keep ?_ fun j _ hj => ?_⟩
  · rw [Tree.filling, Tree.filling, htree, hold (hf.abreast.has hhas)]
  · rw [htree, hold hj]
  · rw [Tree.filling, Tree.filling, htree', hold (hf'.abreast.has hhas)]
  · rw [htree', hold hj]

/-- A part alone, beside itself. -/
theorem follows_self {x : Part} (hx : x ∈ script.parts n) :
    x.Follows id base base (x.alone env base) (x.alone env base) := by
  refine Part.follows (.refl base) h.beside.refl h.params (h.opens.declared_parts x hx)
    (fun _ _ => Iff.rfl) (h.opens.resolve_alone hx) ?_
  rw [Part.renumber_id]
  exact h.opens.resolve_alone hx

variable {root root' : NodeId} (hrun : resolveBodies env script n base = .ok (root, run))
  (hrun' : resolveBodies env' script' n' base' = .ok (root', run')) (hforest : run.tree.Forest)
include hrun hrun' hforest

theorem sameFunction {d : FunctionDecl} {s : Nat} (hmem : (.function d, s) ∈ script.placedDecls)
    {o o' : Surroundings} (hd : run.HoldsFunction library o d ((Decl.function d).node s))
    (hd' : run'.HoldsFunction library o' d ((Decl.function d).node (g s))) :
    run.tree.SameBody run'.tree ((Decl.function d).node s) ((Decl.function d).node (g s)) := by
  have hx : Part.function d ((Decl.function d).node s) ∈ script.parts n := by
    rw [Script.parts_eq h.numbers]
    exact List.mem_map_of_mem (f := Decl.part) hmem
  obtain ⟨f, body, hf, -, -, -, -, hbody, -⟩ := hd
  obtain ⟨f', -, hf', -⟩ := hd'
  rw [← h.renumbers.node hmem] at hf' ⊢
  obtain ⟨π₁, π₂, h₁, h₂⟩ := h.copies hrun hrun' hx
  have hself := h.follows_self hx
  exact h₁.sameBody_function h₂ hself.closed hforest hself.filled (Tree.function?_eq_some.mp hf) hbody
    (Tree.function?_eq_some.mp hf')

theorem sameState {d : StateDecl} {isDefault : Bool} {s : Nat}
    (hmem : (.state d isDefault, s) ∈ script.placedDecls) {o o' : Surroundings}
    (hd : run.HoldsState library o d s) (hd' : run'.HoldsState library o' d (g s)) :
    run.tree.SameHandlers run'.tree d s (g s) := by
  have hx : Part.state d s ∈ script.parts n := by
    rw [Script.parts_eq h.numbers]
    exact List.mem_map_of_mem (f := Decl.part) hmem
  obtain ⟨st, hkind, -, hhandlers, -⟩ := hd
  obtain ⟨st', hkind', -⟩ := hd'
  obtain ⟨π₁, π₂, h₁, h₂⟩ := h.copies hrun hrun' hx
  have hself := h.follows_self hx
  rw [Tree.SameHandlers, Tree.handlers, hkind, Tree.handlers, hkind']
  refine ⟨hhandlers.length_eq.symm, h₁.sameBody_handlers h₂ hself.closed hforest hself.filled hkind
    hkind' fun y hy => ?_⟩
  obtain ⟨i, hi, rfl⟩ := List.mem_iff_getElem.mp hy
  obtain ⟨b, hb, -⟩ :=
    ((List.forall₂_iff_get.mp hhandlers).2 i (hhandlers.length_eq ▸ hi) hi).laysOut
  exact ⟨b, hb⟩

/-- **Every body is the same in both scripts.** -/
theorem sameBodies (hholds : run.HoldsBodies library script n)
    (hholds' : run'.HoldsBodies library script' n') :
    CheckedScript.SameBodies script script' n n' run.tree run'.tree := by
  constructor
  case functions =>
    intro d hmem
    obtain ⟨s, hs⟩ := Decl.exists_placed script.placedDecls_functions hmem
    have hs' := h.mem_placedDecls hs
    have hzip : (d, (Decl.function d).node s) ∈ script.functions.zip n.functions := by
      rw [h.numbers.functions]
      exact Decl.mem_zip_nodes (fun _ _ => Decl.function.inj) script.placedDecls_functions rfl hs
    have hzip' : (d, (Decl.function d).node (g s)) ∈ script'.functions.zip n'.functions := by
      rw [h.numbers'.functions]
      exact Decl.mem_zip_nodes (fun _ _ => Decl.function.inj) script'.placedDecls_functions rfl hs'
    refine ⟨_, _, hzip, hzip', h.sameFunction hrun hrun' hforest hs (hholds.function h.opens hzip)
      (hholds'.function h.opens' hzip')⟩
  case defaultState =>
    intro d hmem
    obtain ⟨s, hs⟩ := Decl.exists_placed script.placedDecls_default (Option.mem_toList.mpr hmem)
    have hs' := h.mem_placedDecls hs
    have hzip : (d, s) ∈ script.defaultState.toList.zip n.defaultState.toList := by
      rw [h.numbers.defaultState]
      exact Decl.mem_zip_nodes (fun _ _ he => (Decl.state.inj he).1) script.placedDecls_default rfl hs
    have hzip' : (d, g s) ∈ script'.defaultState.toList.zip n'.defaultState.toList := by
      rw [h.numbers'.defaultState]
      exact Decl.mem_zip_nodes (fun _ _ he => (Decl.state.inj he).1) script'.placedDecls_default rfl hs'
    exact ⟨s, g s, Option.mem_toList.mp (List.of_mem_zip hzip).2,
      Option.mem_toList.mp (List.of_mem_zip hzip').2, h.sameState hrun hrun' hforest hs
        (hholds.state h.opens (List.mem_append_left _ hzip))
        (hholds'.state h.opens' (List.mem_append_left _ hzip'))⟩
  case states =>
    intro d hmem
    obtain ⟨s, hs⟩ := Decl.exists_placed script.placedDecls_named hmem
    have hs' := h.mem_placedDecls hs
    have hzip : (d, s) ∈ script.states.zip n.states := by
      rw [h.numbers.states]
      exact Decl.mem_zip_nodes (fun _ _ he => (Decl.state.inj he).1) script.placedDecls_named rfl hs
    have hzip' : (d, g s) ∈ script'.states.zip n'.states := by
      rw [h.numbers'.states]
      exact Decl.mem_zip_nodes (fun _ _ he => (Decl.state.inj he).1) script'.placedDecls_named rfl hs'
    exact ⟨s, g s, hzip, hzip', h.sameState hrun hrun' hforest hs
      (hholds.state h.opens (List.mem_append_right _ hzip))
      (hholds'.state h.opens' (List.mem_append_right _ hzip'))⟩

end Run.Beginnings

/-- A script is checked by resolving its bodies once it is opened. -/
theorem Script.check_opened {options : CheckOptions}
    (h : openScript library options.warnUnused script {} = ((env, n), base)) :
    ∃ c run, script.check library options = .ok c
      ∧ resolveBodies env script n base = .ok (c.root, run)
      ∧ base.MakesScript library script n c.root run ∧ run.tree = c.tree
      ∧ c.notices.Perm run.notices := by
  obtain ⟨root, run, hrun, hmakes⟩ := resolveBodies_gives (openScript_opens h).opens
  refine ⟨⟨run.tree, root, run.notices.any (·.isFault) || run.tree.hasErrors root,
    if options.sortNotices then Notice.sort run.notices else run.notices⟩, run, ?_, hrun, hmakes, rfl,
    ?_⟩
  · unfold Script.check
    change ((resolveScript library options.warnUnused script) {} >>= fun r => _) = _
    rw [resolveScript_run h, hrun]
    rfl
  · change (if options.sortNotices = true then Notice.sort run.notices else run.notices).Perm _
    split
    · exact List.mergeSort_perm _ _
    · exact .refl _

/-- A script has errors if one is reported. -/
theorem Script.hasErrors_eq_any {options : CheckOptions} {c : CheckedScript}
    (h : script.check library options = .ok c) : c.hasErrors = c.notices.any (·.isFault) := by
  obtain ⟨p, n, hfinished, htree, herrors, hnotices⟩ := Script.check_acts h
  rw [herrors, hnotices.any_eq, ← htree, Bool.or_eq_left_iff_imp, hfinished.hasErrors_root]
  intro hfaulty
  obtain ⟨kind, span, hmem, -⟩ := Run.faulty_iff.mp hfaulty
  exact List.any_eq_true.mpr ⟨_, hmem, rfl⟩

/-- **The order of functions and states does not matter.** A script whose functions
have distinct names, and whose states have distinct names, is checked with the
same outcome in every order of these: the same notices, errors in both or in
none, and in every body the same dead statements, dead segments and return
paths, with other numbers for the nodes. -/
theorem Script.check_reordered (script : Script) {functions : List FunctionDecl}
    {states : List StateDecl} (hfunctions : script.functions.Perm functions)
    (hstates : script.states.Perm states) (hf : (script.functions.map (·.name)).Nodup)
    (hs : (script.states.map (·.name)).Nodup) (library : Catalog) (options : CheckOptions) :
    ∃ c c' n n', script.check library options = .ok c
      ∧ Script.check { script with functions, states } library options = .ok c'
      ∧ c'.notices.Perm c.notices ∧ c'.hasErrors = c.hasErrors
      ∧ c.tree.kind? c.root = some (.script n) ∧ c'.tree.kind? c'.root = some (.script n')
      ∧ CheckedScript.SameBodies script { script with functions, states } n n' c.tree c'.tree := by
  let script' : Script := { script with functions, states }
  have hreorders : script.Reorders script' := ⟨hfunctions, hstates, rfl, rfl, rfl, hf, hs⟩
  obtain ⟨⟨⟨env, n⟩, base⟩, hopen⟩ : ∃ r, openScript library options.warnUnused script {} = r :=
    ⟨_, rfl⟩
  obtain ⟨⟨⟨env', n'⟩, base'⟩, hopen'⟩ : ∃ r, openScript library options.warnUnused script' {} = r :=
    ⟨_, rfl⟩
  obtain ⟨c, run, hcheck, hrun, hmakes, htree, hnotices⟩ := Script.check_opened hopen
  obtain ⟨c', run', hcheck', hrun', hmakes', htree', hnotices'⟩ := Script.check_opened hopen'
  obtain ⟨g, hreordered⟩ := openScript_reordered hreorders hopen hopen'
  have hbegin : Run.Beginnings library g script script' env env' n n' base base' :=
    ⟨hreordered, openScript_opened hopen, (openScript_opens hopen).opens, (openScript_opens hopen').opens⟩
  have hforest : run.tree.Forest := by
    obtain ⟨p, m, hfinished, hp, -⟩ := Script.check_acts hcheck
    rw [htree, ← hp]
    exact (Acts.grown hfinished.acts).forest
  obtain ⟨r, hr, -, hsaid⟩ := resolveBodies_ok hrun
  obtain ⟨r', hr', -, hsaid'⟩ := resolveBodies_ok hrun'
  obtain ⟨xs, hxs, hfollow'⟩ := hbegin.follow' hr'
  have hperm : c'.notices.Perm c.notices :=
    (hnotices'.trans (hbegin.told (hbegin.follow hr) hxs hfollow' hsaid hsaid')).trans hnotices.symm
  have hsame := hbegin.sameBodies hrun hrun' hforest hmakes.bodies hmakes'.bodies
  rw [htree, htree'] at hsame
  refine ⟨c, c', n, n', hcheck, hcheck', hperm, ?_, htree ▸ hmakes.kind, htree' ▸ hmakes'.kind, hsame⟩
  rw [Script.hasErrors_eq_any hcheck, Script.hasErrors_eq_any hcheck', hperm.any_eq]

/-- Functions that call each other, with code behind a return, and states that
lead to each other. -/
def Script.pingPong : Script where
  functions := [
    { name := "ping", body := .mk [.plain (.expr (.call "pong" [] {}) {}), .plain (.ret none {}),
        .plain (.expr (.call "ping" [] {}) {})] {} },
    { name := "pong", body := .mk [.plain (.expr (.call "ping" [] {}) {})] {} }]
  defaultState := some { name := "default", handlers := [
    { name := "state_entry", body := .mk [.plain (.stateChange "left" {})] {} }] }
  states := [
    { name := "left", handlers := [
      { name := "state_entry", body := .mk [.plain (.stateChange "right" {})] {} }] },
    { name := "right", handlers := [
      { name := "state_entry", body := .mk [.plain (.stateChange "left" {})] {} }] }]

theorem Script.pingPong_reversed :
    ∃ c c' n n', pingPong.check {} {} = .ok c
      ∧ Script.check { pingPong with
          functions := pingPong.functions.reverse, states := pingPong.states.reverse } {} {} = .ok c'
      ∧ c'.notices.Perm c.notices ∧ c'.hasErrors = c.hasErrors
      ∧ c.tree.kind? c.root = some (.script n) ∧ c'.tree.kind? c'.root = some (.script n')
      ∧ CheckedScript.SameBodies pingPong { pingPong with
          functions := pingPong.functions.reverse, states := pingPong.states.reverse } n n'
          c.tree c'.tree :=
  pingPong.check_reordered (List.reverse_perm _).symm (List.reverse_perm _).symm (by decide)
    (by decide) {} {}

end Lsl
