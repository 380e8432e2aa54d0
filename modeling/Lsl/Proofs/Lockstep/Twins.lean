/- # Trees side by side

Two runs that resolve the same text from different beginnings make the same
nodes with other numbers. The nodes that both make are paired with each other,
and so are the declarations that both know from before. What both make is the
same but for the numbers. On what they know, only uses are noted, the same on
both sides; all other nodes stay what they were.

Key definitions: `Pairing`, `Pairing.Akin`, `Tree.Twin`.
Key theorems: `Tree.Twin.alloc`, `Tree.Twin.markError`, `Tree.Twin.ancestors`,
`Tree.Twin.addReference`.
-/
import Lsl.Check.Script
import Lsl.Proofs.Check.Shape
import Lsl.Proofs.Lockstep.Rename

namespace Lsl

/-- The nodes that a node is made of, and the labels and jumps that it leads to. -/
def NodeKind.mentions : NodeKind → List NodeId
  | scope c => c.statements ++ c.constantJumps.map (·.label)
  | stmt ⟨.label _ jumps, _⟩ => jumps
  | k => k.children

theorem NodeKind.children_subset_mentions (k : NodeKind) : k.children ⊆ k.mentions := by
  cases k with
  | scope c => exact List.subset_append_left _ _
  | stmt s =>
    rcases s with ⟨kind, info⟩
    cases kind with
    | label => exact List.nil_subset _
    | _ => exact List.Subset.refl _
  | _ => exact List.Subset.refl _

/-- How the nodes of two runs belong together. -/
structure Pairing where
  /-- Where the runs are when they are first compared. -/
  start : Run
  start' : Run
  /-- The number that a node of the first run has in the second. -/
  map : Nat → Nat
  /-- The nodes that both runs make. -/
  own : Nat → Prop
  /-- The nodes that both runs know from before. -/
  known : Nat → Prop
  /-- The known nodes that uses may be noted on. -/
  notable : Nat → Prop
  mono : ∀ i j, own i → own j → i < j → map i < map j
  inj : ∀ i j, known i → known j → map i = map j → i = j
  apart : ∀ i j, own i → known j → map i ≠ map j
  known_of_notable : ∀ i, notable i → known i

namespace Pairing

variable {F : Pairing} {m n i j : Nat} {k k' : NodeKind}

/-- A node that both runs have made. -/
def At (F : Pairing) (m i : Nat) : Prop := F.own i ∧ i < m

theorem At.mono (h : F.At m i) (hle : m ≤ n) : F.At n i := ⟨h.1, Nat.lt_of_lt_of_le h.2 hle⟩

theorem own_inj (hi : F.own i) (hj : F.own j) (h : F.map i = F.map j) : i = j := by
  rcases Nat.lt_trichotomy i j with hlt | heq | hgt
  · exact absurd h (Nat.ne_of_lt (F.mono i j hi hj hlt))
  · exact heq
  · exact absurd h (Nat.ne_of_gt (F.mono j i hj hi hgt))

theorem not_known (hi : F.own i) : ¬ F.known i := fun hk => F.apart i i hi hk rfl

/-- Nodes that are known from before, in both runs: the same declarations, with
the same uses noted since. -/
structure Akin (F : Pairing) (i : NodeId) (k k' : NodeKind) : Prop where
  heading : k'.heading = k.heading.rename F.map
  params : ∀ f, k.function? = some f → ∀ p ∈ f.params, F.known p
  uses : ∃ added, k.uses = F.start.tree.uses i ++ added
    ∧ k'.uses = F.start'.tree.uses (F.map i) ++ added.map F.map

namespace Akin

theorem sort (h : F.Akin i k k') : k'.sort = k.sort := congrArg Heading.sort h.heading

theorem var? (h : F.Akin i k k') :
    k'.var?.map (fun v => (v.name, v.ty)) = k.var?.map fun v => (v.name, v.ty) :=
  congrArg Heading.var h.heading

/-- Notes of the same uses on both sides. -/
theorem note {g g' : NodeKind → NodeKind} {more : List NodeId} (h : F.Akin i k k')
    (hg : k.Noted (g k)) (hg' : k'.Noted (g' k'))
    (huse : (g k).uses = k.uses ++ more) (huse' : (g' k').uses = k'.uses ++ more.map F.map) :
    F.Akin i (g k) (g' k') where
  heading := by
    rw [NodeKind.heading_of_outline hg'.outline, NodeKind.heading_of_outline hg.outline, h.heading]
  params f hf p hp := by
    have hsame := congrArg Heading.function (NodeKind.heading_of_outline hg.outline)
    simp only [NodeKind.heading, hf, Option.map_some] at hsame
    obtain ⟨f₀, hf₀, he⟩ := Option.map_eq_some_iff.mp hsame.symm
    simp only [Prod.mk.injEq] at he
    exact h.params f₀ hf₀ p (he.2.2 ▸ hp)
  uses := by
    obtain ⟨added, ha, ha'⟩ := h.uses
    exact ⟨added ++ more, by rw [huse, ha, List.append_assoc],
      by rw [huse', ha', List.map_append, List.append_assoc]⟩

end Akin

end Pairing

/-- The trees of two runs that make the same nodes with other numbers. -/
structure Tree.Twin (F : Pairing) (t t' : Tree) : Prop where
  next : ∀ j, F.map (t.size + j) = t'.size + j
  fresh : ∀ j, F.own (t.size + j)
  node : ∀ i, F.own i → t'.node? (F.map i) = (t.node? i).map (·.rename F.map)
  /-- Nodes are taken up by nodes that are made later. -/
  up : ∀ i q : Nat, F.own i → t.parent? i = some q → i < q ∧ F.At t.size q
  inner : ∀ i k, F.own i → t.kind? i = some k → ∀ j ∈ k.mentions, F.At t.size j
  known : ∀ i, F.known i → ∃ k k', t.kind? i = some k ∧ t'.kind? (F.map i) = some k'
    ∧ F.Akin i k k'
  spans : ∀ i, F.known i → t'.span (F.map i) = t.span i
  rest : ∀ i, F.start.tree.Has i → ¬ F.own i → ¬ F.notable i → t.kind? i = F.start.tree.kind? i
  rest' : ∀ i, F.start'.tree.Has i → (∀ j, F.own j → F.map j ≠ i) →
    (∀ j, F.notable j → F.map j ≠ i) → t'.kind? i = F.start'.tree.kind? i

namespace Tree.Twin

variable {F : Pairing} {t t' : Tree} {i j id : Nat} {k : NodeKind} {n : Node}

/-- What was done to the trees need not be the same. -/
theorem of_nodes {u u' : Tree} (h : t.Twin F t') (hu : u.nodes = t.nodes)
    (hu' : u'.nodes = t'.nodes) : u.Twin F u' := by
  obtain ⟨nodes, log⟩ := u
  obtain ⟨nodes', log'⟩ := u'
  cases hu
  cases hu'
  exact ⟨h.next, h.fresh, h.node, h.up, h.inner, h.known, h.spans, h.rest, h.rest'⟩

/-! ### What is the same on both sides -/

theorem map_size (h : t.Twin F t') : F.map t.size = t'.size := by simpa using h.next 0

theorem own_size (h : t.Twin F t') : F.own t.size := by simpa using h.fresh 0

theorem map_lt (h : t.Twin F t') (hi : F.At t.size i) : F.map i < t'.size := by
  rw [← h.map_size]
  exact F.mono i t.size hi.1 h.own_size hi.2

theorem ne_size (h : t.Twin F t') (hi : F.known i) : i ≠ t.size ∧ F.map i ≠ t'.size :=
  ⟨fun he => Pairing.not_known h.own_size (he ▸ hi),
    fun he => F.apart t.size i h.own_size hi (h.map_size.trans he.symm)⟩

theorem kind? (h : t.Twin F t') (hi : F.own i) :
    t'.kind? (F.map i) = (t.kind? i).map (·.rename F.map) := by
  rw [Tree.kind?, Tree.kind?, h.node i hi, Option.map_map, Option.map_map]
  rfl

theorem span (h : t.Twin F t') (hi : F.own i) : t'.span (F.map i) = t.span i := by
  rw [Tree.span, Tree.span, h.node i hi, Option.map_map]
  rfl

/-- The place of a node, whether both runs made it or know it. -/
theorem spanOf (h : t.Twin F t') (hi : F.own i ∨ F.known i) : t'.span (F.map i) = t.span i :=
  hi.elim h.span (h.spans i)

theorem parent? (h : t.Twin F t') (hi : F.own i) :
    t'.parent? (F.map i) = (t.parent? i).map F.map := by
  rw [Tree.parent?, Tree.parent?, h.node i hi, Option.bind_map, Option.map_bind]
  rfl

theorem hasErrors (h : t.Twin F t') (hi : F.own i) : t'.hasErrors (F.map i) = t.hasErrors i := by
  rw [Tree.hasErrors, Tree.hasErrors, h.node i hi, Option.any_map]
  rfl

theorem expr? (h : t.Twin F t') (hi : F.own i) :
    t'.expr? (F.map i) = (t.expr? i).map (·.rename F.map) := by
  rw [Tree.expr?, Tree.expr?, h.kind? hi, Option.bind_map, Option.map_bind]
  exact congrArg _ (funext fun k => k.expr?_rename F.map)

theorem stmt? (h : t.Twin F t') (hi : F.own i) :
    t'.stmt? (F.map i) = (t.stmt? i).map (·.rename F.map) := by
  rw [Tree.stmt?, Tree.stmt?, h.kind? hi, Option.bind_map, Option.map_bind]
  exact congrArg _ (funext fun k => k.stmt?_rename F.map)

theorem scope? (h : t.Twin F t') (hi : F.own i) :
    t'.scope? (F.map i) = (t.scope? i).map (·.rename F.map) := by
  rw [Tree.scope?, Tree.scope?, h.kind? hi, Option.bind_map, Option.map_bind]
  exact congrArg _ (funext fun k => k.scope?_rename F.map)

theorem var? (h : t.Twin F t') (hi : F.own i) :
    t'.var? (F.map i) = (t.var? i).map (·.rename F.map) := by
  rw [Tree.var?, Tree.var?, h.kind? hi, Option.bind_map, Option.map_bind]
  exact congrArg _ (funext fun k => k.var?_rename F.map)

theorem exprType (h : t.Twin F t') (hi : F.own i) : t'.exprType (F.map i) = t.exprType i := by
  rw [Tree.exprType, Tree.exprType, h.expr? hi, Option.map_map]
  rfl

theorem isConstant (h : t.Twin F t') (hi : F.own i) :
    t'.isConstant (F.map i) = t.isConstant i := by
  rw [Tree.isConstant, Tree.isConstant, h.expr? hi, Option.any_map]
  rfl

theorem untyped (h : t.Twin F t') (hi : F.own i) : t'.untyped (F.map i) = t.untyped i := by
  rw [Tree.untyped, Tree.untyped, h.hasErrors hi, h.exprType hi]

theorem isLive (h : t.Twin F t') (hi : F.own i) : t'.isLive (F.map i) = t.isLive i := by
  rw [Tree.isLive, Tree.isLive, h.stmt? hi, Option.all_map]
  rfl

theorem isDeadDeclaration (h : t.Twin F t') (hi : F.own i) :
    t'.isDeadDeclaration (F.map i) = t.isDeadDeclaration i := by
  rw [Tree.isDeadDeclaration, Tree.isDeadDeclaration, h.stmt? hi, Option.any_map]
  refine congrArg (Option.any · _) (funext fun s => ?_)
  rcases s with ⟨kind, info⟩
  cases kind <;> rfl

/-- The name and the type of a variable, whether both runs made it or know it. -/
theorem varNameTy (h : t.Twin F t') (hi : F.own i ∨ F.known i) :
    (t'.var? (F.map i)).map (fun v => (v.name, v.ty)) = (t.var? i).map fun v => (v.name, v.ty) := by
  rcases hi with hi | hi
  · rw [h.var? hi, Option.map_map]
    rfl
  · obtain ⟨k, k', hk, hk', ha⟩ := h.known i hi
    rw [Tree.var?, Tree.var?, hk, hk']
    exact ha.var?

theorem varTy (h : t.Twin F t') (hi : F.own i ∨ F.known i) :
    (t'.var? (F.map i)).map (·.ty) = (t.var? i).map (·.ty) := by
  have hboth := congrArg (Option.map Prod.snd) (h.varNameTy hi)
  rw [Option.map_map, Option.map_map] at hboth
  exact hboth

/-- The nodes above a node, with any bounds that are large enough. -/
theorem climb (h : t.Twin F t') {steps steps' : Nat} (hi : F.At t.size i)
    (hsteps : t.size - i ≤ steps) (hsteps' : t'.size - F.map i ≤ steps') :
    t'.climb steps' (some (F.map i)) = (t.climb steps (some i)).map F.map := by
  have hlt := hi.2
  have hlt' := h.map_lt hi
  induction steps generalizing i steps' with
  | zero => omega
  | succ steps ih =>
    obtain ⟨steps', rfl⟩ := Nat.exists_eq_succ_of_ne_zero (n := steps') (by omega)
    rw [Nat.succ_eq_add_one, Tree.climb, Tree.climb, List.map_cons, h.parent? hi.1]
    refine congrArg (F.map i :: ·) ?_
    rcases hq : t.parent? i with _ | q
    · cases steps <;> cases steps' <;> rfl
    · -- the parent was made later, so that less is left above it
      obtain ⟨hiq, hat⟩ := h.up i q hi.1 hq
      have hmono := F.mono i q hi.1 hat.1 hiq
      exact ih hat (by omega) (by omega) hat.2 (h.map_lt hat)

theorem ancestors (h : t.Twin F t') (hi : F.own i) :
    t'.ancestors (F.map i) = (t.ancestors i).map F.map := by
  rw [Tree.ancestors, Tree.ancestors, h.parent? hi]
  rcases hq : t.parent? i with _ | q
  · cases t.size <;> cases t'.size <;> rfl
  · exact h.climb (h.up i q hi hq).2 (Nat.sub_le _ _) (Nat.sub_le _ _)

theorem own_of_mem_climb (h : t.Twin F t') (steps : Nat) {next : Option NodeId}
    (hn : ∀ q ∈ next, F.own q) : ∀ a ∈ t.climb steps next, F.own a := by
  induction steps generalizing next with
  | zero => simp [Tree.climb]
  | succ steps ih =>
    rcases next with _ | q
    · simp [Tree.climb]
    · intro a ha
      rcases List.mem_cons.mp ha with rfl | ha
      · exact hn a rfl
      · exact ih (fun r hr => (h.up q r (hn q rfl) hr).2.1) a ha

/-- A label is reached by a live jump on both sides or on none. -/
theorem reachedByLiveJump (h : t.Twin F t') (hi : F.own i) :
    t'.reachedByLiveJump (F.map i) = t.reachedByLiveJump i := by
  unfold Tree.reachedByLiveJump
  rw [h.stmt? hi]
  rcases hs : t.stmt? i with _ | ⟨kind, info⟩
  · rfl
  · cases kind with
    | label name jumps =>
      simp only [Option.map_some, StmtNode.rename, StmtKind.rename]
      have hown : ∀ j ∈ jumps, F.own j := fun j hj =>
        (h.inner i _ hi (Tree.stmt?_eq_some.mp hs) j hj).1
      have hlive : ∀ j ∈ jumps, (F.map j :: t'.ancestors (F.map j)).all t'.isLive
          = (j :: t.ancestors j).all t.isLive := by
        intro j hj
        rw [h.ancestors (hown j hj), ← List.map_cons, List.all_map, Bool.eq_iff_iff,
          List.all_eq_true, List.all_eq_true]
        refine forall₂_congr fun a ha => ?_
        rw [Function.comp_apply, h.isLive]
        rcases List.mem_cons.mp ha with rfl | ha
        · exact hown a hj
        · exact h.own_of_mem_climb t.size (fun q hq => (h.up j q (hown j hj) hq).2.1) a ha
      rw [List.any_map, Bool.eq_iff_iff, List.any_eq_true, List.any_eq_true]
      exact exists_congr fun j => and_congr_right fun hj => by rw [Function.comp_apply, hlive j hj]
    | _ => rfl

/-! ### Doing the same on both sides -/

/-- A node that both runs made is changed in the same way. -/
theorem modify {g g' : Node → Node} (h : t.Twin F t') (hid : F.own id)
    (hg : ∀ n, g' (n.rename F.map) = (g n).rename F.map) (hp : ∀ n, (g n).parent = n.parent)
    (hm : ∀ n, t.node? id = some n → ∀ j ∈ (g n).kind.mentions, F.At t.size j) :
    (t.modify id g).Twin F (t'.modify (F.map id) g') := by
  have hother : ∀ i, i ≠ id → (t.modify id g).kind? i = t.kind? i := fun i hi => by
    rw [Tree.kind?, node?_modify_ne _ hi, Tree.kind?]
  have hother' : ∀ i, i ≠ F.map id → (t'.modify (F.map id) g').kind? i = t'.kind? i := fun i hi => by
    rw [Tree.kind?, node?_modify_ne _ hi, Tree.kind?]
  constructor
  case next =>
    rw [size_modify, size_modify]
    exact h.next
  case fresh =>
    rw [size_modify]
    exact h.fresh
  case node =>
    intro i hi
    rw [node?_modify, node?_modify, h.node i hi]
    by_cases he : i = id
    · subst he
      rw [if_pos rfl, if_pos rfl, Option.map_map, Option.map_map]
      exact congrArg (Option.map · _) (funext hg)
    · rw [if_neg he, if_neg fun heq => he (Pairing.own_inj hi hid heq)]
  case up =>
    intro i q hi hq
    rw [size_modify]
    refine h.up i q hi ?_
    rw [Tree.parent?, node?_modify] at hq
    split at hq
    · rw [Option.bind_map] at hq
      rw [Tree.parent?, ← hq]
      exact congrArg _ (funext fun n => (hp n).symm)
    · exact hq
  case inner =>
    intro i k hi hk
    rw [size_modify]
    by_cases he : i = id
    · subst he
      obtain ⟨n, hn, rfl⟩ := kind?_eq_some.mp hk
      rw [node?_modify_self] at hn
      obtain ⟨n₀, hn₀, rfl⟩ := Option.map_eq_some_iff.mp hn
      exact hm n₀ hn₀
    · exact h.inner i k hi (hother i he ▸ hk)
  case known =>
    intro i hi
    rw [hother i fun he => Pairing.not_known hid (he ▸ hi),
      hother' _ fun he => F.apart id i hid hi he.symm]
    exact h.known i hi
  case spans =>
    intro i hi
    have hne : i ≠ id := fun he => Pairing.not_known hid (he ▸ hi)
    rw [Tree.span, node?_modify_ne _ (F.apart id i hid hi).symm, Tree.span, node?_modify_ne _ hne]
    exact h.spans i hi
  case rest =>
    intro i hhas hi hn
    rw [hother i fun he => hi (he ▸ hid)]
    exact h.rest i hhas hi hn
  case rest' =>
    intro i hhas hi hn
    rw [hother' i fun he => hi id hid he.symm]
    exact h.rest' i hhas hi hn

/-- Marks on both sides. -/
theorem markOne (h : t.Twin F t') (hid : F.own id) :
    (t.modify id fun n => { n with hasErrors := true }).Twin F
      (t'.modify (F.map id) fun n => { n with hasErrors := true }) :=
  h.modify hid (fun _ => rfl) (fun _ => rfl) fun n hn => h.inner id n.kind hid (kind?_of_node? hn)

theorem markUpward (h : t.Twin F t') {steps steps' : Nat} (hid : F.At t.size id)
    (hsteps : t.size - id ≤ steps) (hsteps' : t'.size - F.map id ≤ steps') :
    (t.markUpward steps (some id)).Twin F (t'.markUpward steps' (some (F.map id))) := by
  have hlt := hid.2
  have hlt' := h.map_lt hid
  induction steps generalizing id steps' t t' with
  | zero => omega
  | succ steps ih =>
    obtain ⟨steps', rfl⟩ := Nat.exists_eq_succ_of_ne_zero (n := steps') (by omega)
    obtain ⟨n, hn⟩ := exists_node? hlt
    have hn' := h.node id hid.1
    rw [hn, Option.map_some] at hn'
    rw [Nat.succ_eq_add_one, Tree.markUpward, Tree.markUpward, hn, hn']
    have hmarked := h.markOne hid.1
    rcases hq : n.parent with _ | q
    · simp only [hq, Node.rename, Option.map_none]
      cases steps <;> cases steps' <;> exact hmarked
    · obtain ⟨hiq, hat⟩ := h.up id q hid.1 ((parent?_of_node? hn).trans hq)
      have hmono := F.mono id q hid.1 hat.1 hiq
      simp only [hq, Node.rename, Option.map_some]
      refine ih hmarked ?_ ?_ ?_ ?_ ?_ <;> simp only [size_modify]
      · exact hat
      · omega
      · omega
      · exact hat.2
      · exact h.map_lt hat

theorem markError (h : t.Twin F t') (hid : F.At t.size id) :
    (t.markError id).Twin F (t'.markError (F.map id)) :=
  (h.markUpward hid (Nat.sub_le _ _) (Nat.sub_le _ _)).of_nodes rfl rfl

theorem kind?_alloc_known (h : t.Twin F t') (kind : NodeKind) (span : Span) (hi : F.known i) :
    (t.alloc kind span).1.kind? i = t.kind? i
      ∧ (t'.alloc (kind.rename F.map) span).1.kind? (F.map i) = t'.kind? (F.map i) := by
  obtain ⟨hne, hne'⟩ := h.ne_size hi
  exact ⟨by rw [kind?_alloc, if_neg hne], by rw [kind?_alloc, if_neg hne']⟩

theorem has_children_rename (h : t.Twin F t') (kind : NodeKind)
    (hc : ∀ c ∈ kind.children, F.At t.size c) : ∀ c ∈ (kind.rename F.map).children, t'.Has c := by
  intro c hmem
  rw [NodeKind.children_rename] at hmem
  obtain ⟨d, hd, rfl⟩ := List.mem_map.mp hmem
  exact h.map_lt (hc d hd)

theorem contains_children_rename {kind : NodeKind} (hc : ∀ c ∈ kind.children, F.own c)
    (hi : F.own i) :
    (kind.rename F.map).children.contains (F.map i) = kind.children.contains i := by
  rw [NodeKind.children_rename, Bool.eq_iff_iff, List.contains_iff_mem, List.contains_iff_mem,
    List.mem_map]
  constructor
  · rintro ⟨c, hmem, heq⟩
    exact Pairing.own_inj (hc c hmem) hi heq ▸ hmem
  · exact fun hmem => ⟨i, hmem, rfl⟩

theorem any_hasErrors_rename (h : t.Twin F t') {kind : NodeKind}
    (hc : ∀ c ∈ kind.children, F.own c) :
    (kind.rename F.map).children.any t'.hasErrors = kind.children.any t.hasErrors := by
  rw [NodeKind.children_rename, List.any_map, Bool.eq_iff_iff, List.any_eq_true, List.any_eq_true]
  exact exists_congr fun c => and_congr_right fun hmem => by
    rw [Function.comp_apply, h.hasErrors (hc c hmem)]

/-- A node that is made on both sides takes up nodes that belong together. -/
theorem node?_alloc_rename (h : t.Twin F t') (kind : NodeKind) (span : Span)
    (hc : ∀ c ∈ kind.children, F.At t.size c) (hi : F.own i) :
    (t'.alloc (kind.rename F.map) span).1.node? (F.map i)
      = ((t.alloc kind span).1.node? i).map (Node.rename F.map) := by
  have hhas : ∀ c ∈ kind.children, t.Has c := fun c hmem => (hc c hmem).2
  have hhas' := h.has_children_rename kind hc
  have hown : ∀ c ∈ kind.children, F.own c := fun c hmem => (hc c hmem).1
  rcases Nat.lt_trichotomy i t.size with hlt | rfl | hgt
  · rw [node?_alloc kind span hhas hlt, node?_alloc _ span hhas' (h.map_lt ⟨hi, hlt⟩),
      h.node i hi, Option.map_map, Option.map_map]
    refine congrArg (Option.map · _) (funext fun n => ?_)
    rw [Function.comp_apply, Function.comp_apply, contains_children_rename hown hi]
    cases kind.children.contains i <;> simp [Node.adoptedBy, Node.rename, h.map_size]
  · rw [h.map_size, node?_alloc_self kind span hhas, node?_alloc_self _ span hhas',
      h.any_hasErrors_rename hown]
    rfl
  · obtain ⟨j, rfl⟩ := Nat.exists_eq_add_of_le hgt
    have hnone : (t.alloc kind span).1.node? (t.size + 1 + j) = none := by
      rw [node?_eq_none, size_alloc]
      omega
    have hnone' : (t'.alloc (kind.rename F.map) span).1.node? (F.map (t.size + 1 + j)) = none := by
      rw [node?_eq_none, size_alloc, Nat.add_assoc, h.next]
      omega
    rw [Nat.succ_eq_add_one, hnone, hnone']
    rfl

/-- Both runs make a node out of nodes that they made. -/
theorem alloc (h : t.Twin F t') (kind : NodeKind) (span : Span)
    (hm : ∀ c ∈ kind.mentions, F.At t.size c) :
    (t.alloc kind span).1.Twin F (t'.alloc (kind.rename F.map) span).1 := by
  have hc : ∀ c ∈ kind.children, F.At t.size c := fun c hmem =>
    hm c (kind.children_subset_mentions hmem)
  have hhas : ∀ c ∈ kind.children, t.Has c := fun c hmem => (hc c hmem).2
  constructor
  case next =>
    intro j
    rw [size_alloc, size_alloc, Nat.add_assoc, Nat.add_assoc]
    exact h.next (1 + j)
  case fresh =>
    intro j
    rw [size_alloc, Nat.add_assoc]
    exact h.fresh (1 + j)
  case node => exact fun i hi => h.node?_alloc_rename kind span hc hi
  case up =>
    intro i q hi hq
    rw [parent?_alloc kind span hhas] at hq
    rw [size_alloc]
    split at hq
    · rename_i hmem
      cases hq
      exact ⟨(hc i hmem).2, h.own_size, Nat.lt_succ_self _⟩
    · obtain ⟨hlt, hat⟩ := h.up i q hi hq
      exact ⟨hlt, hat.mono (Nat.le_succ _)⟩
  case inner =>
    intro i k hi hk j hj
    rw [size_alloc]
    rw [kind?_alloc] at hk
    split at hk
    · cases hk
      exact (hm j hj).mono (Nat.le_succ _)
    · exact (h.inner i k hi hk j hj).mono (Nat.le_succ _)
  case known =>
    intro i hi
    obtain ⟨hk, hk'⟩ := h.kind?_alloc_known kind span hi
    rw [hk, hk']
    exact h.known i hi
  case spans =>
    intro i hi
    obtain ⟨k, k', hk, hk', -⟩ := h.known i hi
    have hg := grows_alloc (P := fun _ => True) (t := t) kind span
    have hg' := grows_alloc (P := fun _ => True) (t := t') (kind.rename F.map) span
    rw [hg.span (has_of_kind? hk), hg'.span (has_of_kind? hk')]
    exact h.spans i hi
  case rest =>
    intro i hhas hi hn
    have hne : i ≠ t.size := fun he => hi (he ▸ h.own_size)
    rw [kind?_alloc, if_neg hne]
    exact h.rest i hhas hi hn
  case rest' =>
    intro i hhas hi hn
    rw [kind?_alloc, if_neg fun he => hi t.size h.own_size (h.map_size.trans he.symm)]
    exact h.rest' i hhas hi hn

theorem at_size (h : t.Twin F t') (kind : NodeKind) (span : Span) :
    F.At (t.alloc kind span).1.size t.size :=
  ⟨h.own_size, by rw [size_alloc]; exact Nat.lt_succ_self _⟩

theorem allocError (h : t.Twin F t') (span : Span) :
    (t.allocError span).1.Twin F (t'.allocError span).1 := by
  have hnew := (h.alloc .error span
    (by simp [NodeKind.mentions, NodeKind.children])).markOne h.own_size
  rw [h.map_size] at hnew
  exact hnew.of_nodes rfl rfl

/-- Both runs note a use on a node that they know. -/
theorem modifyKnown {g g' : NodeKind → NodeKind} (h : t.Twin F t') (hid : F.notable id)
    (hg : ∀ k k', F.Akin id k k' → F.Akin id (g k) (g' k')) :
    (t.modifyKind id g).Twin F (t'.modifyKind (F.map id) g') := by
  have hknown := F.known_of_notable id hid
  have hown : ∀ i, F.own i → i ≠ id ∧ F.map i ≠ F.map id := fun i hi =>
    ⟨fun he => Pairing.not_known hi (he ▸ hknown), F.apart i id hi hknown⟩
  have hsize : ∀ (u : Tree) d (f : NodeKind → NodeKind), (u.modifyKind d f).size = u.size :=
    fun u d f => size_modifyKind f
  have hother : ∀ (u : Tree) d (f : NodeKind → NodeKind) i, i ≠ d →
      (u.modifyKind d f).node? i = u.node? i := fun u d f i hi => by rw [node?_modifyKind, if_neg hi]
  have hspan : ∀ (u : Tree) d (f : NodeKind → NodeKind) i, (u.modifyKind d f).span i = u.span i := by
    intro u d f i
    rw [Tree.span, node?_modifyKind]
    split
    · rw [Option.map_map]
      rfl
    · rfl
  constructor
  case next =>
    rw [hsize, hsize]
    exact h.next
  case fresh =>
    rw [hsize]
    exact h.fresh
  case node =>
    intro i hi
    rw [hother _ _ _ _ (hown i hi).1, hother _ _ _ _ (hown i hi).2]
    exact h.node i hi
  case up =>
    intro i q hi hq
    rw [Tree.parent?, hother _ _ _ _ (hown i hi).1] at hq
    rw [hsize]
    exact h.up i q hi hq
  case inner =>
    intro i k hi hk
    rw [Tree.kind?, hother _ _ _ _ (hown i hi).1] at hk
    rw [hsize]
    exact h.inner i k hi hk
  case known =>
    intro i hi
    obtain ⟨k, k', hk, hk', ha⟩ := h.known i hi
    by_cases he : i = id
    · subst he
      obtain ⟨n, hn, rfl⟩ := kind?_eq_some.mp hk
      obtain ⟨n', hn', rfl⟩ := kind?_eq_some.mp hk'
      refine ⟨g n.kind, g' n'.kind, ?_, ?_, hg _ _ ha⟩
      · rw [Tree.kind?, node?_modifyKind, if_pos rfl, hn]
        rfl
      · rw [Tree.kind?, node?_modifyKind, if_pos rfl, hn']
        rfl
    · refine ⟨k, k', ?_, ?_, ha⟩
      · rw [Tree.kind?, hother _ _ _ _ he]
        exact hk
      · rw [Tree.kind?, hother _ _ _ _ fun heq => he (F.inj i id hi hknown heq)]
        exact hk'
  case spans =>
    intro i hi
    rw [hspan, hspan]
    exact h.spans i hi
  case rest =>
    intro i hhas hi hn
    have hne : i ≠ id := fun he => hn (he ▸ hid)
    rw [Tree.kind?, hother _ _ _ _ hne]
    exact h.rest i hhas hi hn
  case rest' =>
    intro i hhas hi hn
    rw [Tree.kind?, hother _ _ _ _ fun he => hn id hid he.symm]
    exact h.rest' i hhas hi hn

/-- Both runs change the kind of a node that they made. -/
theorem modifyKind {g g' : NodeKind → NodeKind} (h : t.Twin F t') (hid : F.own id)
    (hg : ∀ k, g' (k.rename F.map) = (g k).rename F.map)
    (hm : ∀ k, ∀ j ∈ (g k).mentions, j ∈ k.mentions ∨ F.At t.size j) :
    (t.modifyKind id g).Twin F (t'.modifyKind (F.map id) g') := by
  have hnodes : (t.changeKind id g).Twin F (t'.changeKind (F.map id) g') := by
    refine h.modify hid (fun n => by rw [Node.rename, Node.rename, hg]) (fun _ => rfl)
      fun n hn j hj => ?_
    rcases hm n.kind j hj with hj | hj
    · exact h.inner id _ hid (kind?_of_node? hn) j hj
    · exact hj
  exact hnodes.of_nodes rfl rfl

/-- Both runs note a use of a variable. -/
theorem addReference (h : t.Twin F t') (binding : Binding) (use : NodeId)
    (hb : ∀ d ∈ binding.decl?, F.own d ∨ F.notable d) :
    (addReference t binding use).Twin F
      (Lsl.addReference t' (binding.rename F.map) (F.map use)) := by
  unfold Lsl.addReference
  rw [Binding.decl?_rename]
  rcases hd : binding.decl? with _ | d
  · exact h
  · simp only [Option.map_some]
    rcases hb d (by rw [hd]; rfl) with hown | hnotable
    · refine h.modifyKind hown (fun k => k.mapVariable_rename F.map fun v => ?_) fun k j hj => .inl ?_
      · simp [Variable.rename]
      · cases k with
        | stmt s =>
          rcases s with ⟨kind, info⟩
          cases kind <;> exact hj
        | _ => exact hj
    · have huses : ∀ (k : NodeKind) (x : NodeId),
          (k.mapVariable fun v => { v with references := v.references ++ [x] }).uses
            = k.uses ++ if k.var?.isSome then [x] else [] := by
        intro k x
        cases k with
        | stmt s =>
          rcases s with ⟨kind, info⟩
          cases kind <;> simp [NodeKind.mapVariable, NodeKind.uses, NodeKind.var?]
        | _ => simp [NodeKind.mapVariable, NodeKind.uses, NodeKind.var?]
      refine h.modifyKnown hnotable fun k k' ha => ha.note (k.noted_mapVariable use)
        (k'.noted_mapVariable (F.map use)) (huses k use) ?_
      have hvar : k'.var?.isSome = k.var?.isSome := by
        have := congrArg Option.isSome ha.var?
        rwa [Option.isSome_map, Option.isSome_map] at this
      rw [huses, hvar]
      split <;> rfl

/-- Both runs note a call of a function. -/
theorem addCall (h : t.Twin F t') (use : NodeId) (hid : F.notable id) :
    (t.modifyFunction id fun f => { f with references := f.references ++ [use] }).Twin F
      (t'.modifyFunction (F.map id) fun f => { f with references := f.references ++ [F.map use] }) := by
  have huses : ∀ (k : NodeKind) (x : NodeId),
      (k.mapFunction fun f => { f with references := f.references ++ [x] }).uses
        = k.uses ++ if k.sort = .function then [x] else [] := by
    intro k x
    cases k <;> simp [NodeKind.mapFunction, NodeKind.uses, NodeKind.sort]
  refine h.modifyKnown hid fun k k' ha => ha.note (k.noted_mapFunction use)
    (k'.noted_mapFunction (F.map use)) (huses k use) ?_
  rw [huses, ha.sort]
  split <;> rfl

/-- Both runs note a jump on a label. -/
theorem addJump (h : t.Twin F t') {label jump : Nat} (hl : F.own label) (hj : F.At t.size jump) :
    (addJump t label jump).Twin F (Lsl.addJump t' (F.map label) (F.map jump)) := by
  rw [addJump_eq, addJump_eq]
  refine h.modifyKind hl (fun k => k.mapStmt_rename F.map fun s => ?_) fun k i hi => ?_
  · rcases s with ⟨kind, info⟩
    cases kind <;> simp [StmtNode.withJump, StmtNode.rename, StmtKind.rename]
  · cases k with
    | stmt s =>
      rcases s with ⟨kind, info⟩
      cases kind with
      | label name jumps =>
        rcases List.mem_append.mp hi with hi | hi
        · exact .inl hi
        · exact .inr (List.mem_singleton.mp hi ▸ hj)
      | _ => exact .inl hi
    | _ => exact .inl hi

theorem modifyStmt {g g' : StmtNode → StmtNode} (h : t.Twin F t') (hid : F.own id)
    (hg : ∀ s, g' (s.rename F.map) = (g s).rename F.map)
    (hm : ∀ s, (NodeKind.stmt (g s)).mentions = (NodeKind.stmt s).mentions) :
    (t.modifyStmt id g).Twin F (t'.modifyStmt (F.map id) g') := by
  refine h.modifyKind hid (fun k => k.mapStmt_rename F.map hg) fun k j hj => .inl ?_
  cases k with
  | stmt s => exact hm s ▸ hj
  | _ => exact hj

theorem unsetLast? (h : t.Twin F t') {last : Option NodeId} (hl : ∀ i ∈ last, F.own i) :
    (t.unsetLast? last).Twin F (t'.unsetLast? (last.map F.map)) := by
  rcases last with _ | last
  · exact h
  · refine h.modifyStmt (hl last rfl) (fun s => rfl) fun s => ?_
    rcases s with ⟨kind, info⟩
    cases kind <;> rfl

theorem place (h : t.Twin F t') (hid : F.own id) (info : StmtInfo) (always : Bool) :
    (t.place id info always).Twin F (t'.place (F.map id) (info.rename F.map) always) := by
  refine h.modifyStmt hid (fun s => ?_) fun s => ?_
  · rcases s with ⟨kind, i⟩
    cases always <;> cases kind <;> rfl
  · rcases s with ⟨kind, i⟩
    cases always <;> cases kind <;> rfl

/-- **Both runs append a statement alike.** -/
theorem append {tr tr₁ tr₁' : Tracker} {facts : Facts} {t₁ t₁' : Tree} {reach reach' : Reach}
    (h : t.Twin F t') (hid : F.own id) (hst : ∀ s ∈ tr.statements, F.own s)
    (happ : t.append tr id facts = ⟨t₁, tr₁, .ok reach⟩)
    (happ' : t'.append (tr.rename F.map) (F.map id) (facts.rename F.map) = ⟨t₁', tr₁', .ok reach'⟩) :
    t₁.Twin F t₁' ∧ tr₁' = tr₁.rename F.map := by
  obtain ⟨s, c, hs, hc, rfl, rfl⟩ := append_ok happ
  obtain ⟨s', c', hs', hc', rfl, rfl⟩ := append_ok happ'
  have hclass := tr.classify_rename F.map id (t.span id) facts.returns (t.reachedByLiveJump id)
  rw [hc] at hclass
  rw [h.span hid, h.reachedByLiveJump hid] at hc'
  obtain ⟨rfl, hreach⟩ := Prod.mk.inj (hc'.symm.trans hclass)
  subst hreach
  have hlast : (tr.rename F.map).statements.getLast? = tr.statements.getLast?.map F.map :=
    List.getLast?_map
  rw [Facts.jumpOf_rename, Option.isSome_map, hlast, Tree.placeInfo_rename, Tracker.record_rename]
  exact ⟨(h.unsetLast? fun i hi => hst i (List.mem_of_getLast? hi)).place hid _ _, rfl⟩

end Tree.Twin

end Lsl
