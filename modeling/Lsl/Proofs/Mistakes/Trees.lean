/- # Trees of two runs

In the trees of two runs, nodes that belong together lie in nodes that belong
together, and statements are live or dead alike. So a label is reached by a live jump
in both trees or in none, and what is appended to a scope is classified alike. What
happens elsewhere in the trees does not matter, as long as it only notes on these
nodes what refers to them.

Key definitions: `NodeKind.bare`, `Tree.Keeps`, `Tree.Linked`.
Key theorems: `Tree.Linked.keeps`, `Tree.Linked.ancestors`, `Tree.Linked.append`,
`Tree.Linked.alloc`.
-/
import Lsl.Proofs.Mistakes.Links
import Lsl.Proofs.Lockstep.Rename

namespace Lsl

variable {n : String} {L M : Links} {P : NodeId → NodeId → Prop}

/-! ### Notes on declarations -/

/-- A node without what refers to it, but for the jumps to a label. -/
def NodeKind.bare (k : NodeKind) : NodeKind :=
  (k.mapVariable Variable.outline).mapFunction fun f => { f with references := [] }

namespace NodeKind

variable {k k' : NodeKind}

theorem gist_bare (k : NodeKind) : k.bare.gist = k.gist := by
  rw [bare, gist_mapFunction, gist_mapVariable]

theorem gist_of_bare (h : k'.bare = k.bare) : k'.gist = k.gist := by
  rw [← gist_bare, h, gist_bare]

theorem heading_bare (k : NodeKind) : k.bare.heading = k.heading := by
  cases k with
  | stmt s =>
    rcases s with ⟨kind, info⟩
    cases kind <;> rfl
  | _ => rfl

theorem heading_of_bare (h : k'.bare = k.bare) : k'.heading = k.heading := by
  rw [← heading_bare, h, heading_bare]

theorem expr?_bare (k : NodeKind) : k.bare.expr? = k.expr? := by
  cases k with
  | stmt s =>
    rcases s with ⟨kind, info⟩
    cases kind <;> rfl
  | _ => rfl

theorem expr?_of_bare (h : k'.bare = k.bare) : k'.expr? = k.expr? := by
  rw [← expr?_bare, h, expr?_bare]

theorem children_bare (k : NodeKind) : k.bare.children = k.children := by
  cases k with
  | stmt s =>
    rcases s with ⟨kind, info⟩
    cases kind <;> rfl
  | _ => rfl

theorem children_of_bare (h : k'.bare = k.bare) : k'.children = k.children := by
  rw [← children_bare, h, children_bare]

theorem bare_mapVariable (k : NodeKind) (use : NodeId) :
    (k.mapVariable fun v => { v with references := v.references ++ [use] }).bare = k.bare := by
  cases k with
  | stmt s =>
    rcases s with ⟨kind, info⟩
    cases kind <;> rfl
  | _ => rfl

theorem bare_mapFunction (k : NodeKind) (use : NodeId) :
    (k.mapFunction fun f => { f with references := f.references ++ [use] }).bare = k.bare := by
  cases k <;> rfl

theorem gist_withJump (k : NodeKind) (jump : NodeId) : (k.mapStmt (·.withJump jump)).gist
    = { k.gist with jumps := k.gist.jumps.map (· ++ [jump]) } := by
  cases k with
  | stmt s =>
    rcases s with ⟨kind, info⟩
    cases kind <;> rfl
  | _ => rfl

theorem gist_placed (k : NodeKind) (info : StmtInfo) (always : Bool) :
    (k.mapStmt (·.placed info always)).gist
      = { k.gist with place := k.gist.place.map fun _ => (info.index, info.scopeId, info.dead) } := by
  cases k with
  | stmt s =>
    rcases s with ⟨kind, info'⟩
    cases kind <;> cases always <;> rfl
  | _ => rfl

theorem gist_passed (k : NodeKind) (stays : Bool) : (k.mapStmt (·.passed stays)).gist = k.gist := by
  cases k with
  | stmt s =>
    rcases s with ⟨kind, info⟩
    cases kind <;> rfl
  | _ => rfl

theorem heading_placed (k : NodeKind) (info : StmtInfo) (always : Bool) :
    (k.mapStmt (·.placed info always)).heading = k.heading := by
  cases k with
  | stmt s =>
    rcases s with ⟨kind, info'⟩
    cases kind <;> cases always <;> rfl
  | _ => rfl

theorem heading_passed (k : NodeKind) (stays : Bool) :
    (k.mapStmt (·.passed stays)).heading = k.heading := by
  cases k with
  | stmt s =>
    rcases s with ⟨kind, info⟩
    cases kind <;> rfl
  | _ => rfl

/-- Declarations of the same variable, which is not called `n`, or of none. -/
def SameVar (n : String) (k k' : NodeKind) : Prop :=
  k'.heading.var = k.heading.var ∧ ∀ x ∈ k.heading.var, x.1 ≠ n

end NodeKind

namespace Tree

variable {t t' t'' t₁ t₁' : Tree} {i j : NodeId}

/-- Declarations are what they were. -/
def Heads (t t₁ : Tree) : Prop :=
  ∀ i k, t.kind? i = some k → ∃ k₁, t₁.kind? i = some k₁ ∧ k₁.heading = k.heading

theorem Grows.heads {P : Nat → Prop} (h : t.Grows P t₁) : t.Heads t₁ := fun i k hk => by
  obtain ⟨k₁, hk₁, ho⟩ := h.kind? hk
  exact ⟨k₁, hk₁, NodeKind.heading_of_outline ho⟩

/-- Nodes are what they were, but for notes on declarations. -/
def Keeps (t t₁ : Tree) : Prop :=
  ∀ i m, t.node? i = some m → ∃ k, t₁.node? i = some { m with kind := k } ∧ k.bare = m.kind.bare

namespace Keeps

theorem refl (t : Tree) : t.Keeps t := fun _ m hm => ⟨m.kind, hm, rfl⟩

theorem trans (h : t.Keeps t') (g : t'.Keeps t'') : t.Keeps t'' := fun i m hm => by
  obtain ⟨k, hk, hbare⟩ := h i m hm
  obtain ⟨k', hk', hbare'⟩ := g i _ hk
  exact ⟨k', hk', hbare'.trans hbare⟩

theorem heads (h : t.Keeps t₁) : t.Heads t₁ := fun i k hk => by
  obtain ⟨m, hm, rfl⟩ := kind?_eq_some.mp hk
  obtain ⟨k, hk, hbare⟩ := h i m hm
  exact ⟨k, kind?_of_node? hk, NodeKind.heading_of_bare hbare⟩

theorem has (h : t.Keeps t₁) (hi : t.Has i) : t₁.Has i := by
  obtain ⟨m, hm⟩ := exists_node? hi
  obtain ⟨k, hk, -⟩ := h i m hm
  exact has_of_node? hk

theorem size_le (h : t.Keeps t₁) : t.size ≤ t₁.size := by
  by_contra hlt
  exact Nat.lt_irrefl t₁.size (h.has (Nat.lt_of_not_le hlt))

theorem hasErrors (h : t.Keeps t₁) (hi : t.Has i) : t₁.hasErrors i = t.hasErrors i := by
  obtain ⟨m, hm⟩ := exists_node? hi
  obtain ⟨k, hk, -⟩ := h i m hm
  rw [hasErrors_of_node? hm, hasErrors_of_node? hk]

theorem span (h : t.Keeps t₁) (hi : t.Has i) : t₁.span i = t.span i := by
  obtain ⟨m, hm⟩ := exists_node? hi
  obtain ⟨k, hk, -⟩ := h i m hm
  simp only [Tree.span, hm, hk, Option.map_some]

theorem expr? (h : t.Keeps t₁) (hi : t.Has i) : t₁.expr? i = t.expr? i := by
  obtain ⟨m, hm⟩ := exists_node? hi
  obtain ⟨k, hk, hbare⟩ := h i m hm
  unfold Tree.expr?
  rw [kind?_of_node? hm, kind?_of_node? hk]
  exact NodeKind.expr?_of_bare hbare

theorem exprType (h : t.Keeps t₁) (hi : t.Has i) : t₁.exprType i = t.exprType i := by
  unfold Tree.exprType
  rw [h.expr? hi]

theorem untyped (h : t.Keeps t₁) (hi : t.Has i) : t₁.untyped i = t.untyped i := by
  unfold Tree.untyped
  rw [h.hasErrors hi, h.exprType hi]

/-- What happens to later nodes does not matter. -/
theorem later (h : t.Keeps t') (hg : ∀ i, t.Has i → t₁.node? i = t'.node? i) : t.Keeps t₁ :=
  fun i m hm => by
    rw [hg i (has_of_node? hm)]
    exact h i m hm

/-- A new node takes up later nodes only. -/
theorem alloc (h : t.Keeps t') (kind : NodeKind) (span : Span)
    (hc : ∀ c ∈ kind.children, t.size ≤ c ∧ t'.Has c) : t.Keeps (t'.alloc kind span).1 :=
  h.later fun i hi => by
    have hnot : kind.children.contains i = false := by
      by_contra hmem
      have := (hc i (by simpa using hmem)).1
      omega
    rw [node?_alloc kind span (fun c hm => (hc c hm).2) (h.has hi), hnot]
    cases t'.node? i <;> rfl

theorem allocError (h : t.Keeps t') (span : Span) : t.Keeps (t'.allocError span).1 :=
  h.later fun _ hi => node?_allocError span (h.has hi)

/-- A later node that lies in no other is marked. -/
theorem markError (h : t.Keeps t') (hi : t.size ≤ i) (hp : t'.parent? i = none) :
    t.Keeps (t'.markError i) :=
  h.later fun j hj => by
    rw [node?_markError_of_orphan hp, if_neg (by omega)]

theorem modifyKind (h : t.Keeps t') (d : NodeId) {f : NodeKind → NodeKind}
    (hf : ∀ k, (f k).bare = k.bare) : t.Keeps (t'.modifyKind d f) :=
  h.trans fun i m hm => by
    rw [node?_modifyKind, hm]
    split
    · exact ⟨f m.kind, rfl, hf _⟩
    · exact ⟨m.kind, rfl, rfl⟩

theorem addReference (h : t.Keeps t') (binding : Binding) (reference : NodeId) :
    t.Keeps (addReference t' binding reference) := by
  unfold Lsl.addReference
  split
  · exact h.modifyKind _ fun k => k.bare_mapVariable reference
  · exact h

theorem noteUse (t : Tree) (id : NodeId) (e : ExprNode) : t.Keeps (t.noteUse id (.expr e)) := by
  unfold Tree.noteUse
  split
  · exact (Keeps.refl t).addReference _ _
  · exact (Keeps.refl t).modifyKind _ fun k => k.bare_mapFunction _
  · rename_i hkind
    cases hkind
  · exact .refl t

end Keeps

/-! ### Linked trees -/

/-- What is linked belongs together in two trees, and no variable there is called `n`. -/
structure Linked (n : String) (L : Links) (t t' : Tree) : Prop where
  vars : ∀ i j, L.vars i j → ∃ k k', t.kind? i = some k ∧ t'.kind? j = some k' ∧ k.SameVar n k'
  functions : ∀ i j, L.functions i j → ∃ f f', t.function? i = some f ∧ t'.function? j = some f'
    ∧ f'.returnType = f.returnType ∧ List.Forall₂ L.vars f.params f'.params
  nodes : ∀ i j, L.nodes i j → ∃ m m', t.node? i = some m ∧ t'.node? j = some m'
    ∧ m.kind.gist.Linked L.nodes m'.kind.gist ∧ Option.Rel L.nodes m.parent m'.parent
  unique : Relator.BiUnique L.nodes
  /-- Inside a body, nodes are made before those they lie in. -/
  up : ∀ i j : Nat, L.nodes i j →
    (∀ p : Nat, t.parent? i = some p → i < p) ∧ ∀ p : Nat, t'.parent? j = some p → j < p

namespace Linked

theorem has (h : t.Linked n L t') (hij : L.nodes i j) : t.Has i ∧ t'.Has j := by
  obtain ⟨m, m', hm, hm', -⟩ := h.nodes i j hij
  exact ⟨has_of_node? hm, has_of_node? hm'⟩

theorem parent? (h : t.Linked n L t') (hij : L.nodes i j) :
    Option.Rel L.nodes (t.parent? i) (t'.parent? j) := by
  obtain ⟨m, m', hm, hm', -, hparent⟩ := h.nodes i j hij
  rwa [parent?_of_node? hm, parent?_of_node? hm']

/-- A node and the one that belongs to it are among nodes that belong together, or not. -/
theorem mem_iff (h : t.Linked n L t') (hij : L.nodes i j) {is js : List NodeId}
    (hs : List.Forall₂ L.nodes is js) : i ∈ is ↔ j ∈ js :=
  List.rel_mem h.unique hij hs

theorem has_all (h : t.Linked n L t') {is js : List NodeId} (hs : List.Forall₂ L.nodes is js) :
    (∀ i ∈ is, t.Has i) ∧ ∀ j ∈ js, t'.Has j := by
  induction hs with
  | nil => exact ⟨fun _ hi => (by cases hi), fun _ hj => (by cases hj)⟩
  | cons hij _ ih => exact ⟨List.forall_mem_cons.mpr ⟨(h.has hij).1, ih.1⟩,
      List.forall_mem_cons.mpr ⟨(h.has hij).2, ih.2⟩⟩

/-! ### Links of declarations -/

theorem heads_vars (h : t.Linked n L t') (hh : t.Heads t₁) (hh' : t'.Heads t₁') (hij : L.vars i j) :
    ∃ k k', t₁.kind? i = some k ∧ t₁'.kind? j = some k' ∧ k.SameVar n k' := by
  obtain ⟨k, k', hk, hk', hvar⟩ := h.vars i j hij
  obtain ⟨k₁, hk₁, he⟩ := hh i k hk
  obtain ⟨k₁', hk₁', he'⟩ := hh' j k' hk'
  refine ⟨k₁, k₁', hk₁, hk₁', ?_⟩
  rwa [NodeKind.SameVar, he, he']

theorem heads_functions (h : t.Linked n L t') (hh : t.Heads t₁) (hh' : t'.Heads t₁')
    (hij : L.functions i j) : ∃ f f', t₁.function? i = some f ∧ t₁'.function? j = some f'
      ∧ f'.returnType = f.returnType ∧ List.Forall₂ L.vars f.params f'.params := by
  have hkeep : ∀ {t t₁ : Tree} {i f}, t.Heads t₁ → t.function? i = some f →
      ∃ f₁, t₁.function? i = some f₁ ∧ f₁.returnType = f.returnType ∧ f₁.params = f.params := by
    intro t t₁ i f hh hf
    obtain ⟨k, hk, he⟩ := hh i _ (function?_eq_some.mp hf)
    have he' : k.heading = (NodeKind.function f).heading.rename id := by
      rw [Heading.rename_id, he]
    obtain ⟨f₁, hf₁, -, htype, hparams⟩ := NodeKind.function?_of_heading id he' rfl
    exact ⟨f₁, by rw [function?, hk]; exact hf₁, htype, by rw [hparams, List.map_id]⟩
  obtain ⟨f, f', hf, hf', htype, hparams⟩ := h.functions i j hij
  obtain ⟨g, hg, hgtype, hgparams⟩ := hkeep hh hf
  obtain ⟨g', hg', hgtype', hgparams'⟩ := hkeep hh' hf'
  exact ⟨g, g', hg, hg', by rw [hgtype, hgtype', htype], by rwa [hgparams, hgparams']⟩

/-- Variables that belong together have the same name and type, or are none. -/
theorem var? (h : t.Linked n L t') (hij : L.vars i j) :
    (t'.var? j).map (fun v => (v.name, v.ty)) = (t.var? i).map fun v => (v.name, v.ty) := by
  obtain ⟨k, k', hk, hk', hvar, -⟩ := h.vars i j hij
  rw [Tree.var?, Tree.var?, hk, hk']
  exact hvar

/-- A variable that belongs to another is not called `n`. -/
theorem var?_name (h : t.Linked n L t') (hij : L.vars i j) {v : Variable} (hv : t.var? i = some v) :
    v.name ≠ n := by
  obtain ⟨k, k', hk, -, -, hname⟩ := h.vars i j hij
  rw [Tree.var?, hk, Option.bind_some] at hv
  exact hname (v.name, v.ty) (by rw [NodeKind.heading, hv]; rfl)

theorem varType (h : t.Linked n L t') (hij : L.vars i j) :
    (t'.var? j).map (·.ty) = (t.var? i).map (·.ty) := by
  have hvar := congrArg (Option.map Prod.snd) (h.var? hij)
  rwa [Option.map_map, Option.map_map] at hvar

theorem addVar (h : t.Linked n L t') {k k' : NodeKind} (hk : t.kind? i = some k)
    (hk' : t'.kind? j = some k') (hvar : k.SameVar n k') :
    t.Linked n (L.addVar i j) t' where
  vars a b hab := by
    rcases hab with hab | ⟨rfl, rfl⟩
    · exact h.vars a b hab
    · exact ⟨k, k', hk, hk', hvar⟩
  functions a b hab := by
    obtain ⟨f, f', hf, hf', htype, hparams⟩ := h.functions a b hab
    exact ⟨f, f', hf, hf', htype, hparams.imp fun _ _ => .inl⟩
  nodes := h.nodes
  unique := h.unique
  up := h.up

theorem addFunction (h : t.Linked n L t') {f f' : FunctionNode} (hf : t.function? i = some f)
    (hf' : t'.function? j = some f') (htype : f'.returnType = f.returnType)
    (hparams : List.Forall₂ L.vars f.params f'.params) : t.Linked n (L.addFunction i j) t' where
  vars := h.vars
  functions a b hab := by
    rcases hab with hab | ⟨rfl, rfl⟩
    · exact h.functions a b hab
    · exact ⟨f, f', hf, hf', htype, hparams⟩
  nodes := h.nodes
  unique := h.unique
  up := h.up

/-! ### Outside bodies -/

theorem outer (h : t.Linked n L t') : t.Linked n L.outer t' where
  vars := h.vars
  functions := h.functions
  nodes _ _ hij := hij.elim
  unique := ⟨fun _ _ _ hij => hij.elim, fun _ _ _ hij => hij.elim⟩
  up _ _ hij := hij.elim

/-- Outside bodies all that matters is what declarations are. -/
theorem heads (h : t.Linked n L t') (ho : L.Outer) (hh : t.Heads t₁) (hh' : t'.Heads t₁') :
    t₁.Linked n L t₁' where
  vars _ _ hij := h.heads_vars hh hh' hij
  functions _ _ hij := h.heads_functions hh hh' hij
  nodes i j hij := (ho i j hij).elim
  unique := h.unique
  up i j hij := (ho i j hij).elim

/-! ### What nodes say -/

theorem gist (h : t.Linked n L t') (hij : L.nodes i j) : ∃ k k', t.kind? i = some k
    ∧ t'.kind? j = some k' ∧ k.gist.Linked L.nodes k'.gist := by
  obtain ⟨m, m', hm, hm', hgist, -⟩ := h.nodes i j hij
  exact ⟨m.kind, m'.kind, kind?_of_node? hm, kind?_of_node? hm', hgist⟩

theorem place (h : t.Linked n L t') (hij : L.nodes i j) :
    (t'.stmt? j).map (fun s => (s.info.index, s.info.scopeId, s.info.dead))
      = (t.stmt? i).map fun s => (s.info.index, s.info.scopeId, s.info.dead) := by
  obtain ⟨k, k', hk, hk', hgist⟩ := h.gist hij
  rw [Tree.stmt?, Tree.stmt?, hk, hk']
  exact hgist.place

theorem isLive (h : t.Linked n L t') (hij : L.nodes i j) : t'.isLive j = t.isLive i := by
  have hlive : ∀ (t : Tree) i, t.isLive i
      = ((t.stmt? i).map fun s => (s.info.index, s.info.scopeId, s.info.dead)).all
          (!·.2.2.isDead) := by
    intro t i
    rw [Tree.isLive]
    rcases t.stmt? i with _ | s <;> rfl
  rw [hlive, hlive, h.place hij]

/-- Scopes that belong together have the same number, return alike and jump alike. -/
theorem scope? (h : t.Linked n L t') (hij : L.nodes i j) :
    Option.Rel (fun c c' => c'.scopeId = c.scopeId
      ∧ List.Forall₂ (ConstantJump.Linked L.nodes) c.constantJumps c'.constantJumps
      ∧ c'.hasReturnPath = c.hasReturnPath) (t.scope? i) (t'.scope? j) := by
  obtain ⟨k, k', hk, hk', hgist⟩ := h.gist hij
  have hscope := hgist.scope
  rw [Tree.scope?, Tree.scope?, hk, hk', Option.bind_some, Option.bind_some]
  unfold NodeKind.gist at hscope
  cases hc : k.scope? <;> cases hc' : k'.scope? <;> simp only [hc, hc', Option.map_none,
    Option.map_some] at hscope
  · exact .none
  · cases hscope
  · cases hscope
  · cases hscope with
    | some hscope => exact .some hscope

/-! ### Ancestors -/

theorem climb (h : t.Linked n L t') (steps steps' : Nat) {next next' : Option NodeId}
    (hnext : Option.Rel L.nodes next next') (hsteps : ∀ i : Nat, next = some i → t.size ≤ steps + i)
    (hsteps' : ∀ j : Nat, next' = some j → t'.size ≤ steps' + j) :
    List.Forall₂ L.nodes (t.climb steps next) (t'.climb steps' next') := by
  induction steps generalizing steps' next next' with
  | zero =>
    cases hnext with
    | none =>
      cases steps' <;> exact .nil
    | some hij =>
      have hhas := (h.has hij).1
      have hle := hsteps _ rfl
      omega
  | succ steps ih =>
    cases hnext with
    | none => cases steps' <;> exact .nil
    | @some i j hij =>
      have hle := hsteps i rfl
      have hle' := hsteps' j rfl
      obtain ⟨hi, hj⟩ := h.has hij
      obtain ⟨steps', rfl⟩ := Nat.exists_eq_succ_of_ne_zero (n := steps') (by omega)
      obtain ⟨hup, hup'⟩ := h.up i j hij
      refine .cons hij (ih steps' (h.parent? hij) (fun p hp => ?_) fun p hp => ?_)
      · have hlt := hup p hp
        omega
      · have hlt := hup' p hp
        omega

/-- The nodes above nodes that belong together belong together. -/
theorem ancestors (h : t.Linked n L t') (hij : L.nodes i j) :
    List.Forall₂ L.nodes (t.ancestors i) (t'.ancestors j) :=
  h.climb _ _ (h.parent? hij) (fun _ _ => Nat.le_add_right _ _) fun _ _ => Nat.le_add_right _ _

theorem liveThroughout (h : t.Linked n L t') {is js : List NodeId}
    (hs : List.Forall₂ L.nodes is js) : js.all t'.isLive = is.all t.isLive :=
  all_linked hs fun _ _ hij => h.isLive hij

theorem reachedByLiveJump_eq (t : Tree) (i : NodeId) : t.reachedByLiveJump i
    = (((t.stmt? i).bind (·.kind.jumps?)).getD []).any fun j => (j :: t.ancestors j).all t.isLive := by
  unfold reachedByLiveJump
  rcases t.stmt? i with _ | ⟨kind, info⟩
  · rfl
  · cases kind <;> rfl

/-- **A label is reached in both trees or in none.** -/
theorem reachedByLiveJump (h : t.Linked n L t') (hij : L.nodes i j) :
    t'.reachedByLiveJump j = t.reachedByLiveJump i := by
  obtain ⟨k, k', hk, hk', hgist⟩ := h.gist hij
  have hjumps : List.Forall₂ L.nodes (k.gist.jumps.getD []) (k'.gist.jumps.getD []) := by
    have hrel := hgist.jumps
    generalize k.gist.jumps = jumps at hrel
    generalize k'.gist.jumps = jumps' at hrel
    cases hrel with
    | none => exact .nil
    | some hs => exact hs
  rw [reachedByLiveJump_eq, reachedByLiveJump_eq, stmt?, stmt?, hk, hk']
  change ((k'.gist.jumps.getD []).any _) = ((k.gist.jumps.getD []).any _)
  exact any_linked hjumps fun _ _ hj => h.liveThroughout (.cons hj (h.ancestors hj))

/-! ### Changes -/

/-- Notes on nodes that belong together, made on both sides. -/
theorem step (h : t.Linked n L t') (hh : t.Heads t₁) (hh' : t'.Heads t₁')
    (hn : ∀ i j m m', L.nodes i j → t.node? i = some m → t'.node? j = some m' →
      m.kind.gist.Linked L.nodes m'.kind.gist → ∃ k k', t₁.node? i = some { m with kind := k }
        ∧ t₁'.node? j = some { m' with kind := k' } ∧ k.gist.Linked L.nodes k'.gist) :
    t₁.Linked n L t₁' where
  vars _ _ hij := h.heads_vars hh hh' hij
  functions _ _ hij := h.heads_functions hh hh' hij
  nodes i j hij := by
    obtain ⟨m, m', hm, hm', hgist, hparent⟩ := h.nodes i j hij
    obtain ⟨k, k', hk, hk', hgist⟩ := hn i j m m' hij hm hm' hgist
    exact ⟨_, _, hk, hk', hgist, hparent⟩
  unique := h.unique
  up i j hij := by
    obtain ⟨m, m', hm, hm', hgist, -⟩ := h.nodes i j hij
    obtain ⟨k, k', hk, hk', -⟩ := hn i j m m' hij hm hm' hgist
    have hup := h.up i j hij
    rw [parent?_of_node? hm, parent?_of_node? hm'] at hup
    rwa [parent?_of_node? hk, parent?_of_node? hk']

/-- **What happens elsewhere in the trees does not matter**, on either side. -/
theorem keeps (h : t.Linked n L t') (hk : t.Keeps t₁) (hk' : t'.Keeps t₁') : t₁.Linked n L t₁' :=
  h.step hk.heads hk'.heads fun i j m m' _ hm hm' hgist => by
    obtain ⟨k, hk, hbare⟩ := hk i m hm
    obtain ⟨k', hk', hbare'⟩ := hk' j m' hm'
    refine ⟨k, k', hk, hk', ?_⟩
    rwa [NodeKind.gist_of_bare hbare, NodeKind.gist_of_bare hbare']

/-- Nodes belong together from now on that lie in no other. -/
theorem addNode (h : t.Linked n L t') {m m' : Node} (hm : t.node? i = some m)
    (hm' : t'.node? j = some m') (hparent : m.parent = none) (hparent' : m'.parent = none)
    (hfresh : ∀ b, ¬ L.nodes i b) (hfresh' : ∀ a, ¬ L.nodes a j)
    (hgist : m.kind.gist.Linked L.nodes m'.kind.gist) : t.Linked n (L.addNode i j) t' where
  vars := h.vars
  functions := h.functions
  nodes a b hab := by
    rcases hab with hab | ⟨rfl, rfl⟩
    · obtain ⟨m, m', hm, hm', hgist, hparent⟩ := h.nodes a b hab
      exact ⟨m, m', hm, hm', hgist.mono fun _ _ => .inl, optionRel_mono hparent fun _ _ => .inl⟩
    · refine ⟨m, m', hm, hm', hgist.mono fun _ _ => .inl, ?_⟩
      rw [hparent, hparent']
      exact .none
  unique := Links.unique_addNode h.unique hfresh hfresh'
  up a b hab := by
    rcases hab with hab | ⟨rfl, rfl⟩
    · exact h.up a b hab
    · rw [parent?_of_node? hm, parent?_of_node? hm', hparent, hparent']
      exact ⟨fun _ hp => (by cases hp), fun _ hp => (by cases hp)⟩

/-- New nodes have no link yet. -/
theorem fresh (h : t.Linked n L t') : (∀ b, ¬ L.nodes t.size b) ∧ ∀ a, ¬ L.nodes a t'.size :=
  ⟨fun _ hb => Nat.lt_irrefl _ (h.has hb).1, fun _ ha => Nat.lt_irrefl _ (h.has ha).2⟩

/-- **New nodes belong together** if what lies in them does. -/
theorem alloc (h : t.Linked n L t') {kind kind' : NodeKind} (span span' : Span)
    (hc : List.Forall₂ L.nodes kind.children kind'.children)
    (hgist : kind.gist.Linked L.nodes kind'.gist) :
    (t.alloc kind span).1.Linked n (L.addNode t.size t'.size) (t'.alloc kind' span').1 := by
  obtain ⟨hhas, hhas'⟩ := h.has_all hc
  -- what was there is adopted on both sides or on none
  have hold : ∀ {a b}, L.nodes a b → ∃ m m', (t.alloc kind span).1.node? a = some m
      ∧ (t'.alloc kind' span').1.node? b = some m' ∧ m.kind.gist.Linked L.nodes m'.kind.gist
      ∧ ((m.parent = some t.size ∧ m'.parent = some t'.size)
        ∨ m.parent = t.parent? a ∧ m'.parent = t'.parent? b) := by
    intro a b hab
    obtain ⟨m, m', hm, hm', hgist, hparent⟩ := h.nodes a b hab
    have hmem : kind'.children.contains b = kind.children.contains a := by
      rw [Bool.eq_iff_iff, List.contains_iff_mem, List.contains_iff_mem]
      exact (h.mem_iff hab hc).symm
    have ha := node?_alloc kind span hhas (has_of_node? hm)
    have hb := node?_alloc kind' span' hhas' (has_of_node? hm')
    rw [hm, Option.map_some] at ha
    rw [hm', Option.map_some, hmem] at hb
    refine ⟨_, _, ha, hb, by rwa [Node.adoptedBy_kind, Node.adoptedBy_kind], ?_⟩
    rw [Node.adoptedBy_parent, Node.adoptedBy_parent, parent?_of_node? hm, parent?_of_node? hm']
    cases kind.children.contains a with
    | true => exact .inl ⟨rfl, rfl⟩
    | false => exact .inr ⟨rfl, rfl⟩
  have hnew := node?_alloc_self kind span hhas
  have hnew' := node?_alloc_self kind' span' hhas'
  refine ⟨fun _ _ hij => h.heads_vars (grows_alloc (P := fun _ => True) kind span).heads
      (grows_alloc (P := fun _ => True) kind' span').heads hij,
    fun _ _ hij => h.heads_functions (grows_alloc (P := fun _ => True) kind span).heads
      (grows_alloc (P := fun _ => True) kind' span').heads hij, ?_, ?_, ?_⟩
  · rintro a b (hab | ⟨rfl, rfl⟩)
    · obtain ⟨m, m', hm, hm', hgist, hparent⟩ := hold hab
      refine ⟨m, m', hm, hm', hgist.mono fun _ _ => .inl, ?_⟩
      obtain ⟨hp, hp'⟩ | ⟨hp, hp'⟩ := hparent
      · rw [hp, hp']
        exact .some (.inr ⟨rfl, rfl⟩)
      · rw [hp, hp']
        exact optionRel_mono (h.parent? hab) fun _ _ => .inl
    · exact ⟨_, _, hnew, hnew', hgist.mono fun _ _ => .inl, .none⟩
  · exact Links.unique_addNode h.unique h.fresh.1 h.fresh.2
  · rintro a b (hab | ⟨rfl, rfl⟩)
    · obtain ⟨m, m', hm, hm', -, hparent⟩ := hold hab
      obtain ⟨ha, hb⟩ := h.has hab
      rw [parent?_of_node? hm, parent?_of_node? hm']
      obtain ⟨hp, hp'⟩ | ⟨hp, hp'⟩ := hparent
      · rw [hp, hp']
        exact ⟨fun p hp => Option.some.inj hp ▸ ha, fun p hp => Option.some.inj hp ▸ hb⟩
      · rw [hp, hp']
        exact h.up a b hab
    · rw [parent?_of_node? hnew, parent?_of_node? hnew']
      exact ⟨fun _ hp => (by cases hp), fun _ hp => (by cases hp)⟩

/-! ### Statements -/

/-- A jump is noted on labels that belong together. -/
theorem addJump (h : t.Linked n L t') {label label' jump jump' : NodeId}
    (hlabel : L.nodes label label') (hjump : L.nodes jump jump') :
    (addJump t label jump).Linked n L (addJump t' label' jump') := by
  have hnoted : ∀ (label jump : Nat) {t : Tree} {i : Nat} {m : Node}, t.node? i = some m →
      ∃ k, (Lsl.addJump t label jump).node? i = some { m with kind := k }
        ∧ k = if i = label then m.kind.mapStmt (·.withJump jump) else m.kind := by
    intro label jump t i m hm
    rw [addJump_eq, node?_modifyKind, hm]
    split <;> exact ⟨_, rfl, rfl⟩
  have hheads : ∀ (t : Tree) (label jump : Nat), t.Heads (Lsl.addJump t label jump) :=
    fun t label jump => (grows_noteUse (P := fun _ => True)
      (.stmt ⟨.jump "" (some label) false, {}⟩) : t.Grows _ (t.noteUse jump _)).heads
  refine h.step (hheads t label jump) (hheads t' label' jump') fun i j m m' hij hm hm' hgist => ?_
  obtain ⟨k, hk, rfl⟩ := hnoted label jump hm
  obtain ⟨k', hk', rfl⟩ := hnoted label' jump' hm'
  refine ⟨_, _, hk, hk', ?_⟩
  by_cases hi : i = label
  · have hj : j = label' := h.unique.2 hij (hi ▸ hlabel)
    rw [if_pos hi, if_pos hj, NodeKind.gist_withJump, NodeKind.gist_withJump]
    exact ⟨optionRel_map hgist.jumps fun _ _ hs => List.rel_append hs (.cons hjump .nil),
      hgist.place, hgist.scope⟩
  · have hj : j ≠ label' := fun hj => hi (h.unique.1 hij (hj ▸ hlabel))
    rw [if_neg hi, if_neg hj]
    exact hgist

/-- **A statement is appended alike on both sides.** -/
theorem append (h : t.Linked n L t') {tr tr' tr₁ tr₁' : Tracker} {id id' : NodeId}
    {facts facts' : Facts} {reach reach' : Reach} (htr : tr.Linked L.nodes tr')
    (hid : L.nodes id id') (hfacts : facts.Linked L.nodes facts')
    (happ : t.append tr id facts = ⟨t₁, tr₁, .ok reach⟩)
    (happ' : t'.append tr' id' facts' = ⟨t₁', tr₁', .ok reach'⟩) :
    t₁.Linked n L t₁' ∧ tr₁.Linked L.nodes tr₁' := by
  obtain ⟨s, c, -, hc, rfl, rfl⟩ := append_ok happ
  obtain ⟨s', c', -, hc', rfl, rfl⟩ := append_ok happ'
  rw [hfacts.returns, h.reachedByLiveJump hid] at hc'
  obtain ⟨htr₁, hreach⟩ := htr.classify hid (t.span id) (t'.span id') facts.returns
    (t.reachedByLiveJump id)
  rw [hc, hc'] at htr₁ hreach
  obtain rfl : reach' = reach := hreach
  have hjump : Option.Rel (ConstantJump.Linked L.nodes) (facts.jumpOf reach') (facts'.jumpOf reach') := by
    unfold Facts.jumpOf
    split
    · exact .none
    · exact hfacts.jump
  have hheads : ∀ (t : Tree) (last : Option NodeId) (id : Nat) (info : StmtInfo) (always : Bool),
      t.Heads ((t.unsetLast? last).place id info always) := by
    intro t last id info always i k hk
    obtain ⟨m, hm, rfl⟩ := kind?_eq_some.mp hk
    obtain ⟨stays, hp⟩ := node?_place id last info always hm
    refine ⟨_, kind?_of_node? hp, ?_⟩
    split
    · exact NodeKind.heading_placed m.kind info always
    · exact NodeKind.heading_passed m.kind stays
  refine ⟨h.step (hheads _ _ _ _ _) (hheads _ _ _ _ _) fun i j m m' hij hm hm' hgist => ?_,
    htr₁.record hjump⟩
  obtain ⟨stays, hp⟩ := node?_place id tr.statements.getLast? (placeInfo tr id facts reach')
    (facts.jumpOf reach').isSome hm
  obtain ⟨stays', hp'⟩ := node?_place id' tr'.statements.getLast? (placeInfo tr' id' facts' reach')
    (facts'.jumpOf reach').isSome hm'
  refine ⟨_, _, hp, hp', ?_⟩
  by_cases hi : i = id
  · have hj : j = id' := h.unique.2 hij (hi ▸ hid)
    simp only [if_pos hi, if_pos hj, NodeKind.gist_placed]
    refine ⟨hgist.jumps, ?_, hgist.scope⟩
    simp only [hgist.place, placeInfo, htr.nextIndex, htr.scopeId]
  · have hj : j ≠ id' := fun hj => hi (h.unique.1 hij (hj ▸ hid))
    simp only [if_neg hi, if_neg hj, NodeKind.gist_passed]
    exact hgist

end Linked

end Tree

end Lsl
