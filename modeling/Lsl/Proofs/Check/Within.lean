/- # What lies within what

A node lies within those that its parents lead to. As a node gets its parent
once and for all, and only from a node that has none itself, what lies within a
node is settled as soon as the node is made. Functions and states apart, which
are filled later, what lies within a node was made before it.

Key definitions: `Tree.Within`, `Tree.Adopts`, `Tree.LiveThroughout`.
Key theorems: `Tree.Within.of_adopts`, `Act.adopts`,
`Tree.Shaped.inBody_of_within`.
-/
import Lsl.Proofs.Check.ScriptActs

namespace Lsl

variable {script : Script} {library : Catalog} {t t' : Tree} {N : Nat → Prop} {a b c : Nat}

namespace Tree

/-- A node lies within itself, its parent, the parent of that one and so on. -/
def Within (t : Tree) : NodeId → NodeId → Prop :=
  Relation.ReflTransGen fun c q => t.parent? c = some q

/-- A node is live together with all statements around it. -/
def LiveThroughout (t : Tree) (id : NodeId) : Prop := ∀ a, t.Within id a → t.isLive a = true

theorem Within.refl (a : Nat) : t.Within a a := Relation.ReflTransGen.refl

theorem Within.trans (h : t.Within a b) (g : t.Within b c) : t.Within a c :=
  Relation.ReflTransGen.trans h g

theorem Within.of_parent (h : t.parent? a = some b) : t.Within a b := Relation.ReflTransGen.single h

theorem Within.head (h : t.parent? a = some b) (g : t.Within b c) : t.Within a c :=
  Relation.ReflTransGen.head h g

/-- A node without a parent lies within itself only. -/
theorem Within.eq_of_root (h : t.Within a b) (ha : t.parent? a = none) : a = b := by
  rcases Relation.ReflTransGen.cases_head h with rfl | ⟨q, hq, -⟩
  · rfl
  · rw [ha] at hq
    cases hq

/-- Of two nodes around a third, one lies within the other. -/
theorem Within.total (h : t.Within a b) (g : t.Within a c) : t.Within b c ∨ t.Within c b :=
  Relation.ReflTransGen.total_of_right_unique
    (fun _ _ _ h g => Option.some.inj (h.symm.trans g)) h g

/-- A node around another lies within the root that the other lies within. -/
theorem Within.of_root (h : t.Within a b) (hb : t.parent? b = none) (g : t.Within a c) :
    t.Within c b := by
  rcases h.total g with hbc | hcb
  · rw [hbc.eq_of_root hb]
    exact .refl _
  · exact hcb

/-- What lies within a node other than itself lies within one of its children. -/
theorem Within.cases_tail (h : t.Within a b) : a = b ∨ ∃ q, t.Within a q ∧ t.parent? q = some b := by
  rcases Relation.ReflTransGen.cases_tail h with rfl | ⟨q, hq, hb⟩
  · exact .inl rfl
  · exact .inr ⟨q, hq, hb⟩

theorem Within.has (h : t.Within a b) (hb : t.Has b) : t.Has a := by
  rcases Relation.ReflTransGen.cases_head h with rfl | ⟨q, hq, -⟩
  · exact hb
  · exact has_of_parent? hq

theorem LiveThroughout.within (h : t.LiveThroughout a) (hb : t.Within a b) : t.LiveThroughout b :=
  fun c hc => h c (hb.trans hc)

theorem LiveThroughout.isLive (h : t.LiveThroughout a) : t.isLive a = true := h a (.refl a)

/-- A live part of a node that is live throughout. -/
theorem LiveThroughout.of_parent (h : t.LiveThroughout b) (hp : t.parent? a = some b)
    (ha : t.isLive a = true) : t.LiveThroughout a := by
  intro c hc
  rcases Relation.ReflTransGen.cases_head hc with rfl | ⟨q, hq, hqc⟩
  · exact ha
  · rw [hp] at hq
    cases hq
    exact h c hqc

/-- The nodes above a node lie around it. -/
theorem within_of_mem_climb (steps : Nat) (next : Option NodeId) (hnext : ∀ q ∈ next, t.Within a q) :
    ∀ b ∈ t.climb steps next, t.Within a b := by
  induction steps generalizing next with
  | zero => simp [climb]
  | succ steps ih =>
    rcases next with _ | q
    · simp [climb]
    · intro b hb
      rcases List.mem_cons.mp hb with rfl | hb
      · exact hnext b rfl
      · exact ih (t.parent? q) (fun r hr => (hnext q rfl).trans (.of_parent hr)) b hb

theorem within_of_mem_ancestors (h : b ∈ t.ancestors a) : t.Within a b :=
  within_of_mem_climb t.size (t.parent? a) (fun _ hq => .of_parent hq) b h

/-! ### Adoption -/

/-- Nodes keep their parents, and those without one may get one of the nodes in
`N`, which have none. -/
structure Adopts (N : Nat → Prop) (t t' : Tree) : Prop where
  keep : ∀ c q, t.parent? c = some q → t'.parent? c = some q
  new : ∀ c q, t'.parent? c = some q → t.parent? c = some q ∨ (N q ∧ t'.parent? q = none)

theorem Retains.adopts (h : t.Retains t') : t.Adopts N t' where
  keep c q hq := by rw [h.parent?, hq]
  new c q hq := .inl (by rw [← h.parent?, hq])

theorem Adopts.mono {N' : Nat → Prop} (h : t.Adopts N t') (hN : ∀ q, N q → N' q) :
    t.Adopts N' t' where
  keep := h.keep
  new c q hq := (h.new c q hq).imp_right fun hq => ⟨hN q hq.1, hq.2⟩

/-- A node that becomes the parent of nodes without one. -/
theorem adopts_of_parent? {q : Nat} {cs : List NodeId} (hp : ∀ i, t'.parent? i
      = if i ∈ cs then some q else t.parent? i)
    (hcs : ∀ c ∈ cs, t.parent? c = some q ∨ t.parent? c = none) (hq : q ∉ cs)
    (hq' : t.parent? q = none) : t.Adopts (· = q) t' where
  keep c r hr := by
    rw [hp]
    split
    · rename_i hc
      rcases hcs c hc with h | h
      · rw [← h, hr]
      · rw [h] at hr
        cases hr
    · exact hr
  new c r hr := by
    rw [hp] at hr
    split at hr
    · cases hr
      exact .inr ⟨rfl, by rw [hp, if_neg hq, hq']⟩
    · exact .inl hr

theorem adopts_alloc {kind : NodeKind} (hc : ∀ c ∈ kind.children, t.Has c ∧ t.parent? c = none)
    (span : Span) : t.Adopts (· = t.size) (t.alloc kind span).1 :=
  adopts_of_parent? (fun _ => parent?_alloc kind span fun c hmem => (hc c hmem).1)
    (fun c hmem => .inr (hc c hmem).2) (fun h => Nat.lt_irrefl _ (hc _ h).1)
    (parent?_of_size_le (Nat.le_refl _))

theorem Within.adopts (h : t.Within a b) (hn : t.Adopts N t') : t'.Within a b :=
  Relation.ReflTransGen.mono hn.keep _ _ h

/-- Nothing gets into a node that adopts nothing. -/
theorem Within.of_adopts (h : t'.Within a b) (hn : t.Adopts N t') (hb : ¬ N b) : t.Within a b := by
  induction h using Relation.ReflTransGen.head_induction_on with
  | refl => exact .refl _
  | head hq hqb ih =>
    rcases hn.new _ _ hq with hq | ⟨hN, hroot⟩
    · exact .head hq ih
    · exact absurd (Within.eq_of_root hqb hroot ▸ hN) hb

end Tree

/-! ### Acts adopt -/

variable {p p' : Progress}

theorem Progress.mem_roots_of_loose {r : NodeId} (h : r ∈ p.loose) : r ∈ p.roots :=
  List.mem_append_left _ (List.mem_append_left _ h)

theorem Progress.mem_roots_of_statements {l : Level} (hl : l ∈ p.stack) {s : NodeId}
    (hs : s ∈ l.tracker.statements) : s ∈ p.roots :=
  List.mem_append_left _ (List.mem_append_right _
    (List.mem_flatMap.mpr ⟨l, hl, List.mem_append_left _ hs⟩))

section Adopts

variable (h : p.run.tree.Shaped script library p.roots)
include h

theorem Act.adopts_make {kind : NodeKind} {rest : List NodeId} (span : Span)
    (hl : p.loose = kind.children ++ rest) (wrong : Bool) :
    p.run.tree.Adopts (· = p.run.tree.size)
      ((p.run.tree.alloc kind span).1.settle wrong p.run.tree.size kind) := by
  have hkeep := Tree.retains_settle (t := (p.run.tree.alloc kind span).1) wrong p.run.tree.size kind
  have hnew : p.run.tree.Adopts (· = p.run.tree.size) (p.run.tree.alloc kind span).1 :=
    Tree.adopts_alloc (fun c hc =>
      h.orphans c (Progress.mem_roots_of_loose (hl ▸ List.mem_append_left _ hc))) span
  exact ⟨fun c q hq => by rw [hkeep.parent?, hnew.keep c q hq],
    fun c q hq => by simpa only [hkeep.parent?] using hnew.new c q (hkeep.parent? c ▸ hq)⟩

theorem Act.adopts_closeScope {tr : Tracker} {aside : List NodeId} {outer : List Level}
    (kind : ScopeKind) (span : Span) (hst : p.stack = ⟨tr, aside⟩ :: outer) :
    p.run.tree.Adopts (· = p.run.tree.size)
      (p.run.tree.alloc (.scope (tr.scope kind)) span).1 := by
  refine Tree.adopts_alloc (fun s hs => h.orphans s ?_) span
  exact Progress.mem_roots_of_statements (l := ⟨tr, aside⟩) (hst ▸ List.mem_cons_self) hs

theorem Act.adopts_fillFunction {id body : NodeId} {f : FunctionNode} {c : CodeScope}
    {rest : List NodeId} (hl : p.loose = body :: rest) (hid : id ∈ rest)
    (hf : p.run.tree.kind? id = some (.function f)) (hb : p.run.tree.scope? body = some c) :
    p.run.tree.Adopts (· = id) (p.run.tree.fill id (.function { f with body := some body })).1
      ∧ ∀ x, (p.run.tree.fill id (.function { f with body := some body })).1.parent? x = some id →
        p.run.tree.parent? x = some id ∨ x ∈ p.loose := by
  obtain ⟨n, hn, -⟩ := Tree.kind?_eq_some.mp hf
  have hroot := (h.orphans id (Progress.mem_roots_of_loose (hl ▸ List.mem_cons_of_mem _ hid))).2
  have hparam : ∀ x ∈ f.params, p.run.tree.parent? x = some id := fun x hx => h.links id x (by
    rw [Tree.children_of_kind? hf]
    exact List.mem_append_left _ hx)
  have hparts : ∀ x ∈ (NodeKind.function { f with body := some body }).children,
      p.run.tree.Has x ∧ (p.run.tree.parent? x = some id ∨ p.run.tree.parent? x = none) := by
    intro x hx
    rcases List.mem_append.mp hx with hx | hx
    · exact ⟨Tree.has_of_parent? (hparam x hx), .inl (hparam x hx)⟩
    · obtain rfl : x = body := by simpa using hx
      obtain ⟨hhas, hnone⟩ := h.orphans x (Progress.mem_roots_of_loose (hl ▸ List.mem_cons_self))
      exact ⟨hhas, .inr hnone⟩
  have hself : id ∉ (NodeKind.function { f with body := some body }).children := by
    intro hx
    rcases List.mem_append.mp hx with hx | hx
    · simp [hparam id hx] at hroot
    · obtain rfl : id = body := by simpa using hx
      simp [Tree.scope?, hf, NodeKind.scope?] at hb
  have hparent := fun i => Tree.parent?_fill (i := i) hn (by rw [← Tree.parent?_of_node? hn, hroot])
    hself fun x hx => (hparts x hx).1
  refine ⟨Tree.adopts_of_parent? hparent (fun x hx => (hparts x hx).2) hself hroot, fun x hx => ?_⟩
  rw [hparent] at hx
  split at hx
  · rename_i hmem
    rcases List.mem_append.mp hmem with hmem | hmem
    · exact .inl (hparam x hmem)
    · obtain rfl : x = body := by simpa using hmem
      exact .inr (hl ▸ List.mem_cons_self)
  · exact .inl hx

theorem Act.adopts_fillState {id : NodeId} {s : StateNode} {handlers rest : List NodeId}
    (hl : p.loose = handlers ++ rest) (hid : id ∈ rest)
    (hs : p.run.tree.kind? id = some (.state s))
    (hh : ∀ x ∈ handlers, p.run.tree.sort? x = some .handler) :
    p.run.tree.Adopts (· = id) (p.run.tree.fill id (.state { s with handlers })).1
      ∧ ∀ x, (p.run.tree.fill id (.state { s with handlers })).1.parent? x = some id →
        p.run.tree.parent? x = some id ∨ x ∈ p.loose := by
  obtain ⟨n, hn, -⟩ := Tree.kind?_eq_some.mp hs
  have hroot := (h.orphans id (Progress.mem_roots_of_loose (hl ▸ List.mem_append_right _ hid))).2
  have hself : id ∉ (NodeKind.state { s with handlers }).children := by
    intro hx
    have hsort := hh id hx
    rw [Tree.sort?_of_kind? hs] at hsort
    simp [NodeKind.sort] at hsort
  have hparent := fun i => Tree.parent?_fill (i := i) hn (by rw [← Tree.parent?_of_node? hn, hroot])
    hself fun x hx => Tree.has_of_sort? (hh x hx)
  have hloose : ∀ x ∈ handlers, x ∈ p.loose := fun x hx => hl ▸ List.mem_append_left _ hx
  refine ⟨Tree.adopts_of_parent? hparent
    (fun x hx => .inr (h.orphans x (Progress.mem_roots_of_loose (hloose x hx))).2) hself hroot,
    fun x hx => ?_⟩
  rw [hparent] at hx
  split at hx
  · rename_i hmem
    exact .inr (hloose x hmem)
  · exact .inl hx

/-- Only a loose node adopts. -/
theorem Act.adopts (hact : Act script library p p') :
    p.run.tree.Adopts (· ∈ p'.loose) p'.run.tree := by
  cases hact with
  | say | names | shuffle | openScope | enterBody => exact ⟨fun _ _ hq => hq, fun _ _ hq => .inl hq⟩
  | fault id => exact (Tree.retains_markError id).adopts
  | reject dropped rest ns span hl hns hwhy =>
    have hparent : ∀ i, (p.run.tree.allocError span).1.parent? i = p.run.tree.parent? i :=
      fun i => Tree.parent?_allocError span
    exact ⟨fun c q hq => by rw [hparent, hq], fun c q hq => .inl (by rw [← hparent, hq])⟩
  | make kind rest span ns hl hnew hf hj hs he hns =>
    refine (Act.adopts_make h span hl _).mono fun q hq => ?_
    rw [hq]
    exact List.mem_cons_self
  | append id s rest tr tr' aside outer t' reach hl hst hs hk happ =>
    exact (Tree.retains_append happ hs (by simp [hk])).adopts
  | appendLabel id s rest tr tr' aside outer t' reach hl hst hs hk hscope hindex happ =>
    exact (Tree.retains_append happ hs fun _ => ⟨hscope, hindex⟩).adopts
  | closeScope tr aside outer kind span hl hst hpending =>
    refine (Act.adopts_closeScope h kind span hst).mono fun q hq => ?_
    rw [hq]
    exact List.mem_cons_self
  | fillFunction id f body c rest hl hid hopen hf hb hcallable hret =>
    refine (Act.adopts_fillFunction h hl hid hf hb).1.mono fun q hq => ?_
    rw [hq]
    exact hid
  | fillState id s handlers rest hl hid hopen hs hh =>
    refine (Act.adopts_fillState h hl hid hs hh).1.mono fun q hq => ?_
    rw [hq]
    exact hid

end Adopts

/-! ### The order of creation -/

/-- Statements, and what can lie within one. -/
def NodeSort.inBody : NodeSort → Bool
  | .scope | .stmt | .expr | .error => true
  | _ => false

theorem NodeSort.inBody_of_holds {s s' : NodeSort} (h : s.inBody = true) (hh : s.holds s' = true) :
    s'.inBody = true := by
  cases s <;> cases s' <;> simp_all [inBody, holds]

namespace Tree

/-- A node of a body. -/
def InBody (t : Tree) (id : NodeId) : Prop := ∃ s, t.sort? id = some s ∧ s.inBody = true

theorem inBody_of_scope? {k : CodeScope} (h : t.scope? a = some k) : t.InBody a :=
  ⟨.scope, sort?_of_kind? (scope?_eq_some.mp h), rfl⟩

theorem inBody_of_stmt? {s : StmtNode} (h : t.stmt? a = some s) : t.InBody a :=
  ⟨.stmt, sort?_of_kind? (stmt?_eq_some.mp h), rfl⟩

namespace Shaped

variable {roots : List NodeId}

/-- The parts of a node of a body are nodes of it, made before. -/
theorem inBody_of_parent? (h : t.Shaped script library roots) (hp : t.parent? a = some b)
    (hb : t.InBody b) : t.InBody a ∧ a < b := by
  obtain ⟨k, hk, ⟨s, hs, hhold⟩, hmem⟩ := h.owned a b hp
  obtain ⟨s', hs', hin⟩ := hb
  obtain rfl : k.sort = s' := Option.some.inj ((sort?_of_kind? hk).symm.trans hs')
  have hf : k.sort ≠ .function := fun he => by simp [he, NodeSort.inBody] at hin
  have hst : k.sort ≠ .state := fun he => by simp [he, NodeSort.inBody] at hin
  exact ⟨⟨s, hs, NodeSort.inBody_of_holds hin hhold⟩, h.below b k hk hf hst a (hmem hf hst)⟩

/-- What lies within a node of a body is a node of it, made before. -/
theorem inBody_of_within (h : t.Shaped script library roots) (hab : t.Within a b)
    (hb : t.InBody b) : t.InBody a ∧ a ≤ b := by
  induction hab using Relation.ReflTransGen.head_induction_on with
  | refl => exact ⟨hb, Nat.le_refl _⟩
  | head hp _ ih =>
    obtain ⟨hin, hle⟩ := ih
    obtain ⟨hin', hlt⟩ := h.inBody_of_parent? hp hin
    exact ⟨hin', Nat.le_trans (Nat.le_of_lt hlt) hle⟩

/-- Two parts of a node of a body do not lie within each other. -/
theorem not_within_sibling {q : Nat} (h : t.Shaped script library roots) (hq : t.InBody q)
    (ha : t.parent? a = some q) (hb : t.parent? b = some q) (hne : a ≠ b) : ¬ t.Within a b := by
  intro hab
  rcases Relation.ReflTransGen.cases_head hab with rfl | ⟨r, hr, hrb⟩
  · exact hne rfl
  · obtain rfl : q = r := Option.some.inj (ha.symm.trans hr)
    obtain ⟨hin, hlt⟩ := h.inBody_of_parent? hb hq
    exact absurd (h.inBody_of_within hrb hin).2 (Nat.not_le.mpr hlt)

end Shaped

end Tree

end Lsl
