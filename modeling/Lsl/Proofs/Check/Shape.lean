/- # The shape of the tree

The nodes without a parent are those that the checker still has in its hands.
A node is the parent of its children and of nothing else, and it is made after
them, unless it is a function or a state, which are filled later. What stands
below what is fixed by their sorts.

Key definitions: `Tree.Retains`, `Tree.Shaped`.
Key theorems: `Tree.Shaped.alloc`, `Tree.Shaped.fill`, `Acts.shaped`.
-/
import Lsl.Proofs.Check.StmtActs

namespace Lsl

variable {script : Script} {library : Catalog} {t t' : Tree} {P : Nat → Prop} {i : Nat}

/-! ### Well-formed nodes stay so -/

theorem Variable.ty_init_of_outline {v v' : Variable} (h : v'.outline = v.outline) :
    v'.ty = v.ty ∧ v'.init = v.init := by
  have hty := congrArg Variable.ty h
  have hinit := congrArg Variable.init h
  exact ⟨hty, hinit⟩

theorem Tree.Bound.grows {e : ExprNode} (h : t.Bound library e) (hg : t.Grows P t') :
    t'.Bound library e := by
  have hvar : ∀ {d sort}, (t.sort? d = some sort ∧ ∃ v, t.var? d = some v ∧ v.ty = e.ty) →
      t'.sort? d = some sort ∧ ∃ v, t'.var? d = some v ∧ v.ty = e.ty := by
    rintro d sort ⟨hs, v, hv, hty⟩
    obtain ⟨v', hv', ho⟩ := hg.var? hv
    exact ⟨hg.sort? hs, v', hv', (Variable.ty_init_of_outline ho).1.trans hty⟩
  unfold Tree.Bound at h ⊢
  split at h
  · exact hvar h
  · exact hvar h
  · exact hvar h
  · exact h
  · exact hg.sort? h
  · exact h
  · trivial

theorem Tree.FormedStmt.grows {k : StmtKind} (h : t.FormedStmt script k) (hg : t.Grows P t') :
    t'.FormedStmt script k := by
  cases k with
  | empty | label | stateChange => trivial
  | expr value => exact hg.isTerm h
  | declare v => exact ⟨h.1, fun c hc => hg.isTerm (h.2 c hc)⟩
  | ret value => exact fun c hc => hg.isTerm (h c hc)
  | jump name target constant =>
    intro l hl
    obtain ⟨s, hs, hlabel⟩ := h l hl
    obtain ⟨s', hs', ho, -⟩ := hg.stmt? hs
    exact ⟨s', hs', (StmtNode.site_of_outline ho hlabel).1⟩
  | branch cond thenScope elseIfs elseScope =>
    obtain ⟨hcond, hthen, harms, helse⟩ := h
    exact ⟨hg.isTerm hcond, hg.sort? hthen,
      fun arm harm => ⟨hg.isTerm (harms arm harm).1, hg.sort? (harms arm harm).2⟩,
      fun s hs => hg.sort? (helse s hs)⟩
  | whileLoop cond body | doWhile body cond => exact ⟨hg.isTerm h.1, hg.isScope h.2⟩
  | forLoop init cond step body =>
    obtain ⟨hinit, hcond, hstep, hbody⟩ := h
    exact ⟨fun c hc => hg.isTerm (hinit c hc), fun c hc => hg.isTerm (hcond c hc),
      fun c hc => hg.isTerm (hstep c hc), hg.isScope hbody⟩
  | block scope => exact hg.sort? h

theorem Tree.Formed.grows {k : NodeKind} (h : t.Formed script library k) (hg : t.Grows P t') :
    t'.Formed script library k := by
  cases k with
  | script n =>
    obtain ⟨hglobals, hfunctions, hdefault, hstates⟩ := h
    exact ⟨fun g hx => hg.sort? (hglobals g hx), fun f hx => hg.sort? (hfunctions f hx),
      fun s hx => hg.sort? (hdefault s hx), fun s hx => hg.sort? (hstates s hx)⟩
  | global v => exact ⟨h.1, fun c hc => hg.isTerm (h.2 c hc)⟩
  | param v => exact h
  | function f => exact ⟨fun q hq => hg.sort? (h.1 q hq), fun b hb => hg.isScope (h.2 b hb)⟩
  | state s => exact fun x hx => hg.sort? (h x hx)
  | handler n => exact ⟨fun q hq => hg.sort? (h.1 q hq), hg.isScope h.2⟩
  | scope c => exact fun s hs => hg.sort? (h s hs)
  | stmt s => exact Tree.FormedStmt.grows h hg
  | expr e => exact ⟨fun c hc => hg.isTerm (h.1 c hc), h.2.grows hg⟩
  | error => trivial

theorem Tree.formedStmt_outline {k : StmtKind} :
    t.FormedStmt script k.outline ↔ t.FormedStmt script k := by
  cases k <;> exact Iff.rfl

/-- Notes on a node do not matter to its form. -/
theorem Tree.Formed.of_outline {k k' : NodeKind} (h : t.Formed script library k)
    (ho : k'.outline = k.outline) (hc : k'.children = k.children) :
    t.Formed script library k' := by
  cases k with
  | script n => rw [NodeKind.eq_script_of_outline ho]; exact h
  | global v =>
    cases k' <;> simp [NodeKind.outline] at ho
    obtain ⟨hty, hinit⟩ := Variable.ty_init_of_outline ho
    exact ⟨by rw [hty]; exact h.1, by rw [hinit]; exact h.2⟩
  | param v =>
    cases k' <;> simp [NodeKind.outline] at ho
    obtain ⟨hty, hinit⟩ := Variable.ty_init_of_outline ho
    exact ⟨by rw [hty]; exact h.1, hinit.trans h.2⟩
  | function f =>
    obtain ⟨f', rfl, -, -, hparams⟩ := NodeKind.eq_function_of_outline ho
    have hbody : f'.body = f.body := by
      simp only [NodeKind.children, hparams, List.append_cancel_left_eq] at hc
      cases hb : f'.body <;> cases hb' : f.body <;> simp_all
    exact ⟨by rw [hparams]; exact h.1, by rw [hbody]; exact h.2⟩
  | state s =>
    cases k' <;> simp [NodeKind.outline] at ho
    exact fun x hx => h x (by rw [← show _ = s.handlers from hc]; exact hx)
  | handler n => rw [NodeKind.eq_handler_of_outline ho]; exact h
  | scope c => rw [NodeKind.eq_scope_of_outline ho]; exact h
  | stmt s =>
    obtain ⟨⟨kind', info'⟩, rfl, hs⟩ := NodeKind.eq_stmt_of_outline ho
    rcases s with ⟨kind, info⟩
    have hk := congrArg StmtNode.kind hs
    simp only [StmtNode.outline] at hk
    exact Tree.formedStmt_outline.mp (hk ▸ Tree.formedStmt_outline.mpr h)
  | expr e => rw [NodeKind.eq_expr_of_outline ho]; exact h
  | error =>
    cases k' <;> simp [NodeKind.outline] at ho
    trivial

/-! ### What stands below what -/

/-- Which sorts of nodes a node may be the parent of. -/
def NodeSort.holds : NodeSort → NodeSort → Bool
  | .script, .global | .script, .function | .script, .state => true
  | .global, .expr | .global, .error => true
  | .function, .param | .function, .scope => true
  | .state, .handler => true
  | .handler, .param | .handler, .scope => true
  | .scope, .stmt => true
  | .stmt, .scope | .stmt, .expr | .stmt, .error => true
  | .expr, .expr | .expr, .error => true
  | _, _ => false

/-- A node of sort `s` may be the parent of `c`. -/
def Tree.MayHold (t : Tree) (s : NodeSort) (c : NodeId) : Prop :=
  ∃ s', t.sort? c = some s' ∧ s.holds s' = true

namespace Tree

theorem MayHold.has {s : NodeSort} {c : Nat} (h : t.MayHold s c) : t.Has c := by
  obtain ⟨s', hs', -⟩ := h
  exact has_of_sort? hs'

theorem MayHold.grows {s : NodeSort} {c : Nat} (h : t.MayHold s c) (hg : t.Grows P t') :
    t'.MayHold s c := by
  obtain ⟨s', hs', hh⟩ := h
  exact ⟨s', hg.sort? hs', hh⟩

theorem mayHold_term {s : NodeSort} {c : Nat} (h : t.IsTerm c) (he : s.holds .expr = true)
    (hr : s.holds .error = true) : t.MayHold s c :=
  h.elim (fun h => ⟨_, h, he⟩) fun h => ⟨_, h, hr⟩

/-- The parts of a statement are terms and scopes. -/
theorem FormedStmt.mayHold {k : StmtKind} (h : t.FormedStmt script k) :
    ∀ c ∈ k.children, t.MayHold .stmt c := by
  have term : ∀ c, t.IsTerm c → t.MayHold .stmt c := fun c hc => mayHold_term hc rfl rfl
  cases k with
  | empty | label | stateChange | jump => simp [StmtKind.children]
  | expr value =>
    intro c hc
    rw [List.mem_singleton.mp hc]
    exact term _ h
  | declare v => exact fun c hc => term c (h.2 c (Option.mem_toList.mp hc))
  | ret value => exact fun c hc => term c (h c (Option.mem_toList.mp hc))
  | branch cond thenScope elseIfs elseScope =>
    obtain ⟨hcond, hthen, harms, helse⟩ := h
    intro c hc
    simp only [StmtKind.children, List.cons_append, List.mem_cons, List.mem_append,
      List.mem_flatMap, Option.mem_toList, List.not_mem_nil, or_false] at hc
    obtain rfl | rfl | ⟨arm, harm, rfl | rfl⟩ | hc := hc
    · exact term c hcond
    · exact ⟨_, hthen, rfl⟩
    · exact term _ (harms arm harm).1
    · exact ⟨_, (harms arm harm).2, rfl⟩
    · exact ⟨_, helse c hc, rfl⟩
  | whileLoop cond body =>
    intro c hc
    simp only [StmtKind.children, List.mem_cons, List.not_mem_nil, or_false] at hc
    obtain rfl | rfl := hc
    · exact term c h.1
    · exact ⟨_, h.2.sort?, rfl⟩
  | doWhile body cond =>
    intro c hc
    simp only [StmtKind.children, List.mem_cons, List.not_mem_nil, or_false] at hc
    obtain rfl | rfl := hc
    · exact ⟨_, h.2.sort?, rfl⟩
    · exact term c h.1
  | forLoop init cond step body =>
    obtain ⟨hinit, hcond, hstep, hbody⟩ := h
    intro c hc
    simp only [StmtKind.children, List.mem_append, Option.mem_toList, List.mem_singleton] at hc
    obtain ((hc | hc) | hc) | rfl := hc
    · exact term c (hinit c hc)
    · exact term c (hcond c hc)
    · exact term c (hstep c hc)
    · exact ⟨_, hbody.sort?, rfl⟩
  | block scope =>
    intro c hc
    rw [List.mem_singleton.mp hc]
    exact ⟨_, h, rfl⟩

/-- The parts of a well-formed node are of the sorts it may hold. -/
theorem Formed.mayHold {k : NodeKind} (h : t.Formed script library k) :
    ∀ c ∈ k.children, t.MayHold k.sort c := by
  cases k with
  | script n =>
    obtain ⟨hglobals, hfunctions, hdefault, hstates⟩ := h
    intro c hc
    simp only [NodeKind.children, List.mem_append, Option.mem_toList] at hc
    obtain ((hc | hc) | hc) | hc := hc
    · exact ⟨_, hglobals c hc, rfl⟩
    · exact ⟨_, hfunctions c hc, rfl⟩
    · exact ⟨_, hdefault c hc, rfl⟩
    · exact ⟨_, hstates c hc, rfl⟩
  | global v => exact fun c hc => mayHold_term (h.2 c (Option.mem_toList.mp hc)) rfl rfl
  | param v =>
    intro c hc
    rw [NodeKind.children, show v.init = none from h.2] at hc
    simp at hc
  | function f =>
    intro c hc
    rcases List.mem_append.mp hc with hc | hc
    · exact ⟨_, h.1 c hc, rfl⟩
    · exact ⟨_, (h.2 c (Option.mem_toList.mp hc)).sort?, rfl⟩
  | state s => exact fun c hc => ⟨_, h c hc, rfl⟩
  | handler n =>
    intro c hc
    rcases List.mem_append.mp hc with hc | hc
    · exact ⟨_, h.1 c hc, rfl⟩
    · rw [List.mem_singleton.mp hc]
      exact ⟨_, h.2.sort?, rfl⟩
  | scope n => exact fun s hs => ⟨_, h s hs, rfl⟩
  | stmt s => exact FormedStmt.mayHold h
  | expr e => exact fun c hc => mayHold_term (h.1 c hc) rfl rfl
  | error => simp [NodeKind.children]

theorem Formed.has {k : NodeKind} (h : t.Formed script library k) : ∀ c ∈ k.children, t.Has c :=
  fun c hc => (h.mayHold c hc).has

end Tree

/-! ### Changes that leave parents and parts alone -/

/-- Nothing new, and every node keeps its parent and its parts. -/
structure Tree.Retains (t t' : Tree) : Prop where
  size : t'.size = t.size
  node : ∀ i n, t.node? i = some n → ∃ n', t'.node? i = some n' ∧ n'.parent = n.parent
    ∧ n'.kind.outline = n.kind.outline ∧ n'.kind.children = n.kind.children

namespace Tree

theorem Retains.node?_none (h : t.Retains t') (hn : t.node? i = none) : t'.node? i = none := by
  rw [node?_eq_none] at hn ⊢
  rwa [h.size]

theorem Retains.trans {t'' : Tree} (h : t.Retains t') (g : t'.Retains t'') : t.Retains t'' where
  size := g.size.trans h.size
  node i n hn := by
    obtain ⟨n', hn', hp, ho, hc⟩ := h.node i n hn
    obtain ⟨n'', hn'', hp', ho', hc'⟩ := g.node i n' hn'
    exact ⟨n'', hn'', hp'.trans hp, ho'.trans ho, hc'.trans hc⟩

theorem Retains.parent? (h : t.Retains t') (i : Nat) : t'.parent? i = t.parent? i := by
  rcases hn : t.node? i with _ | n
  · simp [Tree.parent?, hn, h.node?_none hn]
  · obtain ⟨n', hn', hp, -⟩ := h.node i n hn
    rw [parent?_of_node? hn, parent?_of_node? hn', hp]

theorem Retains.kind? (h : t.Retains t') {k' : NodeKind} (hk : t'.kind? i = some k') :
    ∃ k, t.kind? i = some k ∧ k'.outline = k.outline ∧ k'.children = k.children := by
  rcases hn : t.node? i with _ | n
  · simp [Tree.kind?, h.node?_none hn] at hk
  · obtain ⟨n', hn', -, ho, hc⟩ := h.node i n hn
    obtain rfl : n'.kind = k' := Option.some.inj ((kind?_of_node? hn').symm.trans hk)
    exact ⟨n.kind, kind?_of_node? hn, ho, hc⟩

theorem Retains.scope? (h : t.Retains t') {c : CodeScope} (hc : t'.scope? i = some c) :
    t.scope? i = some c := by
  obtain ⟨k, hk, ho, -⟩ := h.kind? (scope?_eq_some.mp hc)
  rw [scope?_eq_some, hk, NodeKind.eq_scope_of_outline ho.symm]

theorem Retains.children (h : t.Retains t') (i : Nat) : t'.children i = t.children i := by
  rcases hn : t.node? i with _ | n
  · simp [Tree.children, Tree.kind?, hn, h.node?_none hn]
  · obtain ⟨n', hn', -, -, hc⟩ := h.node i n hn
    rw [children_of_kind? (kind?_of_node? hn), children_of_kind? (kind?_of_node? hn'), hc]

theorem retains_markError (id : Nat) : t.Retains (t.markError id) where
  size := size_markError
  node i n hn := by
    obtain ⟨b, hb⟩ := node?_markUpward t.size (some id) hn
    exact ⟨_, hb, rfl, rfl, rfl⟩

theorem retains_noteUse (id : Nat) (kind : NodeKind) : t.Retains (t.noteUse id kind) where
  size := size_noteUse kind
  node i n hn := by
    obtain ⟨k, hk, hnoted⟩ := node?_noteUse id kind hn
    exact ⟨_, hk, rfl, hnoted.outline, hnoted.children⟩

theorem retains_settle (wrong : Bool) (id : Nat) (kind : NodeKind) :
    t.Retains (t.settle wrong id kind) := by
  cases wrong with
  | false => exact retains_noteUse id kind
  | true => exact (retains_markError id).trans (retains_noteUse id kind)

theorem children_placed (s : StmtNode) (info : StmtInfo) (always : Bool) :
    (s.placed info always).kind.children = s.kind.children := by
  rcases s with ⟨kind, i⟩
  cases always <;> cases kind <;> rfl

theorem retains_append {id : Nat} {tr tr' : Tracker} {facts : Facts} {reach : Reach} {s : StmtNode}
    (h : t.append tr id facts = ⟨t', tr', .ok reach⟩) (hs : t.stmt? id = some s)
    (hl : s.kind.isLabel = true → s.info.scopeId = tr.scopeId ∧ s.info.index = tr.nextIndex) :
    t.Retains t' := by
  have hg := grows_append h hs hl
  obtain ⟨s', c, hs', -, -, rfl⟩ := append_ok h
  refine ⟨size_place, fun i n hn => ?_⟩
  obtain ⟨stays, hp⟩ := node?_place id tr.statements.getLast? (placeInfo tr id facts reach)
    (facts.jumpOf reach).isSome hn
  obtain ⟨n', hn', hgrow⟩ := hg.nodes i n hn
  obtain rfl := Option.some.inj (hp.symm.trans hn')
  refine ⟨_, hp, rfl, hgrow.outline, ?_⟩
  rcases n with ⟨kind, span, parent, flag⟩
  cases kind with
  | stmt s =>
    simp only [NodeKind.mapStmt, NodeKind.children]
    split
    · exact children_placed s _ _
    · rfl
  | _ => rfl

theorem parent?_of_size_le (h : t.size ≤ i) : t.parent? i = none := by
  simp [parent?, node?_eq_none.mpr h]

theorem has_of_parent? {q : Nat} (h : t.parent? i = some q) : t.Has i := by
  by_contra hi
  rw [parent?_of_size_le (Nat.not_lt.mp hi)] at h
  simp at h

/-- A new node is the parent of its parts; the others keep theirs. -/
theorem parent?_alloc (kind : NodeKind) (span : Span) (hc : ∀ c ∈ kind.children, t.Has c) :
    (t.alloc kind span).1.parent? i
      = if i ∈ kind.children then some t.size else t.parent? i := by
  rcases Nat.lt_trichotomy i t.size with hi | rfl | hi
  · obtain ⟨n, hn⟩ := exists_node? hi
    have hn' := node?_alloc kind span hc hi
    rw [hn] at hn'
    rw [parent?_of_node? hn', parent?_of_node? hn, Node.adoptedBy_parent]
    simp
  · have hself : t.size ∉ kind.children := fun h => Nat.lt_irrefl _ (hc _ h)
    rw [parent?_of_node? (node?_alloc_self kind span hc), if_neg hself,
      parent?_of_size_le (Nat.le_refl _)]
  · have hself : i ∉ kind.children := fun h => Nat.lt_asymm hi (hc _ h)
    rw [if_neg hself, parent?_of_size_le (Nat.le_of_lt hi), parent?_of_size_le]
    rw [size_alloc]
    exact hi

theorem parent?_allocError (span : Span) : (t.allocError span).1.parent? i = t.parent? i := by
  rcases Nat.lt_trichotomy i t.size with hi | rfl | hi
  · simp [parent?, node?_allocError span hi]
  · rw [parent?_of_node? (node?_allocError_self span), parent?_of_size_le (Nat.le_refl _)]
  · rw [parent?_of_size_le (Nat.le_of_lt hi), parent?_of_size_le]
    rw [size_allocError]
    exact hi

theorem kind?_allocError (span : Span) :
    (t.allocError span).1.kind? i = if i = t.size then some .error else t.kind? i := by
  rcases Nat.lt_trichotomy i t.size with hi | rfl | hi
  · rw [if_neg (Nat.ne_of_lt hi)]
    simp [kind?, node?_allocError span hi]
  · rw [if_pos rfl, kind?_of_node? (node?_allocError_self span)]
  · have h1 : t.node? i = none := node?_eq_none.mpr (Nat.le_of_lt hi)
    have h2 : (t.allocError span).1.node? i = none := by
      rw [node?_eq_none, size_allocError]
      exact hi
    rw [if_neg (Nat.ne_of_gt hi)]
    simp [kind?, h1, h2]

theorem children_alloc (kind : NodeKind) (span : Span) :
    (t.alloc kind span).1.children i = if i = t.size then kind.children else t.children i := by
  unfold children
  rw [kind?_alloc]
  split <;> rfl

theorem parent?_fill {id : Nat} {kind : NodeKind} {n : Node} (hn : t.node? id = some n)
    (hp : n.parent = none) (hc : id ∉ kind.children) (hh : ∀ c ∈ kind.children, t.Has c) :
    (t.fill id kind).1.parent? i = if i ∈ kind.children then some id else t.parent? i := by
  by_cases hi : i = id
  · subst hi
    rw [parent?_of_node? (node?_fill_self hn hp hc), if_neg hc, parent?_of_node? hn]
  · have hf := node?_fill hn hp hc hi
    rcases hi' : t.node? i with _ | m
    · rw [hi'] at hf
      have hout : i ∉ kind.children := fun h => by
        obtain ⟨m, hm⟩ := exists_node? (hh i h)
        simp [hi'] at hm
      simp [parent?, hf, hi', hout]
    · rw [hi'] at hf
      rw [parent?_of_node? hf, parent?_of_node? hi', Node.adoptedBy_parent]
      simp

theorem children_fill {id : Nat} (kind : NodeKind) (hid : t.Has id) :
    (t.fill id kind).1.children i = if i = id then kind.children else t.children i := by
  unfold children
  rw [kind?_fill kind hid]
  split <;> rfl

/-! ### A node that is put in -/

/-- One node gets a kind and is the parent of its parts from then on, which had no other
parent. The other nodes keep their kinds and their parents. -/
structure Puts (t t' : Tree) (id : NodeId) (kind : NodeKind) : Prop where
  grows : t.Grows (fun _ => True) t'
  kind? : ∀ i, t'.kind? i = if i = id then some kind else t.kind? i
  parent? : ∀ i, t'.parent? i = if i ∈ kind.children then some id else t.parent? i
  free : ∀ c ∈ kind.children, t.parent? c = some id ∨ t.parent? c = none
  /-- Only functions and states are put in where there was something before. -/
  before : ∀ k, t.kind? id = some k →
    k.sort = kind.sort ∧ (kind.sort = .function ∨ kind.sort = .state)
  early : kind.sort ≠ .function → kind.sort ≠ .state →
    kind.children.Nodup ∧ ∀ c ∈ kind.children, c < id
  marked : kind = .error → t'.hasErrors id = true

namespace Puts

variable {id : NodeId} {kind k : NodeKind}

theorem kind?_self (h : t.Puts t' id kind) : t'.kind? id = some kind := by
  rw [h.kind?, if_pos rfl]

theorem kind?_cases (h : t.Puts t' id kind) {i : NodeId} (hk : t'.kind? i = some k) :
    i = id ∧ kind = k ∨ i ≠ id ∧ t.kind? i = some k := by
  rw [h.kind?] at hk
  split at hk
  · exact .inl ⟨‹_›, Option.some.inj hk⟩
  · exact .inr ⟨‹_›, hk⟩

/-- What has another parent is no part of the node. -/
theorem not_mem_of_link (h : t.Puts t' id kind) {i c : NodeId} (hlink : t.parent? c = some i)
    (hi : i ≠ id) : c ∉ kind.children := by
  intro hc
  rcases h.free c hc with hp | hp
  · exact hi (Option.some.inj (hlink.symm.trans hp))
  · cases hlink.symm.trans hp

theorem orphan (h : t.Puts t' id kind) {r : NodeId} (hr : t.Has r ∧ t.parent? r = none)
    (hout : r ∉ kind.children) : t'.Has r ∧ t'.parent? r = none :=
  ⟨h.grows.has hr.1, by rw [h.parent?, if_neg hout, hr.2]⟩

end Puts

/-! ### Shaped trees -/

/-- The tree of a run whose nodes without a parent are the `roots`. -/
structure Shaped (script : Script) (library : Catalog) (t : Tree) (roots : List NodeId) : Prop where
  orphans : ∀ r ∈ roots, t.Has r ∧ t.parent? r = none
  distinct : roots.Nodup
  formed : ∀ i k, t.kind? i = some k → t.Formed script library k
  links : ∀ i, ∀ c ∈ t.children i, t.parent? c = some i
  /-- A parent may hold its children; functions and states are filled later. -/
  owned : ∀ c q, t.parent? c = some q → ∃ k, t.kind? q = some k ∧ t.MayHold k.sort c
    ∧ (k.sort ≠ .function → k.sort ≠ .state → c ∈ k.children)
  below : ∀ i k, t.kind? i = some k → k.sort ≠ .function → k.sort ≠ .state →
    ∀ c ∈ k.children, c < i
  once : ∀ i k, t.kind? i = some k → k.sort ≠ .function → k.sort ≠ .state → k.children.Nodup
  errors : ∀ i, t.kind? i = some .error → t.hasErrors i = true

namespace Shaped

variable {roots roots' : List NodeId}

/-- Some of the roots, in any order. -/
theorem subset (h : t.Shaped script library roots) (hs : roots' ⊆ roots) (hd : roots'.Nodup) :
    t.Shaped script library roots' :=
  { h with orphans := fun r hr => h.orphans r (hs hr), distinct := hd }

theorem perm (h : t.Shaped script library roots) (hp : roots.Perm roots') :
    t.Shaped script library roots' :=
  h.subset hp.symm.subset (hp.nodup_iff.mp h.distinct)

/-- Notes and marks leave the shape alone. -/
theorem retain (h : t.Shaped script library roots) (hr : t.Retains t') (hg : t.Grows P t') :
    t'.Shaped script library roots where
  orphans r hmem := ⟨hg.has (h.orphans r hmem).1, by rw [hr.parent?]; exact (h.orphans r hmem).2⟩
  distinct := h.distinct
  formed i k' hk' := by
    obtain ⟨k, hk, ho, hc⟩ := hr.kind? hk'
    exact ((h.formed i k hk).of_outline ho hc).grows hg
  links i c hc := by
    rw [hr.children] at hc
    rw [hr.parent?]
    exact h.links i c hc
  owned c q hq := by
    rw [hr.parent?] at hq
    obtain ⟨k, hk, hhold, hmem⟩ := h.owned c q hq
    obtain ⟨k', hk', ho⟩ := hg.kind? hk
    obtain ⟨k₀, hk₀, -, hc⟩ := hr.kind? hk'
    obtain rfl : k = k₀ := Option.some.inj (hk.symm.trans hk₀)
    have hsort := NodeKind.sort_eq_of_outline ho
    refine ⟨k', hk', by rw [hsort]; exact hhold.grows hg, fun hf hs => ?_⟩
    rw [hc]
    exact hmem (hsort ▸ hf) (hsort ▸ hs)
  below i k' hk' hf hs := by
    obtain ⟨k, hk, ho, hc⟩ := hr.kind? hk'
    have hsort := NodeKind.sort_eq_of_outline ho
    rw [hc]
    exact h.below i k hk (hsort ▸ hf) (hsort ▸ hs)
  once i k' hk' hf hs := by
    obtain ⟨k, hk, ho, hc⟩ := hr.kind? hk'
    have hsort := NodeKind.sort_eq_of_outline ho
    rw [hc]
    exact h.once i k hk (hsort ▸ hf) (hsort ▸ hs)
  errors i hi := by
    obtain ⟨k, hk, ho, -⟩ := hr.kind? hi
    have hk' : k = .error := by
      cases k <;> simp [NodeKind.outline] at ho
      rfl
    exact hg.hasErrors (h.errors i (hk' ▸ hk))

/-- A tree with a node put in is shaped, with the roots that it has then. -/
theorem put {id : NodeId} {kind : NodeKind} (h : t.Shaped script library roots)
    (hp : t.Puts t' id kind) (hf : t.Formed script library kind)
    (hroots : ∀ r ∈ roots', t'.Has r ∧ t'.parent? r = none) (hd : roots'.Nodup) :
    t'.Shaped script library roots' where
  orphans := hroots
  distinct := hd
  formed i k hk := by
    rcases hp.kind?_cases hk with ⟨-, rfl⟩ | ⟨-, hk⟩
    · exact hf.grows hp.grows
    · exact (h.formed i k hk).grows hp.grows
  links i c hc := by
    obtain ⟨k, hk, hc⟩ := exists_kind?_of_mem_children hc
    rcases hp.kind?_cases hk with ⟨rfl, rfl⟩ | ⟨hi, hk⟩
    · rw [hp.parent?, if_pos hc]
    · have hlink := h.links i c (by rwa [children_of_kind? hk])
      rwa [hp.parent?, if_neg (hp.not_mem_of_link hlink hi)]
  owned c q hq := by
    rw [hp.parent?] at hq
    split at hq
    · rename_i hc
      obtain rfl := Option.some.inj hq
      exact ⟨kind, hp.kind?_self, (hf.mayHold c hc).grows hp.grows, fun _ _ => hc⟩
    · obtain ⟨k, hk, hhold, hmem⟩ := h.owned c q hq
      by_cases hqid : q = id
      · subst hqid
        obtain ⟨hs, hsort⟩ := hp.before k hk
        exact ⟨kind, hp.kind?_self, hs ▸ hhold.grows hp.grows,
          fun h1 h2 => absurd hsort (by simp [h1, h2])⟩
      · exact ⟨k, by rw [hp.kind?, if_neg hqid, hk], hhold.grows hp.grows, hmem⟩
  below i k hk hnf hns := by
    rcases hp.kind?_cases hk with ⟨rfl, rfl⟩ | ⟨-, hk⟩
    · exact (hp.early hnf hns).2
    · exact h.below i k hk hnf hns
  once i k hk hnf hns := by
    rcases hp.kind?_cases hk with ⟨rfl, rfl⟩ | ⟨-, hk⟩
    · exact (hp.early hnf hns).1
    · exact h.once i k hk hnf hns
  errors i hk := by
    rcases hp.kind?_cases hk with ⟨rfl, hk⟩ | ⟨-, hk⟩
    · exact hp.marked hk
    · exact hp.grows.hasErrors (h.errors i hk)

/-- A new node takes the place of its parts. -/
theorem alloc {kind : NodeKind} {rest : List NodeId}
    (h : t.Shaped script library (kind.children ++ rest)) (hf : t.Formed script library kind)
    (he : kind.sort ≠ .error) (span : Span) :
    (t.alloc kind span).1.Shaped script library (t.size :: rest) := by
  have hnodup := List.nodup_append.mp h.distinct
  have hrest : ∀ r ∈ rest, t.Has r ∧ t.parent? r = none :=
    fun r hr => h.orphans r (List.mem_append_right _ hr)
  have hp : t.Puts (t.alloc kind span).1 t.size kind := {
    grows := grows_alloc kind span
    kind? := fun i => kind?_alloc kind span
    parent? := fun i => parent?_alloc kind span hf.has
    free := fun c hc => .inr (h.orphans c (List.mem_append_left _ hc)).2
    before := fun k hk => absurd (has_of_kind? hk) (Nat.lt_irrefl _)
    early := fun _ _ => ⟨hnodup.1, hf.has⟩
    marked := fun hk => absurd (hk ▸ rfl) he }
  refine h.put hp hf (fun r hr => ?_)
    (List.nodup_cons.mpr ⟨fun hm => Nat.lt_irrefl _ (hrest _ hm).1, hnodup.2.1⟩)
  rcases List.mem_cons.mp hr with rfl | hr
  · refine ⟨has_of_kind? hp.kind?_self, ?_⟩
    rw [hp.parent?, if_neg fun hc => Nat.lt_irrefl _ (hf.has _ hc), parent?_of_size_le (Nat.le_refl _)]
  · exact hp.orphan (hrest r hr) fun hc => hnodup.2.2 r hc r hr rfl

/-- An error node stands for what was dropped. -/
theorem allocError {dropped rest : List NodeId} (h : t.Shaped script library (dropped ++ rest))
    (span : Span) : (t.allocError span).1.Shaped script library (t.size :: rest) := by
  have hself := node?_allocError_self (t := t) span
  have hrest : ∀ r ∈ rest, t.Has r ∧ t.parent? r = none :=
    fun r hr => h.orphans r (List.mem_append_right _ hr)
  have hp : t.Puts (t.allocError span).1 t.size .error := {
    grows := grows_allocError span
    kind? := fun i => kind?_allocError span
    parent? := fun i => by rw [parent?_allocError, if_neg (by simp [NodeKind.children])]
    free := by simp [NodeKind.children]
    before := fun k hk => absurd (has_of_kind? hk) (Nat.lt_irrefl _)
    early := by simp [NodeKind.children]
    marked := fun _ => hasErrors_of_node? hself }
  refine h.put hp trivial (fun r hr => ?_) (List.nodup_cons.mpr
    ⟨fun hm => Nat.lt_irrefl _ (hrest _ hm).1, (List.nodup_append.mp h.distinct).2.1⟩)
  rcases List.mem_cons.mp hr with rfl | hr
  · exact ⟨has_of_node? hself, by rw [parent?_allocError, parent?_of_size_le (Nat.le_refl _)]⟩
  · exact hp.orphan (hrest r hr) (by simp [NodeKind.children])

/-- What fills a node does not hold the roots that are left. -/
theorem not_mem_children_of_fill {id : NodeId} {k kind : NodeKind} {filling rest : List NodeId}
    (h : t.Shaped script library (filling ++ rest)) (hk : t.kind? id = some k)
    (hparts : ∀ c ∈ kind.children, c ∈ k.children ∨ c ∈ filling) {r : NodeId} (hr : r ∈ rest) :
    r ∉ kind.children := by
  intro hc
  rcases hparts r hc with hc | hc
  · have hlink := h.links id r (by rwa [children_of_kind? hk])
    simp [(h.orphans r (List.mem_append_right _ hr)).2] at hlink
  · exact (List.nodup_append.mp h.distinct).2.2 r hc r hr rfl

/-- A function or a state that has no parent yet is filled with roots. -/
theorem fill {id : Nat} {n : Node} {kind : NodeKind} {filling rest : List NodeId}
    (h : t.Shaped script library (filling ++ rest)) (hn : t.node? id = some n) (hid : id ∈ rest)
    (ho : kind.outline = n.kind.outline) (hsort : kind.sort = .function ∨ kind.sort = .state)
    (hf : t.Formed script library kind)
    (hparts : ∀ c ∈ kind.children, c ∈ n.kind.children ∨ c ∈ filling)
    (hb : n.kind.body?.isSome = true → kind.body?.isSome = true) (hu : n.kind.uses ⊆ kind.uses) :
    (t.fill id kind).1.Shaped script library rest := by
  have hplacing : kind.placing? = n.kind.placing? := by
    have hs := NodeKind.sort_eq_of_outline ho
    cases kind <;> simp [NodeKind.sort] at hsort <;> cases hk : n.kind <;>
      simp_all [NodeKind.sort, NodeKind.placing?, NodeKind.info?]
  have hrest : ∀ r ∈ rest, t.Has r ∧ t.parent? r = none :=
    fun r hr => h.orphans r (List.mem_append_right _ hr)
  have hlinked : ∀ c ∈ n.kind.children, t.parent? c = some id := fun c hc =>
    h.links id c (by rwa [children_of_kind? (kind?_of_node? hn)])
  have hout : ∀ r ∈ rest, r ∉ kind.children :=
    fun r => h.not_mem_children_of_fill (kind?_of_node? hn) hparts
  have hroot : n.parent = none := by
    rw [← parent?_of_node? hn]
    exact (hrest id hid).2
  have hp : t.Puts (t.fill id kind).1 id kind := {
    grows := grows_fill hn trivial ho hplacing hb hu
    kind? := fun i => kind?_fill kind (has_of_node? hn)
    parent? := fun i => parent?_fill hn hroot (hout id hid) hf.has
    free := fun c hc => (hparts c hc).imp (hlinked c) fun hc =>
      (h.orphans c (List.mem_append_left _ hc)).2
    before := fun k hk => by
      obtain rfl := Option.some.inj (hk.symm.trans (kind?_of_node? hn))
      exact ⟨(NodeKind.sort_eq_of_outline ho).symm, hsort⟩
    early := fun hnf hns => absurd hsort (by simp [hnf, hns])
    marked := fun hk => by simp [hk, NodeKind.sort] at hsort }
  exact h.put hp hf (fun r hr => hp.orphan (hrest r hr) (hout r hr))
    (List.nodup_append.mp h.distinct).2.1

end Shaped

end Tree

variable {p p' : Progress}

theorem Tree.statements_append {id : NodeId} {tr tr' : Tracker} {facts : Facts} {reach : Reach}
    (h : t.append tr id facts = ⟨t', tr', .ok reach⟩) :
    tr'.statements = tr.statements ++ [id] := by
  obtain ⟨s, c, -, hc, rfl, -⟩ := Tree.append_ok h
  have hsame := Tracker.sameScope_classify tr id (t.span id) facts.returns (t.reachedByLiveJump id)
  rw [hc] at hsame
  exact hsame.statements

theorem Tree.scopeId_append {id : NodeId} {tr tr' : Tracker} {facts : Facts} {reach : Reach}
    (h : t.append tr id facts = ⟨t', tr', .ok reach⟩) : tr'.scopeId = tr.scopeId := by
  obtain ⟨s, c, -, hc, rfl, -⟩ := Tree.append_ok h
  have hsame := Tracker.sameScope_classify tr id (t.span id) facts.returns (t.reachedByLiveJump id)
  rw [hc] at hsame
  exact hsame.scopeId

/-! ### Roots -/

namespace Progress

/-- The roots that are not loose. -/
def besides (p : Progress) : List NodeId :=
  (p.stack.flatMap fun l => l.tracker.statements ++ l.aside) ++ p.run.labels

theorem roots_eq (p : Progress) : p.roots = p.loose ++ p.besides := List.append_assoc ..

theorem roots_of_loose {parts rest : List NodeId} (hl : p.loose = parts ++ rest) :
    p.roots = parts ++ (rest ++ p.besides) := by
  rw [roots_eq, hl, List.append_assoc]

/-- What a scope that is closed leaves behind. -/
theorem roots_of_level {tr : Tracker} {aside : List NodeId} {outer : List Level}
    (hl : p.loose = []) (hst : p.stack = ⟨tr, aside⟩ :: outer) :
    p.roots = tr.statements ++ (aside ++ { p with stack := outer }.besides) := by
  simp [roots, besides, hl, hst]

/-- Loose nodes and labels may change places. -/
theorem roots_perm (hst : p'.stack = p.stack)
    (h : (p.loose ++ p.run.labels).Perm (p'.loose ++ p'.run.labels)) : p.roots.Perm p'.roots := by
  refine List.perm_iff_count.mpr fun x => ?_
  have hcount := h.count_eq x
  simp only [roots, hst, List.count_append] at hcount ⊢
  omega

/-- What is appended to the innermost scope is one of its statements. -/
theorem roots_append {id : NodeId} {tr tr' : Tracker} {facts : Facts} {reach : Reach}
    {aside : List NodeId} {outer : List Level}
    (happ : t.append tr id facts = ⟨t', tr', .ok reach⟩) (hst : p.stack = ⟨tr, aside⟩ :: outer)
    (hst' : p'.stack = ⟨tr', aside⟩ :: outer)
    (h : (p.loose ++ p.run.labels).Perm (id :: (p'.loose ++ p'.run.labels))) :
    p.roots.Perm p'.roots := by
  refine List.perm_iff_count.mpr fun x => ?_
  have hcount := h.count_eq x
  simp only [roots, hst, hst', Tree.statements_append happ, List.flatMap_cons, List.count_append,
    List.count_cons, List.count_nil] at hcount ⊢
  omega

end Progress

/-- The trackers have seen statements. -/
def Progress.Tracks (p : Progress) : Prop :=
  ∀ l ∈ p.stack, ∀ s ∈ l.tracker.statements, p.run.tree.sort? s = some .stmt

theorem Progress.Tracks.grows (h : p.Tracks) (hg : p.run.tree.Grows P p'.run.tree)
    (hst : p'.stack = p.stack) : p'.Tracks := by
  intro l hl s hs
  exact hg.sort? (h l (hst ▸ hl) s hs)

theorem Progress.Tracks.append {id : NodeId} {s : StmtNode} {tr tr' : Tracker}
    {aside : List NodeId} {outer : List Level} {facts : Facts} {reach : Reach} (h : p.Tracks)
    (hst : p.stack = ⟨tr, aside⟩ :: outer) (hs : p.run.tree.stmt? id = some s)
    (happ : p.run.tree.append tr id facts = ⟨t', tr', .ok reach⟩)
    (hg : p.run.tree.Grows P t') :
    ∀ l ∈ (⟨tr', aside⟩ :: outer : List Level), ∀ s ∈ l.tracker.statements,
      t'.sort? s = some .stmt := by
  intro l hl x hx
  refine hg.sort? ?_
  rcases List.mem_cons.mp hl with rfl | hl
  · rw [Tree.statements_append happ] at hx
    rcases List.mem_append.mp hx with hx | hx
    · exact h ⟨tr, aside⟩ (hst ▸ List.mem_cons_self) x hx
    · rw [List.mem_singleton.mp hx]
      exact Tree.sort?_of_kind? (Tree.stmt?_eq_some.mp hs)
  · exact h l (hst ▸ List.mem_cons_of_mem _ hl) x hx

theorem Act.tracks (hact : Act script library p p') (h : p.Tracks) : p'.Tracks := by
  have hg := hact.grows
  cases hact with
  | openScope single =>
    intro l hl s hs
    rcases List.mem_cons.mp hl with rfl | hl
    · simp at hs
    · exact h l hl s hs
  | append id s rest tr tr' aside outer t' reach hl hst hs hk happ => exact h.append hst hs happ hg
  | appendLabel id s rest tr tr' aside outer t' reach hl hst hs hk hscope hindex happ =>
    exact h.append hst hs happ hg
  | closeScope tr aside outer kind span hl hst hpending =>
    intro l hmem s hs
    exact hg.sort? (h l (hst ▸ List.mem_cons_of_mem _ hmem) s hs)
  | _ => exact h.grows hg rfl

/-- **Acts keep the tree in shape.** -/
theorem Act.shaped (hact : Act script library p p') (ht : p.Tracks)
    (h : p.run.tree.Shaped script library p.roots) :
    p'.run.tree.Shaped script library p'.roots := by
  cases hact with
  | say | names => exact h
  | shuffle loose hl => exact h.perm (Progress.roots_perm rfl (hl.append_right _))
  | fault id ns hid hne hns =>
    exact h.retain (Tree.retains_markError id) (Tree.grows_markError (P := fun _ => True))
  | reject dropped rest ns span hl hns hwhy =>
    rw [Progress.roots_of_loose hl] at h
    rw [Progress.roots_eq]
    exact h.allocError span
  | make kind rest span ns hl hnew hf hj hs he hns =>
    rw [Progress.roots_of_loose hl] at h
    rw [Progress.roots_eq]
    exact (h.alloc hf he span).retain (Tree.retains_settle (!ns.isEmpty) p.run.tree.size kind)
      (Tree.grows_settle (P := fun _ => True) _ kind)
  | openScope single =>
    refine h.perm ?_
    simp [Progress.roots]
  | append id s rest tr tr' aside outer t' reach hl hst hs hk happ =>
    refine (h.retain (Tree.retains_append happ hs (by simp [hk]))
      (Tree.grows_append happ hs (by simp [hk]))).perm (Progress.roots_append happ hst rfl ?_)
    rw [hl]
    exact .refl _
  | appendLabel id s rest tr tr' aside outer t' reach hl hst hs hk hscope hindex happ =>
    refine (h.retain (Tree.retains_append happ hs fun _ => ⟨hscope, hindex⟩)
      (Tree.grows_append happ hs fun _ => ⟨hscope, hindex⟩)).perm
      (Progress.roots_append happ hst rfl ?_)
    rw [hl]
    exact List.perm_middle
  | closeScope tr aside outer kind span hl hst hpending =>
    have hform : p.run.tree.Formed script library (.scope (tr.scope kind)) :=
      fun s hs => ht ⟨tr, aside⟩ (hst ▸ List.mem_cons_self) s hs
    rw [Progress.roots_of_level hl hst] at h
    rw [Progress.roots_eq]
    exact Tree.Shaped.alloc h hform (by simp [NodeKind.sort]) span
  | enterBody labels rest hl hst hlabels hk =>
    refine h.perm (Progress.roots_perm rfl ?_)
    rw [hl, hlabels, List.append_nil]
    exact List.perm_append_comm
  | fillFunction id f body c rest hl hid hopen hf hb hcallable hret =>
    obtain ⟨n, hn, hk⟩ := Tree.kind?_eq_some.mp hf
    let kind : NodeKind := .function { f with body := some body }
    have hform : p.run.tree.Formed script library kind := by
      refine ⟨(h.formed id _ hf).1, fun b hb' => ?_⟩
      obtain rfl := Option.some.inj hb'
      exact ⟨c, hb, hcallable⟩
    have hparts : ∀ x ∈ kind.children, x ∈ n.kind.children ∨ x ∈ [body] := by
      intro x hx
      rw [hk]
      rcases List.mem_append.mp hx with hx | hx
      · exact .inl (List.mem_append_left _ hx)
      · exact .inr (by simpa using hx)
    have hr : p.roots = [body] ++ (rest ++ p.besides) := Progress.roots_of_loose hl
    rw [hr] at h
    rw [Progress.roots_eq]
    exact Tree.Shaped.fill h hn (List.mem_append_left _ hid) (by rw [hk]; rfl) (.inl rfl)
      hform hparts (fun _ => rfl) (by rw [hk]; exact List.Subset.refl _)
  | fillState id s handlers rest hl hid hopen hs hh =>
    obtain ⟨n, hn, hk⟩ := Tree.kind?_eq_some.mp hs
    have hform : p.run.tree.Formed script library (.state { s with handlers }) := hh
    rw [Progress.roots_of_loose hl] at h
    rw [Progress.roots_eq]
    exact Tree.Shaped.fill h hn (List.mem_append_left _ hid) (by rw [hk]; rfl) (.inr rfl)
      hform (fun x hx => .inr hx) (by rw [hk]; exact fun h => h)
      (by rw [hk]; exact List.Subset.refl _)

theorem Acts.tracks (h : Acts script library {} p) : p.Tracks := by
  induction h with
  | refl => simp [Progress.Tracks]
  | tail _ hact ih => exact hact.tracks ih

theorem Acts.shaped (h : Acts script library {} p) :
    p.run.tree.Shaped script library p.roots := by
  induction h with
  | refl =>
    constructor <;> intros <;> simp_all [Progress.roots, Tree.kind?, Tree.node?, Tree.parent?,
      Tree.children]
  | tail hacts hact ih => exact hact.shaped (Acts.tracks hacts) ih

end Lsl
