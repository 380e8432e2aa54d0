/- # Trees grow

While a script is resolved, nodes are added to its tree and none is taken away.
What a node is about is fixed when it is made: its place in the source, its
operands, the declaration it is bound to. Only notes are added later: the uses
of a variable, the jumps to a label, the body of a function, the place of a
statement in its scope. The outline of a node is what is left without these
notes, and it never changes.

Key definitions: `NodeKind.outline`, `Tree.Grows`, `NodeSort`, `Tree.IsScope`.
Key theorems: `Tree.Grows.trans`, `Tree.Grows.idem`, `Tree.grows_alloc`.
-/
import Lsl.Proofs.Tree.Nodes

namespace Lsl

/-! ### Outlines -/

/-- A variable without its uses. -/
def Variable.outline (v : Variable) : Variable := { v with references := [] }

/-- A statement without the jumps to it, and without whether it is always taken. -/
def StmtKind.outline : StmtKind → StmtKind
  | declare v => declare v.outline
  | jump name target _ => jump name target false
  | label name _ => label name []
  | k => k

/-- A statement before it is placed. Only a label knows its place beforehand. -/
def StmtNode.outline (s : StmtNode) : StmtNode where
  kind := s.kind.outline
  info := if s.kind.isLabel then { index := s.info.index, scopeId := s.info.scopeId } else {}

/-- What a node is from the start. -/
def NodeKind.outline : NodeKind → NodeKind
  | global v => global v.outline
  | param v => param v.outline
  | function f => function { f with body := none, references := [] }
  | state s => state { s with handlers := [] }
  | stmt s => stmt s.outline
  | k => k

/-- What a statement is known for at its place. -/
def NodeKind.info? : NodeKind → Option StmtInfo
  | stmt s => some s.info
  | _ => none

/-- What a placed statement is known for, but whether it is the last one. -/
def NodeKind.placing? (k : NodeKind) : Option StmtInfo :=
  k.info?.map fun info => { info with isLast := false }

/-- The body of a function, once it is known. -/
def NodeKind.body? : NodeKind → Option NodeId
  | function f => f.body
  | _ => none

/-- What is noted on a node: the uses of a variable or a function, the jumps to a
label. -/
def NodeKind.uses : NodeKind → List NodeId
  | global v | param v => v.references
  | function f => f.references
  | stmt ⟨.declare v, _⟩ => v.references
  | stmt ⟨.label _ jumps, _⟩ => jumps
  | _ => []

/-- What a node is filled with later: the body of a function, the handlers of a
state. -/
def NodeKind.filling : NodeKind → List NodeId
  | function f => f.body.toList
  | state s => s.handlers
  | _ => []

/-- The sort of a node. -/
inductive NodeSort where
  | script
  | global
  | function
  | param
  | state
  | handler
  | scope
  | stmt
  | expr
  | error
deriving DecidableEq, Repr

/-- The sort of a node of this kind. -/
def NodeKind.sort : NodeKind → NodeSort
  | script _ => .script
  | global _ => .global
  | function _ => .function
  | param _ => .param
  | state _ => .state
  | handler _ => .handler
  | scope _ => .scope
  | stmt _ => .stmt
  | expr _ => .expr
  | error => .error

namespace NodeKind

variable {k k' : NodeKind}

attribute [local simp] outline

@[simp] theorem sort_outline (k : NodeKind) : k.outline.sort = k.sort := by
  cases k <;> rfl

theorem sort_eq_of_outline (h : k'.outline = k.outline) : k'.sort = k.sort := by
  rw [← sort_outline, h, sort_outline]

theorem eq_expr_of_outline {e : ExprNode} (h : k'.outline = outline (expr e)) : k' = expr e := by
  cases k' <;> simp_all

theorem eq_scope_of_outline {c : CodeScope} (h : k'.outline = outline (scope c)) :
    k' = scope c := by
  cases k' <;> simp_all

theorem eq_handler_of_outline {n : HandlerNode} (h : k'.outline = outline (handler n)) :
    k' = handler n := by
  cases k' <;> simp_all

theorem eq_script_of_outline {n : ScriptNode} (h : k'.outline = outline (script n)) :
    k' = script n := by
  cases k' <;> simp_all

theorem eq_stmt_of_outline {s : StmtNode} (h : k'.outline = outline (stmt s)) :
    ∃ s', k' = stmt s' ∧ s'.outline = s.outline := by
  cases k' <;> simp_all

theorem eq_function_of_outline {f : FunctionNode} (h : k'.outline = outline (function f)) :
    ∃ f', k' = function f' ∧ f'.name = f.name ∧ f'.returnType = f.returnType
      ∧ f'.params = f.params := by
  cases k' <;> simp_all

/-- A variable keeps its name, its type and its initial value. -/
theorem var?_of_outline (h : k'.outline = k.outline) {v : Variable} (hv : k.var? = some v) :
    ∃ v', k'.var? = some v' ∧ v'.outline = v.outline := by
  cases k <;> cases k' <;> simp_all [var?]
  rename_i s s'
  rcases s with ⟨sk, si⟩
  rcases s' with ⟨sk', si'⟩
  cases sk <;> cases sk' <;> simp_all [StmtNode.outline, StmtKind.outline]

/-- Functions get their bodies and states their handlers later; all other nodes
have their parts from the start. -/
theorem children_of_outline (h : k'.outline = k.outline) (hf : k.sort ≠ .function)
    (hs : k.sort ≠ .state) : k'.children = k.children := by
  cases k <;> cases k' <;> simp_all [children, sort, Variable.outline]
  rename_i s s'
  rcases s with ⟨sk, si⟩
  rcases s' with ⟨sk', si'⟩
  cases sk <;> cases sk' <;>
    simp_all [StmtNode.outline, StmtKind.outline, StmtKind.children, Variable.outline]

/-- With what they are filled with, all nodes have their parts. -/
theorem children_of_filling (h : k'.outline = k.outline) (hf : k'.filling = k.filling) :
    k'.children = k.children := by
  cases k with
  | function f =>
    obtain ⟨f', rfl, -, -, hparams⟩ := eq_function_of_outline h
    exact congrArg₂ (· ++ ·) hparams hf
  | state s =>
    cases k' <;> simp at h
    exact hf
  | _ => exact children_of_outline h (by simp [sort]) (by simp [sort])

end NodeKind

/-! ### Growth -/

/-- What a node may become. `placing` tells that it is a statement which gets
its place in a scope, or that it is filled. -/
structure Node.Grows (placing : Prop) (n n' : Node) : Prop where
  span : n'.span = n.span
  outline : n'.kind.outline = n.kind.outline
  place : ¬ placing → n'.kind.placing? = n.kind.placing?
  body : n.kind.body?.isSome = true → n'.kind.body?.isSome = true
  mark : n.hasErrors = true → n'.hasErrors = true
  uses : n.kind.uses ⊆ n'.kind.uses
  filling : ¬ placing → n'.kind.filling = n.kind.filling

/-- The parents of nodes are nodes. -/
def Tree.Rooted (t : Tree) : Prop := ∀ c q, t.parent? c = some q → t.Has q

/-- What a tree may become while the statements with `placing` get their places,
and the nodes with `placing` that are filled get their parts. -/
structure Tree.Grows (placing : Nat → Prop) (t t' : Tree) : Prop where
  nodes : ∀ i n, t.node? i = some n → ∃ n', t'.node? i = some n' ∧ n.Grows (placing i) n'
  parents : ∀ c q, t'.parent? c = some q → t.Has q → ¬ placing q → t.parent? c = some q
  rooted : t.Rooted → t'.Rooted

theorem Node.Grows.refl {placing : Prop} (n : Node) : n.Grows placing n :=
  ⟨rfl, rfl, fun _ => rfl, id, id, List.Subset.refl _, fun _ => rfl⟩

theorem Node.Grows.trans {P Q : Prop} {n₁ n₂ n₃ : Node} (h : n₁.Grows P n₂) (g : n₂.Grows Q n₃) :
    n₁.Grows (P ∨ Q) n₃ where
  span := g.span.trans h.span
  outline := g.outline.trans h.outline
  place hn := (g.place fun hq => hn (.inr hq)).trans (h.place fun hp => hn (.inl hp))
  body hb := g.body (h.body hb)
  mark hm := g.mark (h.mark hm)
  uses := List.Subset.trans h.uses g.uses
  filling hn := (g.filling fun hq => hn (.inr hq)).trans (h.filling fun hp => hn (.inl hp))

/-- A node that changes at most its mark and its parent. -/
theorem Node.Grows.of_mark {P : Prop} (n : Node) (q : Option NodeId) (b : Bool) :
    n.Grows P { n with parent := q, hasErrors := n.hasErrors || b } :=
  ⟨rfl, rfl, fun _ => rfl, id, fun h => by simp [h], List.Subset.refl _, fun _ => rfl⟩

namespace Tree

variable {t t' t'' : Tree} {P Q : Nat → Prop} {i : Nat}

namespace Grows

theorem refl (P : Nat → Prop) (t : Tree) : t.Grows P t :=
  ⟨fun _ n h => ⟨n, h, .refl n⟩, fun _ _ h _ _ => h, id⟩

theorem has (h : t.Grows P t') (hi : t.Has i) : t'.Has i := by
  obtain ⟨n, hn⟩ := exists_node? hi
  obtain ⟨n', hn', -⟩ := h.nodes i n hn
  exact has_of_node? hn'

theorem trans (h : t.Grows P t') (g : t'.Grows Q t'') : t.Grows (fun i => P i ∨ Q i) t'' where
  nodes i n hn := by
    obtain ⟨n', hn', h1⟩ := h.nodes i n hn
    obtain ⟨n'', hn'', h2⟩ := g.nodes i n' hn'
    exact ⟨n'', hn'', h1.trans h2⟩
  parents c q hq hhas hno :=
    h.parents c q (g.parents c q hq (h.has hhas) fun h => hno (.inr h)) hhas fun h => hno (.inl h)
  rooted hr := g.rooted (h.rooted hr)

theorem mono (h : t.Grows P t') (hPQ : ∀ i, P i → Q i) : t.Grows Q t' where
  nodes i n hn := by
    obtain ⟨n', hn', h1⟩ := h.nodes i n hn
    exact ⟨n', hn', h1.span, h1.outline, fun hq => h1.place fun hp => hq (hPQ i hp), h1.body,
      h1.mark, h1.uses, fun hq => h1.filling fun hp => hq (hPQ i hp)⟩
  parents c q hq hhas hno := h.parents c q hq hhas fun h => hno (hPQ q h)
  rooted := h.rooted

/-- Only what is there already counts. -/
theorem of_old (h : t.Grows (fun i => P i ∨ ¬ t.Has i) t') : t.Grows P t' where
  nodes i n hn := by
    obtain ⟨n', hn', h1⟩ := h.nodes i n hn
    have hold : ¬ P i → ¬ (P i ∨ ¬ t.Has i) := fun hp hor => hor.elim hp (· (has_of_node? hn))
    exact ⟨n', hn', h1.span, h1.outline, fun hp => h1.place (hold hp), h1.body, h1.mark, h1.uses,
      fun hp => h1.filling (hold hp)⟩
  parents c q hq hhas hno := h.parents c q hq hhas fun hor => hor.elim hno (· hhas)
  rooted := h.rooted

/-- Nodes that keep their parents. -/
theorem of_nodes (hsize : t'.size = t.size) (h : ∀ i n, t.node? i = some n →
      ∃ n', t'.node? i = some n' ∧ n.Grows (P i) n' ∧ n'.parent = n.parent) : t.Grows P t' := by
  have hparent : ∀ c q, t'.parent? c = some q → t.parent? c = some q := by
    intro c q hq
    obtain ⟨m, hm, -⟩ := Option.bind_eq_some_iff.mp hq
    obtain ⟨n, hn⟩ := exists_node? (t := t) (i := c) (by have := has_of_node? hm; omega)
    obtain ⟨n', hn', -, hp⟩ := h c n hn
    rw [parent?_of_node? hn, ← hp, ← parent?_of_node? hn']
    exact hq
  refine ⟨fun i n hn => ?_, fun c q hq _ _ => hparent c q hq, fun hr c q hq => ?_⟩
  · obtain ⟨n', hn', h1, -⟩ := h i n hn
    exact ⟨n', hn', h1⟩
  · have := hr c q (hparent c q hq)
    omega

theorem idem (h : t.Grows P t') (g : t'.Grows P t'') : t.Grows P t'' :=
  (h.trans g).mono fun _ hi => or_self_iff.mp hi

theorem size_le (h : t.Grows P t') : t.size ≤ t'.size := by
  by_contra hlt
  exact Nat.lt_irrefl t'.size (h.has (Nat.lt_of_not_le hlt))

theorem kind? (h : t.Grows P t') {k : NodeKind} (hk : t.kind? i = some k) :
    ∃ k', t'.kind? i = some k' ∧ k'.outline = k.outline := by
  obtain ⟨n, hn, rfl⟩ := kind?_eq_some.mp hk
  obtain ⟨n', hn', h1⟩ := h.nodes i n hn
  exact ⟨n'.kind, kind?_of_node? hn', h1.outline⟩

theorem expr? (h : t.Grows P t') {e : ExprNode} (he : t.expr? i = some e) : t'.expr? i = some e := by
  obtain ⟨k', hk', ho⟩ := h.kind? (expr?_eq_some.mp he)
  rw [expr?_eq_some, hk', NodeKind.eq_expr_of_outline ho]

theorem scope? (h : t.Grows P t') {c : CodeScope} (hc : t.scope? i = some c) :
    t'.scope? i = some c := by
  obtain ⟨k', hk', ho⟩ := h.kind? (scope?_eq_some.mp hc)
  rw [scope?_eq_some, hk', NodeKind.eq_scope_of_outline ho]

/-- A statement keeps its outline, and its place unless it is the one that is placed. -/
theorem stmt? (h : t.Grows P t') {s : StmtNode} (hs : t.stmt? i = some s) :
    ∃ s', t'.stmt? i = some s' ∧ s'.outline = s.outline
      ∧ (¬ P i → { s'.info with isLast := false } = { s.info with isLast := false }) := by
  obtain ⟨n, hn, hk⟩ := kind?_eq_some.mp (stmt?_eq_some.mp hs)
  obtain ⟨n', hn', h1⟩ := h.nodes i n hn
  have ho := h1.outline
  rw [hk] at ho
  obtain ⟨s', hs', ho'⟩ := NodeKind.eq_stmt_of_outline ho
  refine ⟨s', stmt?_eq_some.mpr (by rw [kind?_of_node? hn', hs']), ho', fun hp => ?_⟩
  have hpl := h1.place hp
  rw [hs', hk] at hpl
  exact Option.some.inj hpl

theorem function? (h : t.Grows P t') {f : FunctionNode} (hf : t.function? i = some f) :
    ∃ f', t'.function? i = some f' ∧ f'.name = f.name ∧ f'.returnType = f.returnType
      ∧ f'.params = f.params ∧ (f.body.isSome = true → f'.body.isSome = true) := by
  obtain ⟨n, hn, hk⟩ := kind?_eq_some.mp (function?_eq_some.mp hf)
  obtain ⟨n', hn', h1⟩ := h.nodes i n hn
  have ho := h1.outline
  rw [hk] at ho
  obtain ⟨f', hf', hname, hret, hparams⟩ := NodeKind.eq_function_of_outline ho
  refine ⟨f', function?_eq_some.mpr (by rw [kind?_of_node? hn', hf']), hname, hret, hparams,
    fun hb => ?_⟩
  have := h1.body (by rw [hk]; exact hb)
  rwa [hf'] at this

theorem var? (h : t.Grows P t') {v : Variable} (hv : t.var? i = some v) :
    ∃ v', t'.var? i = some v' ∧ v'.outline = v.outline := by
  obtain ⟨k, hk, hkv⟩ := Option.bind_eq_some_iff.mp hv
  obtain ⟨k', hk', ho⟩ := h.kind? hk
  obtain ⟨v', hv', hvo⟩ := NodeKind.var?_of_outline ho hkv
  exact ⟨v', by simp [Tree.var?, hk', hv'], hvo⟩

theorem filling (h : t.Grows P t') (hi : ¬ P i) {k k' : NodeKind} (hk : t.kind? i = some k)
    (hk' : t'.kind? i = some k') : k'.filling = k.filling := by
  obtain ⟨n, hn, rfl⟩ := kind?_eq_some.mp hk
  obtain ⟨n', hn', h1⟩ := h.nodes i n hn
  obtain rfl := Option.some.inj ((kind?_of_node? hn').symm.trans hk')
  exact h1.filling hi

theorem span (h : t.Grows P t') (hi : t.Has i) : t'.span i = t.span i := by
  obtain ⟨n, hn⟩ := exists_node? hi
  obtain ⟨n', hn', h1⟩ := h.nodes i n hn
  simp [Tree.span, hn, hn', h1.span]

theorem hasErrors (h : t.Grows P t') (hi : t.hasErrors i = true) : t'.hasErrors i = true := by
  obtain ⟨n, hn⟩ := exists_node? (has_of_hasErrors hi)
  obtain ⟨n', hn', h1⟩ := h.nodes i n hn
  rw [hasErrors_of_node? hn] at hi
  rw [hasErrors_of_node? hn', h1.mark hi]

end Grows

/-! ### Uses and sorts of nodes -/

/-- What is noted to refer to a node. -/
def uses (t : Tree) (id : NodeId) : List NodeId := ((t.kind? id).map (·.uses)).getD []

theorem uses_of_kind? {k : NodeKind} (h : t.kind? i = some k) : t.uses i = k.uses := by
  simp [uses, h]

/-- The sort of a node. -/
def sort? (t : Tree) (id : NodeId) : Option NodeSort := (t.kind? id).map (·.sort)

/-- An expression, or what stands for one that could not be resolved. -/
def IsTerm (t : Tree) (id : NodeId) : Prop := t.sort? id = some .expr ∨ t.sort? id = some .error

theorem sort?_of_kind? {k : NodeKind} (h : t.kind? i = some k) : t.sort? i = some k.sort := by
  simp [sort?, h]

/-- A scope of a kind that is asked for. -/
def IsScope (t : Tree) (kinds : ScopeKind → Bool) (id : NodeId) : Prop :=
  ∃ c, t.scope? id = some c ∧ kinds c.kind = true

theorem IsScope.sort? {kinds : ScopeKind → Bool} (h : t.IsScope kinds i) :
    t.sort? i = some .scope := by
  obtain ⟨c, hc, -⟩ := h
  exact sort?_of_kind? (scope?_eq_some.mp hc)

theorem Grows.isScope {kinds : ScopeKind → Bool} (hg : t.Grows P t') (h : t.IsScope kinds i) :
    t'.IsScope kinds i := by
  obtain ⟨c, hc, hk⟩ := h
  exact ⟨c, hg.scope? hc, hk⟩

/-- The variable that a declaration of this sort introduces. -/
theorem var?_of_declaration {d : Nat}
    (h : t.sort? d = some .global ∨ t.sort? d = some .param) :
    ∃ v, t.var? d = some v := by
  rcases h with h | h
  all_goals
    obtain ⟨k, hk, hsort⟩ := Option.map_eq_some_iff.mp h
    cases k <;> cases hsort
    exact ⟨_, by rw [var?, hk]; rfl⟩

theorem has_of_sort? {s : NodeSort} (h : t.sort? i = some s) : t.Has i := by
  obtain ⟨k, hk, -⟩ := Option.map_eq_some_iff.mp h
  exact has_of_kind? hk

theorem IsTerm.has (h : t.IsTerm i) : t.Has i := h.elim has_of_sort? has_of_sort?

theorem Grows.sort? (h : t.Grows P t') {s : NodeSort} (hs : t.sort? i = some s) :
    t'.sort? i = some s := by
  obtain ⟨k, hk, rfl⟩ := Option.map_eq_some_iff.mp hs
  obtain ⟨k', hk', ho⟩ := h.kind? hk
  rw [sort?_of_kind? hk', NodeKind.sort_eq_of_outline ho]

theorem Grows.isTerm (h : t.Grows P t') (hi : t.IsTerm i) : t'.IsTerm i :=
  hi.imp h.sort? h.sort?

/-- What a tree may become while no function or state is filled. -/
abbrev Extends (t t' : Tree) : Prop :=
  t.Grows (fun i => t.sort? i ≠ some .function ∧ t.sort? i ≠ some .state) t'

theorem Extends.trans (h : t.Extends t') (g : t'.Extends t'') : t.Extends t'' :=
  (Grows.trans h g).mono fun _ hi => hi.elim id fun hi =>
    ⟨fun hf => hi.1 (h.sort? hf), fun hs => hi.2 (h.sort? hs)⟩

/-- What a tree may become while none but these functions and states are filled. -/
abbrev Fills (ids : List NodeId) (t t' : Tree) : Prop :=
  t.Grows (fun i => i ∈ ids ∨ (t.sort? i ≠ some .function ∧ t.sort? i ≠ some .state)) t'

theorem Fills.trans {ids ids' : List NodeId} (h : t.Fills ids t') (g : t'.Fills ids' t'') :
    t.Fills (ids ++ ids') t'' :=
  (Grows.trans h g).mono fun i hi => by
    rcases hi with (hi | hi) | (hi | hi)
    · exact .inl (List.mem_append_left _ hi)
    · exact .inr hi
    · exact .inl (List.mem_append_right _ hi)
    · exact .inr ⟨fun hf => hi.1 (h.sort? hf), fun hs => hi.2 (h.sort? hs)⟩

theorem Extends.fills (h : t.Extends t') : t.Fills [] t' := h.mono fun _ hi => .inr hi

/-- A node is the parent of nothing but its parts. -/
def Exact (t : Tree) (q : NodeId) : Prop := ∀ c, t.parent? c = some q → c ∈ t.children q

theorem Exact.grows {q : NodeId} {k : NodeKind} (h : t.Exact q) (hk : t.kind? q = some k)
    (hg : t.Grows P t') (hq : ¬ P q) : t'.Exact q := by
  intro c hc
  obtain ⟨k', hk', ho⟩ := hg.kind? hk
  have hmem := h c (hg.parents c q hc (has_of_kind? hk) hq)
  rw [children_of_kind? hk] at hmem
  rwa [children_of_kind? hk', NodeKind.children_of_filling ho (hg.filling hq hk hk')]

/-! ### What the operations do -/

variable {id : Nat}

theorem grows_modify {f : Node → Node} (hf : ∀ n, t.node? id = some n → n.Grows (P id) (f n))
    (hp : ∀ n, (f n).parent = n.parent) : t.Grows P (t.modify id f) := by
  refine .of_nodes (size_modify f) fun i n hn => ?_
  rw [node?_modify]
  by_cases hi : i = id
  · subst hi
    exact ⟨f n, by simp [hn], hf n hn, hp n⟩
  · exact ⟨n, by simp [hi, hn], .refl n, rfl⟩

/-- What is told of a tree plays no part in how it grew. -/
theorem Grows.same {t'' : Tree} (h : t.Grows P t') (hn : t''.nodes = t'.nodes) : t.Grows P t'' := by
  rcases t' with ⟨nodes', log'⟩
  rcases t'' with ⟨nodes'', log''⟩
  obtain rfl : nodes'' = nodes' := hn
  exact ⟨h.nodes, h.parents, h.rooted⟩

theorem grows_markError : t.Grows P (t.markError id) := by
  refine .of_nodes size_markError fun i n hn => ?_
  obtain ⟨b, hb⟩ := node?_markUpward t.size (some id) hn
  exact ⟨_, hb, .of_mark n n.parent b, rfl⟩

theorem parent?_markError (c : Nat) : (t.markError id).parent? c = t.parent? c := by
  rcases hc : t.node? c with _ | n
  · have hout : (t.markError id).node? c = none := by
      rw [node?_eq_none, size_markError, ← node?_eq_none]
      exact hc
    rw [parent?, parent?, hc, hout]
  · obtain ⟨b, hb⟩ := node?_markUpward t.size (some id) hc
    exact (parent?_of_node? hb).trans (parent?_of_node? hc).symm

/-- Where a parent comes from when a node adopts its children. -/
theorem parent?_adoptChildren {c q : Nat} (h : (t.adoptChildren id).parent? c = some q) :
    c ∈ t.children id ∧ q = id ∨ t.parent? c = some q := by
  have hadopt : Tree.parent? ((t.children id).foldl
      (fun t c => t.modify c fun n => { n with parent := some id }) t) c = some q := by
    unfold adoptChildren at h
    simp only at h
    split at h
    · exact (parent?_markError _).symm.trans h
    · exact h
  obtain ⟨n', hn', hq⟩ := Option.bind_eq_some_iff.mp hadopt
  rw [node?_adopt] at hn'
  obtain ⟨n, hn, rfl⟩ := Option.map_eq_some_iff.mp hn'
  rw [parent?_of_node? hn]
  unfold Node.adoptedBy at hq
  split at hq
  · rename_i hc
    exact .inl ⟨by simpa using hc, (Option.some.inj hq).symm⟩
  · exact .inr hq

theorem grows_adoptChildren (hid : P id) (hhas : t.Has id) : t.Grows P (t.adoptChildren id) := by
  refine ⟨fun i n hn => ?_, fun c q hq _ hno => ?_, fun hr c q hq => ?_⟩
  · have hadopt : Tree.node? ((t.children id).foldl
        (fun t c => t.modify c fun n => { n with parent := some id }) t) i
        = some (n.adoptedBy id ((t.children id).contains i)) := by
      rw [node?_adopt, hn]
      rfl
    have hgrows : n.Grows (P i) (n.adoptedBy id ((t.children id).contains i)) := by
      unfold Node.adoptedBy
      split
      · simpa using Node.Grows.of_mark (P := P i) n (some id) false
      · exact .refl n
    unfold adoptChildren
    simp only
    split
    · obtain ⟨n', hn', hmark⟩ := (grows_markError (P := P)).nodes i _ hadopt
      exact ⟨n', hn', or_self (P i) ▸ hgrows.trans hmark⟩
    · exact ⟨_, hadopt, hgrows⟩
  · rcases parent?_adoptChildren hq with ⟨-, rfl⟩ | hq
    · exact absurd hid hno
    · exact hq
  · rw [Has, size_adoptChildren]
    rcases parent?_adoptChildren hq with ⟨-, rfl⟩ | hq
    · exact hhas
    · exact hr c q hq

theorem parent?_addNode {n : Node} (hp : n.parent = none) {c q : Nat}
    (h : (t.addNode n).parent? c = some q) : t.parent? c = some q := by
  rw [parent?, node?_addNode] at h
  split at h
  · simp [hp] at h
  · exact h

theorem grows_addNode (n : Node) (hp : n.parent = none) : t.Grows P (t.addNode n) := by
  refine ⟨fun i m hm => ?_, fun c q hq _ _ => parent?_addNode hp hq, fun hr c q hq => ?_⟩
  · refine ⟨m, ?_, .refl m⟩
    rw [node?_addNode, if_neg (Nat.ne_of_lt (has_of_node? hm)), hm]
  · have := hr c q (parent?_addNode hp hq)
    simp only [Has, addNode, size, Array.size_push] at this ⊢
    omega

theorem grows_alloc (kind : NodeKind) (span : Span) : t.Grows P (t.alloc kind span).1 := by
  have hnew : P t.size ∨ ¬ t.Has t.size := .inr (Nat.lt_irrefl t.size)
  have hpush : t.Grows P (t.push kind span) := by
    refine .of_old ((grows_addNode _ rfl).idem (grows_adoptChildren hnew ?_))
    simp [Has, addNode, size]
  exact hpush.same rfl

theorem grows_allocError (span : Span) : t.Grows P (t.allocError span).1 := by
  have hmark : (t.alloc .error span).1.Grows P
      ((t.alloc .error span).1.modify t.size fun n => { n with hasErrors := true }) :=
    grows_modify (fun n _ => by simpa using Node.Grows.of_mark (P := P t.size) n n.parent true)
      fun _ => rfl
  exact ((grows_alloc .error span).idem hmark).same rfl

theorem grows_fill {n : Node} {kind : NodeKind} (hn : t.node? id = some n) (hid : P id)
    (ho : kind.outline = n.kind.outline) (hp : kind.placing? = n.kind.placing?)
    (hb : n.kind.body?.isSome = true → kind.body?.isSome = true)
    (hu : n.kind.uses ⊆ kind.uses) :
    t.Grows P (t.fill id kind).1 := by
  unfold fill
  rw [if_pos (has_of_node? hn)]
  have hchange : t.Grows P (t.changeKind id fun _ => kind) := by
    refine grows_modify (fun m hm => ?_) fun m => rfl
    obtain rfl : n = m := Option.some.inj (hn.symm.trans hm)
    exact ⟨rfl, ho, fun _ => hp, hb, fun h => h, hu, fun hn => absurd hid hn⟩
  refine Grows.same (hchange.idem (grows_adoptChildren hid ?_)) rfl
  simpa [changeKind] using has_of_node? hn

theorem exact_alloc (hr : t.Rooted) (kind : NodeKind) (span : Span) :
    (t.alloc kind span).1.Exact t.size := by
  intro c hc
  rw [children_of_kind? (kind?_alloc_self kind span)]
  rcases parent?_adoptChildren hc with ⟨hmem, -⟩ | hold
  · rwa [children_of_kind? (kind?_of_node? (by rw [node?_addNode, if_pos rfl]))] at hmem
  · exact absurd (hr c t.size (parent?_addNode rfl hold)) (Nat.lt_irrefl _)

theorem exact_fill {k kind : NodeKind} (h : t.Exact id) (hk : t.kind? id = some k)
    (hsub : k.children ⊆ kind.children) : (t.fill id kind).1.Exact id := by
  have hhas := has_of_kind? hk
  intro c hc
  rw [children_of_kind? ((kind?_fill kind hhas).trans (if_pos rfl))]
  unfold fill at hc
  rw [if_pos hhas] at hc
  rcases parent?_adoptChildren hc with ⟨hmem, -⟩ | hold
  · obtain ⟨n, hn, -⟩ := kind?_eq_some.mp hk
    have hself : (t.changeKind id fun _ => kind).kind? id = some kind := by
      rw [changeKind, kind?, node?_modify_self, hn]
      rfl
    rwa [children_of_kind? hself] at hmem
  · have hparent : t.parent? c = some id := by
      rw [changeKind, parent?, node?_modify] at hold
      split at hold
      · rw [Option.bind_map] at hold
        exact hold
      · exact hold
    have hmem := h c hparent
    rw [children_of_kind? hk] at hmem
    exact hsub hmem

end Tree

end Lsl
