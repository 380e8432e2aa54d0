/- # Names in expressions

While an expression is resolved, every name in it is looked up once, in the
order the names are written. What is found is what is declared around the
place, and what is not found is reported, with nothing else reported in that
way. The nodes of the expression are numbered as told beforehand, and each
refers only to what can be seen from its place.

Key definitions: `Env.Names`, `ScopeStack.Shows`, `Run.Takes`, `Tree.Sees`.
Key theorems: `bindName_eq_select`, `resolveExpr_takes`.
-/
import Lsl.Proofs.Check.ExprActs
import Lsl.Proofs.Scoping.Rules
import Lsl.Proofs.Scoping.Sites
import Mathlib.Data.List.Forall2

namespace Lsl

variable {library : Catalog} {rules : Rules} {o : Surroundings} {blocks : List BlockView} {env : Env}
  {t t' : Tree} {P : Nat → Prop} {run run' run'' : Run}

/-! ### What the checker knows of the surroundings -/

/-- A frame has the local variables of a block that are not refused. -/
structure Frame.Shows (library : Catalog) (f : Frame) (b : BlockView) : Prop where
  scopeId : f.scopeId = b.scopeId
  locals : ∀ name, f.locals.lookup name = b.local? library name

/-- The open scopes are the blocks around a place. -/
def ScopeStack.Shows (library : Catalog) (s : ScopeStack) (blocks : List BlockView) : Prop :=
  List.Forall₂ (Frame.Shows library) s.frames blocks

namespace ScopeStack.Shows

variable {s : ScopeStack}

theorem lookup? (h : s.Shows library blocks) (name : String) :
    s.lookup? name = blocks.findSome? (·.local? library name) := by
  rcases s with ⟨frames⟩
  change List.Forall₂ (Frame.Shows library) frames blocks at h
  induction h with
  | nil => rfl
  | cons hf _ ih =>
    simp only [ScopeStack.lookup?, List.findSome?_cons, hf.locals] at ih ⊢
    rw [ih]

theorem isOpen (h : s.Shows library blocks) (scopeId : Nat) :
    s.isOpen scopeId = blocks.any (·.scopeId == scopeId) := by
  rcases s with ⟨frames⟩
  change List.Forall₂ (Frame.Shows library) frames blocks at h
  induction h with
  | nil => rfl
  | cons hf _ ih =>
    simp only [ScopeStack.isOpen, List.any_cons, hf.scopeId] at ih ⊢
    rw [ih]

end ScopeStack.Shows

/-- The names that are known outside the blocks stand for what they should. -/
structure Env.Names (library : Catalog) (env : Env) (o : Surroundings) (t : Tree) : Prop where
  functions : ∀ name, env.functions.lookup name = o.function? library name
  declared : ∀ x ∈ o.functions, ∃ f, t.function? x.2 = some f
  globals : ∀ name, env.globals.lookup name = o.global? library name
  params : ∀ name, env.param? name = o.params.lookup name
  labels : ∀ name, (env.label? name).map t.labelSite? = (o.label? name).map some
  library : env.library = library

theorem Env.Names.grows (h : env.Names library o t) (hg : t.Grows P t') :
    env.Names library o t' where
  library := h.library
  functions := h.functions
  declared x hx := by
    obtain ⟨f, hf⟩ := h.declared x hx
    obtain ⟨f', hf', -⟩ := hg.function? hf
    exact ⟨f', hf'⟩
  globals := h.globals
  params := h.params
  labels name := by
    have hl := h.labels name
    cases hid : env.label? name <;> cases hsite : o.label? name <;> simp_all
    exact hg.labelSite? hl

/-- A name is bound by the checker as it should be. -/
theorem bindName_eq_select (h : env.Names library o t) {scopes : ScopeStack}
    (hs : scopes.Shows library blocks) (name : String) :
    bindName env scopes name = o.select library blocks name := by
  simp only [bindName, Surroundings.select, hs.lookup?, h.params, h.globals, h.library]

/-! ### What an expression refers to -/

/-- An expression of this kind refers to something that is declared around it.
`visible` are the local variables there. -/
def Surroundings.Covers (o : Surroundings) (visible : List (String × NodeId)) : ExprKind → Prop
  | .ref name (.inner d) => (name, d) ∈ visible
  | .ref name (.param d) => (name, d) ∈ o.params
  | .ref name (.global d) => (name, d) ∈ o.globals
  | .call name _ (.user f) => (name, f) ∈ o.functions
  | _ => True

theorem BlockView.mem_of_local? {b : BlockView} {name : String} {d : NodeId}
    (h : b.local? library name = some d) : (name, d) ∈ b.locals := by
  unfold local? at h
  split at h
  · cases h
  · exact mem_of_lookup h

theorem Surroundings.mem_of_global? {name : String} {d : NodeId}
    (h : o.global? library name = some d) : (name, d) ∈ o.globals := by
  unfold global? at h
  split at h
  · cases h
  · exact mem_of_lookup h

theorem Surroundings.mem_of_function? {name : String} {f : NodeId}
    (h : o.function? library name = some f) : (name, f) ∈ o.functions := by
  unfold function? at h
  split at h
  · cases h
  · exact mem_of_lookup h

theorem Surroundings.covers_of_select {name : String} {binding : Binding}
    (h : o.select library blocks name = some binding) :
    o.Covers (visibleLocals blocks) (.ref name binding) := by
  unfold select at h
  rcases hl : blocks.findSome? (·.local? library name) with _ | d
  · rcases hp : o.params.lookup name with _ | d
    · rcases hg : o.global? library name with _ | d
      · simp only [hl, hp, hg, Option.map_none, Option.none_or, Option.map_eq_some_iff] at h
        obtain ⟨k, -, rfl⟩ := h
        trivial
      · simp only [hl, hp, hg, Option.map_none, Option.none_or, Option.map_some, Option.some_or,
          Option.some.injEq] at h
        subst h
        exact mem_of_global? hg
    · simp only [hl, hp, Option.map_none, Option.none_or, Option.map_some, Option.some_or,
        Option.some.injEq] at h
      subst h
      exact mem_of_lookup hp
  · simp only [hl, Option.map_some, Option.some_or, Option.some.injEq] at h
    subst h
    obtain ⟨b, hb, hd⟩ := List.exists_of_findSome?_eq_some hl
    exact List.mem_flatMap.mpr ⟨b, hb, BlockView.mem_of_local? hd⟩

/-- An expression and all its parts refer only to what is declared around them,
and follow the rules unless they are wrong. -/
inductive Tree.Sees (t : Tree) (rules : Rules) (o : Surroundings)
    (visible : List (String × NodeId)) : NodeId → Prop where
  | error {id : NodeId} (h : t.kind? id = some .error) (hw : t.hasErrors id = true) :
    Sees t rules o visible id
  | expr {id : NodeId} (e : ExprNode) (h : t.expr? id = some e) (hc : o.Covers visible e.kind)
    (hl : t.Lawful rules e ∨ t.hasErrors id = true)
    (hparts : ∀ c ∈ e.kind.children, Sees t rules o visible c) : Sees t rules o visible id

theorem NodeKind.eq_error_of_outline {k : NodeKind} (h : k.outline = outline .error) :
    k = .error := by
  cases k <;> simp_all [outline]

theorem Tree.Grows.isError {id : NodeId} (hg : t.Grows P t') (h : t.kind? id = some .error) :
    t'.kind? id = some .error := by
  obtain ⟨k', hk', ho⟩ := hg.kind? h
  rw [hk', NodeKind.eq_error_of_outline ho]

theorem Tree.Sees.grows {visible : List (String × NodeId)} {id : NodeId}
    (h : t.Sees rules o visible id) (hg : t.Grows P t') : t'.Sees rules o visible id := by
  induction h with
  | error h hw => exact .error (hg.isError h) (hg.hasErrors hw)
  | expr e h hc hl _ ih => exact .expr e (hg.expr? h) hc (hl.imp (·.grows hg) hg.hasErrors) ih

/-- Nothing is wrong with an expression that is not marked. -/
theorem Tree.Sees.fine {visible : List (String × NodeId)} {id : NodeId}
    (h : t.Sees rules o visible id) (hm : t.hasErrors id = false) : t.Fine id := by
  cases h with
  | error _ hw => simp [hm] at hw
  | expr e h => exact ⟨hm, e, h⟩

theorem Tree.Sees.has {visible : List (String × NodeId)} {id : NodeId}
    (h : t.Sees rules o visible id) : t.Has id := by
  cases h with
  | error h => exact has_of_kind? h
  | expr e h => exact has_of_kind? (expr?_eq_some.mp h)

/-! ### Looking names up -/

/-- The report of a name that stands for nothing. -/
def Notice.isLookup : Notice → Bool
  | .fault kind _ => kind.isLookup
  | .warning .. => false

theorem Site.Bound.grows {s : Site} (h : s.Bound library o t) (hg : t.Grows P t') :
    s.Bound library o t' := by
  cases s with
  | name node ident span blocks =>
    simp only [Bound] at h ⊢
    split at h
    · obtain ⟨ty, constant, he⟩ := h
      exact ⟨ty, constant, hg.expr? he⟩
    · exact hg.isError h
  | call node ident span =>
    simp only [Bound] at h ⊢
    split at h
    · obtain ⟨args, ty, constant, he⟩ := h
      exact ⟨args, ty, constant, hg.expr? he⟩
    · rcases h with h | ⟨f, hf, args, ty, constant, he⟩
      · exact .inl (hg.isError h)
      · exact .inr ⟨f, hf, args, ty, constant, hg.expr? he⟩
  | jump node label span blocks =>
    obtain ⟨target, always, info, hs, hnone, hl⟩ := h
    obtain ⟨s', hs', ho, -⟩ := hg.stmt? hs
    obtain ⟨always', info', rfl⟩ : ∃ always' info', s' = ⟨.jump label target always', info'⟩ := by
      rcases s' with ⟨kind, info'⟩
      cases kind <;> simp_all [StmtNode.outline, StmtKind.outline]
    refine ⟨target, always', info', hs', hnone, fun l hmem => ?_⟩
    obtain ⟨site, hsite, hat⟩ := hl l hmem
    exact ⟨site, hsite, hg.labelSite? hat⟩

/-- The names at these places were looked up: what they stand for is noted, and
those that stand for nothing are reported, in their order. -/
structure Run.Reads (library : Catalog) (o : Surroundings) (sites : List Site) (run run' : Run) :
    Prop where
  grows : run.tree.Extends run'.tree
  notices : run.notices ⊆ run'.notices
  reports : run'.notices.filter (·.isLookup)
    = run.notices.filter (·.isLookup) ++ sites.filterMap (·.report? library o)
  bound : ∀ s ∈ sites, s.Bound library o run'.tree

/-- Besides that, `nodes` nodes were added, and nothing was opened or closed. -/
structure Run.Takes (library : Catalog) (o : Surroundings) (nodes : Nat) (sites : List Site)
    (run run' : Run) : Prop extends run.Reads library o sites run' where
  size : run'.tree.size = run.tree.size + nodes
  scopes : run'.scopes = run.scopes
  labels : run'.labels = run.labels
  lastScope : run'.lastScope = run.lastScope

namespace Run

variable {n m : Nat} {sites more : List Site}

theorem Reads.refl (run : Run) : run.Reads library o [] run :=
  ⟨.refl _ _, List.Subset.refl _, by simp, by simp⟩

theorem Reads.trans (h : run.Reads library o sites run') (g : run'.Reads library o more run'') :
    run.Reads library o (sites ++ more) run'' where
  grows := h.grows.trans g.grows
  notices := List.Subset.trans h.notices g.notices
  reports := by rw [g.reports, h.reports, List.filterMap_append, List.append_assoc]
  bound s hs := by
    rcases List.mem_append.mp hs with hs | hs
    · exact (h.bound s hs).grows g.grows
    · exact g.bound s hs

namespace Takes

theorem refl (run : Run) : run.Takes library o 0 [] run :=
  { Reads.refl run with size := rfl, scopes := rfl, labels := rfl, lastScope := rfl }

theorem trans (h : run.Takes library o n sites run') (g : run'.Takes library o m more run'') :
    run.Takes library o (n + m) (sites ++ more) run'' :=
  { h.toReads.trans g.toReads with
    size := by rw [g.size, h.size, Nat.add_assoc]
    scopes := g.scopes.trans h.scopes
    labels := g.labels.trans h.labels
    lastScope := g.lastScope.trans h.lastScope }

/-- A step on the tree, with what is told about it. -/
theorem made {t : Tree} (notices : List Notice) (hg : run.tree.Extends t)
    (hs : t.size = run.tree.size + m)
    (hr : notices.filter (·.isLookup) = more.filterMap (·.report? library o))
    (hb : ∀ s ∈ more, s.Bound library o t) :
    run.Takes library o m more { run with tree := t, notices := run.notices ++ notices } where
  grows := hg
  notices := List.subset_append_left _ _
  reports := by rw [List.filter_append, hr]
  bound := hb
  size := hs
  scopes := rfl
  labels := rfl
  lastScope := rfl

/-- A step on the tree that nothing is told about. -/
theorem silent {t : Tree} (hg : run.tree.Extends t) (hs : t.size = run.tree.size + m)
    (hr : more.filterMap (·.report? library o) = []) (hb : ∀ s ∈ more, s.Bound library o t) :
    run.Takes library o m more { run with tree := t } := by
  have : run.Takes library o m more { run with tree := t, notices := run.notices ++ [] } :=
    made [] hg hs hr.symm hb
  rwa [List.append_nil] at this

theorem step (h : run.Takes library o n sites run') {t : Tree} (notices : List Notice)
    (more : List Site) (hg : run'.tree.Extends t) (hs : t.size = run'.tree.size + m)
    (hr : notices.filter (·.isLookup) = more.filterMap (·.report? library o))
    (hb : ∀ s ∈ more, s.Bound library o t) :
    run.Takes library o (n + m) (sites ++ more)
      { run' with tree := t, notices := run'.notices ++ notices } :=
  h.trans (made notices hg hs hr hb)

/-- Something is told that is not about a name, and nodes may be marked. -/
theorem tell (h : run.Takes library o n sites run') {t : Tree} (notices : List Notice)
    (hg : run'.tree.Extends t) (hs : t.size = run'.tree.size)
    (hr : ∀ x ∈ notices, x.isLookup = false) :
    run.Takes library o n sites { run' with tree := t, notices := run'.notices ++ notices } := by
  have hnone : notices.filter (·.isLookup) = [] := by simpa using hr
  simpa using h.step (m := 0) notices [] hg hs (by simp [hnone]) (by simp)

theorem say (h : run.Takes library o n sites run') {x : Notice} (hx : x.isLookup = false) :
    run.Takes library o n sites { run' with notices := run'.notices ++ [x] } :=
  h.tell [x] (.refl _ _) rfl (by simpa using hx)

theorem fault (h : run.Takes library o n sites run') (id : NodeId) {x : Notice}
    (hx : x.isLookup = false) :
    run.Takes library o n sites
      { run' with tree := run'.tree.markError id, notices := run'.notices ++ [x] } :=
  h.tell [x] Tree.grows_markError Tree.size_markError (by simpa using hx)

theorem forM {α : Type} {xs : List α} {f : α → Check PUnit}
    (hf : ∀ x ∈ xs, ∀ run', run.Takes library o n sites run' →
      run.Takes library o n sites (f x run').2) (h : run.Takes library o n sites run') :
    run.Takes library o n sites (xs.forM f run').2 := by
  induction xs generalizing run' with
  | nil => exact h
  | cons x rest ih =>
    rw [Check.forM_cons_run]
    exact ih (fun y hy => hf y (List.mem_cons_of_mem _ hy)) (hf x List.mem_cons_self run' h)

theorem names (h : run.Takes library o n sites run') (hn : env.Names library o run.tree) :
    env.Names library o run'.tree := hn.grows h.grows

theorem shows (h : run.Takes library o n sites run') (hs : run.scopes.Shows library blocks) :
    run'.scopes.Shows library blocks := h.scopes ▸ hs

end Takes

end Run

/-! ### Expressions -/

/-- A new expression, whose node is the last one. -/
structure TakesTerm (library : Catalog) (rules : Rules) (o : Surroundings)
    (blocks : List BlockView) (nodes : Nat) (sites : List Site) (run : Run) (r : NodeId × Run) :
    Prop where
  takes : run.Takes library o nodes sites r.2
  last : r.1 + 1 = r.2.tree.size
  sees : r.2.tree.Sees rules o (visibleLocals blocks) r.1

/-- New expressions. -/
structure TakesTerms (library : Catalog) (rules : Rules) (o : Surroundings)
    (blocks : List BlockView) (nodes : Nat) (sites : List Site) (run run' : Run)
    (ids : List NodeId) : Prop where
  takes : run.Takes library o nodes sites run'
  sees : ∀ id ∈ ids, run'.tree.Sees rules o (visibleLocals blocks) id

section

variable {n m : Nat} {sites more : List Site} {ids ids' : List NodeId} {r : NodeId × Run}

theorem TakesTerms.nil (run : Run) : TakesTerms library rules o blocks 0 [] run run [] :=
  ⟨.refl run, by simp⟩

theorem TakesTerm.single (h : TakesTerm library rules o blocks n sites run r) :
    TakesTerms library rules o blocks n sites run r.2 [r.1] :=
  ⟨h.takes, by simpa using h.sees⟩

theorem TakesTerms.append (h : TakesTerms library rules o blocks n sites run run' ids)
    (g : TakesTerms library rules o blocks m more run' run'' ids') :
    TakesTerms library rules o blocks (n + m) (sites ++ more) run run'' (ids ++ ids') where
  takes := h.takes.trans g.takes
  sees id hid := by
    rcases List.mem_append.mp hid with hid | hid
    · exact (h.sees id hid).grows g.takes.grows
    · exact g.sees id hid

end

/-- Where a name is looked up in an expression itself and not in its operands. -/
def Expr.ownSites (blocks : List BlockView) (node : NodeId) : Expr → List Site
  | .ident name span => [.name node name span blocks]
  | .call name _ span => [.call node name span]
  | _ => []

theorem Expr.nodes_eq (e : Expr) : e.nodes = nodesOfExprs e.operands + 1 := by
  cases e <;> simp [Expr.nodes, Expr.operands, nodesOfExprs, Nat.add_assoc]

theorem Expr.sites_eq (e : Expr) (node : NodeId) :
    e.sites blocks node = sitesOfExprs blocks node e.operands
      ++ e.ownSites blocks (node + nodesOfExprs e.operands) := by
  cases e <;> simp [Expr.sites, Expr.operands, Expr.ownSites, sitesOfExprs, nodesOfExprs]

section

variable {e : Expr} {ids : List NodeId} {j : Judgement}

/-- An expression follows the rules if nothing is found wrong with it. -/
theorem Expr.Judged.lawful (h : e.Judged env run ids j) : j.Lawful env.rules run.tree := by
  cases h with
  | integer | hex | float | string => exact .literal rfl rfl rfl rfl
  | vector _ _ _ _ x y z => exact .vector x y z
  | rotation _ _ _ _ _ x y z s => exact .rotation x y z s
  | list _ _ ids => exact .list ids
  | name _ _ binding =>
    refine .literal rfl rfl rfl ?_
    cases binding with
    | constant => exact rfl
    | _ => trivial
  | component _ c _ object => exact .component object c
  | userCall _ _ _ _ _ _ _ hd => exact .userCall hd
  | libraryCall _ _ _ _ _ _ _ hch => exact .libraryCall (chooseOverload_ok hch).1 hch
  | binary op _ _ _ left right => exact .binary op left right
  | prefixed op _ _ operand => exact .prefixed op operand
  | postfixed op _ _ operand => exact .postfixed op operand
  | cast ty _ _ operand => exact .cast ty operand
  | paren _ _ inner => exact .paren inner

theorem Expr.Judged.covers (h : e.Judged env run ids j) (hn : env.Names library o run.tree)
    (hs : run.scopes.Shows library blocks) : o.Covers (visibleLocals blocks) j.node.kind := by
  cases h with
  | name name span binding hb =>
    exact Surroundings.covers_of_select (bindName_eq_select hn hs name ▸ hb)
  | userCall name args span ids function decl hf hd =>
    exact Surroundings.mem_of_function? (hn.functions name ▸ hf)
  | _ => trivial

/-- What an expression means is what its name should be bound to. -/
theorem Expr.Judged.found (h : e.Judged env run ids j) (hn : env.Names library o run.tree)
    (hs : run.scopes.Shows library blocks) {node : NodeId} :
    ∀ s ∈ e.ownSites blocks node, s.report? library o = none
      ∧ ∀ t : Tree, t.expr? node = some j.node → s.Bound library o t := by
  intro s hsite
  cases h with
  | name name span binding hb =>
    obtain rfl := List.mem_singleton.mp hsite
    rw [bindName_eq_select hn hs] at hb
    simp only [Site.report?, Site.Bound, hb]
    exact ⟨rfl, fun t ht => ⟨_, _, ht⟩⟩
  | userCall name args span ids function decl hf hd =>
    obtain rfl := List.mem_singleton.mp hsite
    rw [hn.functions] at hf
    simp only [Site.report?, Site.Bound, hf]
    exact ⟨rfl, fun t ht => ⟨_, _, _, ht⟩⟩
  | libraryCall name args span ids f faults hf hch =>
    obtain rfl := List.mem_singleton.mp hsite
    rw [hn.functions] at hf
    have hmem : f ∈ library.overloads name := hn.library ▸ (chooseOverload_ok hch).1
    have hhas : library.hasFunction name = true := by
      simpa [Catalog.hasFunction] using List.ne_nil_of_mem hmem
    simp only [Site.report?, Site.Bound, hf]
    exact ⟨by simp [hhas], fun t ht => .inr ⟨f, hmem, ids, _, _, ht⟩⟩
  | _ => cases hsite

/-- Where something means nothing, there is a name that should be bound to nothing. It is
reported unless there are functions of the library that it may have meant. -/
theorem Expr.Rejected.missed {ns : List Notice} (h : e.Rejected env run ids ns)
    (hn : env.Names library o run.tree) (hs : run.scopes.Shows library blocks) (node : NodeId) :
    ∃ s, e.ownSites blocks node = [s] ∧ ns.filter (·.isLookup) = (s.report? library o).toList
      ∧ ∀ t : Tree, t.kind? node = some .error → s.Bound library o t := by
  cases h with
  | name name span hb =>
    rw [bindName_eq_select hn hs] at hb
    refine ⟨_, rfl, ?_, fun t ht => ?_⟩
    · simp [Site.report?, hb, Notice.isLookup, Fault.isLookup]
    · simpa only [Site.Bound, hb] using ht
  | function name args span ids function hf hd =>
    obtain ⟨decl, hdecl⟩ := hn.declared _ (Surroundings.mem_of_function? (hn.functions name ▸ hf))
    rw [hd] at hdecl
    cases hdecl
  | call name args span ids kind hf hch =>
    rw [hn.functions] at hf
    rw [hn.library] at hch
    refine ⟨_, rfl, ?_, fun t ht => ?_⟩
    · rcases chooseOverload_error hch with ⟨hnil, rfl⟩ | ⟨hsome, hexpr, -⟩
      · simp [Site.report?, hf, Catalog.hasFunction, hnil, Notice.isLookup, Fault.isLookup]
      · have hhas : library.hasFunction name = true := by
          simpa [Catalog.hasFunction] using hsome
        cases kind with
        | none => simp [Site.report?, hf, hhas]
        | some kind => simp [Site.report?, hf, hhas, Notice.isLookup, (hexpr kind rfl).2]
    · simpa only [Site.Bound, hf] using Or.inl ht

end

theorem filter_isLookup_of_remarks {ns : List Notice} (h : ∀ n ∈ ns, n.IsRemark) :
    ns.filter (·.isLookup) = [] := by
  rw [List.filter_eq_nil_iff]
  intro n hn
  obtain ⟨-, kind, span, rfl⟩ := h n hn
  simp [Notice.isLookup]

theorem Judgement.Marks.filter_isLookup {j : Judgement} (h : j.Marks) :
    (j.faults.map fun x => Notice.fault x.1 x.2).filter (·.isLookup) = [] := by
  rw [List.filter_eq_nil_iff]
  intro n hn
  obtain ⟨x, hx, rfl⟩ := List.mem_map.mp hn
  simpa [Notice.isLookup] using (h x hx).2.2

/-- The node of a judgement on operands follows the rules, or is marked. -/
theorem Judgement.Lawful.marked {j : Judgement} {visible : List (String × NodeId)} (span : Span)
    (hl : j.Lawful rules t) (hparts : ∀ c ∈ j.node.kind.children, t.Sees rules o visible c) :
    (j.tree span t).Lawful rules j.node ∨ (j.tree span t).hasErrors t.size = true := by
  have hgrow : (t.alloc (.expr j.node) span).1.Extends (j.tree span t) := grows_judgement j span t
  by_cases hfaults : j.faults = []
  · by_cases hwrong : j.node.kind.children.any t.hasErrors = true
    · exact .inr (hgrow.hasErrors (Tree.hasErrors_alloc_of_any (.expr j.node) span
        (fun c hmem => (hparts c hmem).has) hwrong))
    · have hfine : ∀ c ∈ j.node.kind.children, t.Fine c := fun c hmem =>
        (hparts c hmem).fine <| by
          simpa using fun hmark => hwrong (List.any_eq_true.mpr ⟨c, hmem, hmark⟩)
      exact .inl ((hl hfaults hfine).grows ((Tree.grows_alloc _ span).idem hgrow))
  · exact .inr (hasErrors_judgement j span t hfaults)

/-- The node of an expression, behind those of its operands. -/
theorem Expr.Made.takes {e : Expr} {n : Nat} {sites : List Site} {ids : List NodeId}
    {r : NodeId × Run} (hmade : e.Made env ids run' r)
    (h : TakesTerms library env.rules o blocks n sites run run' ids)
    (hn : env.Names library o run'.tree) (hs : run'.scopes.Shows library blocks) :
    TakesTerm library env.rules o blocks (n + 1) (sites ++ e.ownSites blocks run'.tree.size)
      run r := by
  cases hmade with
  | judged j hj span said hsaid =>
    have hparts : ∀ c ∈ j.node.kind.children, run'.tree.Sees env.rules o (visibleLocals blocks) c :=
      fun c hc => h.sees c (hj.children ▸ hc)
    have hnote : (j.tree span run'.tree).Extends
        ((j.tree span run'.tree).noteUse run'.tree.size (.expr j.node)) := Tree.grows_noteUse _
    have hgrow : run'.tree.Extends
        ((j.tree span run'.tree).noteUse run'.tree.size (.expr j.node)) :=
      ((Tree.grows_alloc _ span).idem (grows_judgement j span run'.tree)).idem
        (Tree.grows_noteUse _)
    have hself : (j.tree span run'.tree).expr? run'.tree.size = some j.node :=
      (grows_judgement (P := fun _ => True) j span run'.tree).expr?
        (Tree.expr?_eq_some.mpr (Tree.kind?_alloc_self _ span))
    have hsize : ((j.tree span run'.tree).noteUse run'.tree.size (.expr j.node)).size
        = run'.tree.size + 1 := by
      rw [Tree.size_noteUse, size_judgement]
    have hlookups : (said ++ j.faults.map fun x => Notice.fault x.1 x.2).filter (·.isLookup)
        = (e.ownSites blocks run'.tree.size).filterMap (·.report? library o) := by
      rw [List.filter_append, filter_isLookup_of_remarks hsaid, hj.marks.filter_isLookup]
      exact (List.filterMap_eq_nil_iff.mpr fun s hmem => (hj.found hn hs s hmem).1).symm
    rw [List.append_assoc]
    refine ⟨h.takes.step _ _ hgrow hsize hlookups fun s hmem =>
      (hj.found hn hs s hmem).2 _ (hnote.expr? hself), hsize.symm, ?_⟩
    refine .expr j.node (hnote.expr? hself) (hj.covers hn hs) ?_ fun c hc =>
      (hparts c hc).grows hgrow
    exact (hj.lawful.marked span hparts).imp (·.grows hnote) hnote.hasErrors
  | rejected ns hns span =>
    obtain ⟨s, hown, hreport, hbound⟩ := hns.missed hn hs run'.tree.size
    have hnode := Tree.node?_allocError_self (t := run'.tree) span
    have hself := Tree.kind?_of_node? hnode
    rw [hown]
    refine ⟨h.takes.step ns [s] (Tree.grows_allocError span) (Tree.size_allocError span) ?_ ?_,
      (Tree.size_allocError span).symm, .error hself (Tree.hasErrors_of_node? hnode)⟩
    · rw [hreport]
      cases hr : s.report? library o <;> simp [hr]
    · simpa using hbound _ hself

/-- Behind its operands, an expression takes what it is expected to take. -/
theorem Expr.takes_of_operands {e : Expr} (hn : env.Names library o run.tree)
    (hs : run.scopes.Shows library blocks)
    (h : TakesTerms library env.rules o blocks (nodesOfExprs e.operands)
      (sitesOfExprs blocks run.tree.size e.operands) run (resolveExprs env e.operands run).2
      (resolveExprs env e.operands run).1) :
    TakesTerm library env.rules o blocks e.nodes (e.sites blocks run.tree.size) run
      (resolveExpr env e run) := by
  rw [e.nodes_eq, e.sites_eq, ← h.takes.size]
  exact (resolveExpr_made env e run).takes h (h.takes.names hn) (h.takes.shows hs)

theorem resolveExprs_takes (env : Env) (es : List Expr) (run : Run) :
    env.Names library o run.tree → run.scopes.Shows library blocks →
      TakesTerms library env.rules o blocks (nodesOfExprs es) (sitesOfExprs blocks run.tree.size es)
        run (resolveExprs env es run).2 (resolveExprs env es run).1 := by
  induction es using exprs_induction generalizing run with
  | nil => exact fun _ _ => .nil run
  | cons e rest hoperands hrest =>
    intro hn hs
    have he := (Expr.takes_of_operands hn hs (hoperands run hn hs)).single
    have hmore := hrest _ (he.takes.names hn) (he.takes.shows hs)
    rw [he.takes.size] at hmore
    exact he.append hmore

/-- **An expression becomes the nodes it is expected to become**, and the names
in it are bound to what is declared around them. -/
theorem resolveExpr_takes (env : Env) (e : Expr) (run : Run) (hn : env.Names library o run.tree)
    (hs : run.scopes.Shows library blocks) :
    TakesTerm library env.rules o blocks e.nodes (e.sites blocks run.tree.size) run
      (resolveExpr env e run) :=
  Expr.takes_of_operands hn hs (resolveExprs_takes env e.operands run hn hs)

/-! ### Expressions in their places -/

theorem resolveOption_takes (hn : env.Names library o run.tree)
    (hs : run.scopes.Shows library blocks) (e : Option Expr) :
    TakesTerms library env.rules o blocks (nodesOfExprs e.toList)
      (sitesOfExprs blocks run.tree.size e.toList) run (resolveOption env e run).2
      (resolveOption env e run).1.toList := by
  cases e with
  | none => exact .nil run
  | some e =>
    simp only [Option.toList_some, nodesOfExprs, sitesOfExprs, Nat.add_zero, List.append_nil]
    exact (resolveExpr_takes env e run hn hs).single

theorem resolveCondition_takes (hn : env.Names library o run.tree)
    (hs : run.scopes.Shows library blocks) (cond : Expr) :
    TakesTerm library env.rules o blocks cond.nodes (cond.sites blocks run.tree.size) run
      (resolveCondition env cond run) := by
  have h := resolveExpr_takes env cond run hn hs
  obtain ⟨⟨id, run'⟩, hr⟩ : ∃ r, resolveExpr env cond run = r := ⟨_, rfl⟩
  rw [hr] at h
  rw [resolveCondition_run hr]
  split
  · exact h
  · split
    · exact ⟨h.takes.fault id rfl, h.last.trans Tree.size_markError.symm,
        h.sees.grows (Tree.grows_markError (P := fun _ => True))⟩
    · split
      · exact ⟨h.takes.say rfl, h.last, h.sees⟩
      · exact h

/-- A condition has a value, unless it is wrong. -/
theorem resolveCondition_suits (hn : env.Names library o run.tree)
    (hs : run.scopes.Shows library blocks) (cond : Expr) :
    (resolveCondition env cond run).2.tree.Suits (resolveCondition env cond run).1
      (validCondition · = true) := by
  have h := resolveExpr_takes env cond run hn hs
  obtain ⟨⟨id, run'⟩, hr⟩ : ∃ r, resolveExpr env cond run = r := ⟨_, rfl⟩
  rw [hr] at h
  rw [resolveCondition_run hr]
  split
  · rename_i hu
    exact .inr (Bool.and_eq_true_iff.mp hu).1
  · split
    · exact .inr (Tree.hasErrors_markError_self h.sees.has)
    · rename_i hvalid
      have hsuits : run'.tree.Suits id (validCondition · = true) := by
        refine Tree.suits_of_exprType (by simpa using hvalid) fun hvoid => hvalid ?_
        simp [hvoid, validCondition, Ty.isVoid]
      split <;> exact hsuits

theorem checkInitializer_run (decl : NodeId) (name : String) (ty : Ty) (init : NodeId) (run : Run) :
    (some init).forM (checkInitializer decl name ty) run
      = if !run.tree.untyped init && !assignable ty (run.tree.exprType init) then
          Check.faultAt decl (.initializerMismatch name ty (run.tree.exprType init))
            (run.tree.span init) run
        else ((), run) := Check.ite_run _ _ _ run

theorem checkInitializer_takes (decl : NodeId) (name : String) (ty : Ty) (init : Option NodeId)
    (run : Run) :
    run.Takes library o 0 [] (init.forM (checkInitializer decl name ty) run).2 := by
  cases init with
  | none => exact .refl run
  | some init =>
    rw [checkInitializer_run]
    split
    · exact (Run.Takes.refl run).fault decl rfl
    · exact .refl run

/-- An initial value fits its variable, or else the declaration is wrong. -/
theorem checkInitializer_suits {decl : NodeId} (name : String) (ty : Ty) (init : Option NodeId)
    (hd : run.tree.Has decl) :
    let run' := (init.forM (checkInitializer decl name ty) run).2
    ∀ c ∈ init, run'.tree.Suits c (assignable ty · = true)
      ∨ run'.tree.hasErrors decl = true ∧ ∃ n ∈ run'.notices, n.isFault = true := by
  rintro run' init rfl
  simp only [run', checkInitializer_run]
  split
  · exact .inr ⟨Tree.hasErrors_markError_self hd, _,
      List.mem_append_right _ List.mem_cons_self, rfl⟩
  · rename_i hfits
    refine .inl ?_
    by_cases hu : run.tree.untyped init = true
    · exact .inr (Bool.and_eq_true_iff.mp hu).1
    · have hassign : assignable ty (run.tree.exprType init) = true := by simpa [hu] using hfits
      refine Tree.suits_of_exprType hassign fun hvoid => ?_
      simp [assignable, hvoid, Ty.isVoid] at hassign

end Lsl
