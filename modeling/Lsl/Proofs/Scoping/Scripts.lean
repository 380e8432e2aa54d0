/- # Names in scripts

Every script is checked to the end. Its bodies become what they are expected to
become, one after the other, so every name in the script stands for what is
declared around it.

Key definitions: `Run.HoldsBody`.
Key theorems: `enterBody_at`, `resolveFunction_gives`, `resolveHandler_gives`.
-/
import Lsl.Proofs.Scoping.Declarations

namespace Lsl

variable {library : Catalog} {rules : Rules} {o : Surroundings} {env : Env} {t t' : Tree} {P : Nat → Prop}
  {run run' run'' : Run}

open CheckBody

/-! ### Entering bodies -/

/-- Labels have names of their own when the first one is free and the others
are free beside it. -/
theorem labels_free_cons {site : LabelSite} {rest : List LabelSite} {known known₂ : Names}
    {id : NodeId} (hlook : ∀ name, known₂.lookup name
      = (known.lookup name).or (([(site.name, id)] : Names).lookup name))
    (hsite : known.lookup site.name = none) (hfree : ∀ s ∈ rest, known₂.lookup s.name = none)
    (hnodup : (rest.map (·.name)).Nodup) :
    (∀ s ∈ site :: rest, known.lookup s.name = none)
      ∧ ((site :: rest).map (·.name)).Nodup := by
  have hother : ∀ s ∈ rest, known.lookup s.name = none ∧ s.name ≠ site.name := by
    intro s hs
    have hnone := hfree s hs
    rw [hlook, Option.or_eq_none_iff] at hnone
    refine ⟨hnone.1, fun heq => ?_⟩
    rw [heq, List.lookup_cons_self] at hnone
    cases hnone.2
  refine ⟨fun s hs => ?_, ?_⟩
  · rcases List.mem_cons.mp hs with rfl | hs
    · exact hsite
    · exact (hother s hs).1
  · rw [List.map_cons, List.nodup_cons]
    refine ⟨fun hmem => ?_, hnodup⟩
    obtain ⟨s, hs, heq⟩ := List.mem_map.mp hmem
    exact (hother s hs).2 heq

/-- Labels are made one after the other. -/
theorem declareLabels_takes (sites : List LabelSite) (known : Names) (run : Run) :
    let r := declareLabels known sites run
    run.Takes library o sites.length [] r.2 ∧ r.1.2 = List.range' run.tree.size sites.length
      ∧ List.Forall₂ (fun id site => r.2.tree.labelSite? id = some site) r.1.2 sites
      ∧ (∀ name, (r.1.1.lookup name).map r.2.tree.labelSite?
        = ((known.lookup name).map r.2.tree.labelSite?).or
          ((sites.find? (·.name == name)).map some))
      ∧ ((∀ s ∈ sites, known.lookup s.name = none) ∧ (sites.map (·.name)).Nodup ∨ r.2.Wrong) := by
  induction sites generalizing known run with
  | nil =>
    refine ⟨.refl run, rfl, .nil, fun name => ?_, .inl (by simp)⟩
    change (known.lookup name).map run.tree.labelSite?
      = ((known.lookup name).map run.tree.labelSite?).or none
    rw [Option.or_none]
  | cons site rest ih =>
    let kind : NodeKind := .stmt
      { kind := .label site.name [], info := { index := site.index, scopeId := site.scopeId } }
    let run₁ : Run := { run with tree := (run.tree.alloc kind site.span).1 }
    have hmade : run.Takes library o 1 [] run₁ :=
      .silent (Tree.grows_alloc kind site.span) (Tree.size_alloc kind site.span) rfl (by simp)
    obtain ⟨hname, hlook, htaken⟩ : run₁.Takes library o _ _ _ ∧ _ ∧ _ :=
      declareName_takes known site.name run.tree.size site.span
        (.labelRedefined site.name) (fun _ => rfl) run₁
    obtain ⟨⟨known₂, run₂⟩, hr⟩ : ∃ r, declareName known site.name run.tree.size site.span
        (.labelRedefined site.name) run₁ = r := ⟨_, rfl⟩
    rw [hr] at hname hlook htaken
    simp only at hlook htaken
    obtain ⟨hrest, hids, hat, hlook', hfree⟩ : run₂.Takes library o _ _ _ ∧ _ ∧ _ ∧ _ ∧ _ :=
      ih known₂ run₂
    have hsize : run₂.tree.size = run.tree.size + 1 := (hmade.trans hname).size
    have hself : run₁.tree.labelSite? run.tree.size = some site := by
      have hnode := Tree.node?_alloc_self (t := run.tree) kind site.span
        (by simp [kind, NodeKind.children, StmtKind.children])
      exact Tree.labelSite?_eq_some.mpr ⟨_, _, stmt?_alloc _ site.span,
        by simp [run₁, Tree.span, hnode], rfl, rfl⟩
    have hself' : (declareLabels known₂ rest run₂).2.tree.labelSite? run.tree.size = some site :=
      (hname.grows.trans hrest.grows).labelSite? hself
    simp only [declareLabels_run rest hr]
    refine ⟨?_, ?_, .cons hself' hat, fun name => ?_, ?_⟩
    · have := (hmade.trans hname).trans hrest
      rwa [show 1 + 0 + rest.length = (site :: rest).length by simp [Nat.add_comm]] at this
    · rw [hids, hsize]
      rfl
    · rw [hlook', hlook, Option.map_or, Option.or_assoc, List.find?_cons]
      congr 1
      by_cases heq : site.name = name
      · subst heq
        rw [List.lookup_cons_self]
        simp [hself']
      · rw [lookup_singleton_of_ne (Ne.symm heq)]
        simp [beq_eq_false_iff_ne.mpr heq]
    · rcases hfree with ⟨hfree, hnodup⟩ | hwrong
      · cases hk : known.lookup site.name with
        | some d => exact .inr ((htaken (by simp [hk])).mono hrest.notices)
        | none => exact .inl (labels_free_cons hlook hk hfree hnodup)
      · exact .inr hwrong

/-- Parameters are known by their names. -/
theorem bindParams_takes (globals : Names) (params : List (String × NodeId)) (known : Names)
    (run : Run) (hv : run.tree.HasVars params) :
    let r := bindParams globals known (params.map (·.2)) run
    run.Takes library o 0 [] r.2
      ∧ ∀ name, r.1.lookup name = (known.lookup name).or (params.lookup name) := by
  induction params generalizing known run with
  | nil =>
    refine ⟨.refl run, fun name => ?_⟩
    change known.lookup name = (known.lookup name).or none
    rw [Option.or_none]
  | cons x rest ih =>
    rcases x with ⟨name, id⟩
    obtain ⟨v, hvar, rfl⟩ := hv _ List.mem_cons_self
    let known₁ := if (known.lookup v.name).isSome then known else known ++ [(v.name, id)]
    have hknown₁ : ∀ other, known₁.lookup other
        = (known.lookup other).or (List.lookup other [(v.name, id)]) := by
      intro other
      simp only [known₁]
      split
      · rename_i hsome
        by_cases heq : other = v.name
        · rw [heq, Option.or_of_isSome hsome]
        · rw [lookup_singleton_of_ne heq, Option.or_none]
      · exact List.lookup_append
    obtain ⟨run₁, hsay, hrun⟩ : ∃ run₁, run.Takes library o 0 [] run₁
        ∧ bindParams globals known (((v.name, id) :: rest).map (·.2)) run
          = bindParams globals known₁ (rest.map (·.2)) run₁ := by
      simp only [List.map_cons, bindParams]
      rw [Check.bind_run, Check.tree_run]
      simp only [hvar]
      by_cases hg : (globals.lookup v.name).isSome = true
      · simp only [hg, ↓reduceIte]
        exact ⟨_, (Run.Takes.refl run).say rfl, rfl⟩
      · simp only [hg, Bool.false_eq_true, ↓reduceIte]
        exact ⟨_, .refl run, rfl⟩
    obtain ⟨hrest, hlook⟩ := ih known₁ run₁ fun y hy =>
      (hv.grows hsay.grows) y (List.mem_cons_of_mem _ hy)
    simp only [hrun]
    refine ⟨hsay.trans hrest, fun other => ?_⟩
    rw [hlook, hknown₁, Option.or_assoc, ← List.lookup_append]
    rfl

/-- What is known when a body is entered. -/
theorem enterBody_at (hn : env.Names library o run.tree) {params : List (String × NodeId)}
    (hv : run.tree.HasVars params) (name : String) (returnType : Ty) (isEvent : Bool)
    (body : Block) :
    ∃ inner run',
      enterBody env name returnType isEvent (params.map (·.2)) body run = (inner, run')
      ∧ inner.At library { o with params, labels := body.labelSites } [] run' body.labelSites
        (List.range' run.tree.size body.labelSites.length) []
      ∧ run.Reads library o [] run' ∧ run'.tree.size = run.tree.size + body.labelSites.length
      ∧ run'.lastScope = 0 ∧ ((body.labelSites.map (·.name)).Nodup ∨ run'.Wrong)
      ∧ inner.rules = ⟨library, false, if isEvent then none else some returnType⟩ := by
  obtain ⟨hbind, hparams⟩ : run.Takes library o _ _ _ ∧ _ :=
    bindParams_takes env.globals params [] run hv
  obtain ⟨⟨names, run₁⟩, hr₁⟩ : ∃ r, bindParams env.globals [] (params.map (·.2)) run = r := ⟨_, rfl⟩
  rw [hr₁] at hbind hparams
  obtain ⟨hmade, hids, hat, hlabels, hfree⟩ : run₁.Takes library o _ _ _ ∧ _ ∧ _ ∧ _ ∧ _ :=
    declareLabels_takes body.labelSites [] run₁
  obtain ⟨⟨⟨byName, labels⟩, run₂⟩, hr₂⟩ : ∃ r, declareLabels [] body.labelSites run₁ = r :=
    ⟨_, rfl⟩
  rw [hr₂] at hmade hids hat hlabels hfree
  obtain rfl : labels = List.range' run.tree.size body.labelSites.length :=
    hids.trans (by rw [show run₁.tree.size = _ from hbind.size, Nat.add_zero])
  have hall := hbind.trans hmade
  have hn₂ := hn.grows hall.grows
  refine ⟨{ env with body := some { name, returnType, isEvent, params := names, labels := byName } },
    { run₂ with
      scopes := {}, labels := List.range' run.tree.size body.labelSites.length, lastScope := 0 },
    ?_, ⟨?_, .nil, by simp, hat, _, rfl⟩,
    ⟨hall.grows, hall.notices, hall.reports, by simp⟩, ?_, rfl, ?_, ?_⟩
  · unfold enterBody
    rw [Check.bind_run, hr₁, Check.bind_run, hr₂]
    rfl
  · refine ⟨hn₂.functions, hn₂.declared, hn₂.globals, fun other => ?_, fun other => ?_, hn₂.library⟩
    · exact (hparams other).trans Option.none_or
    · exact (hlabels other).trans Option.none_or
  · exact hall.size.trans (by simp)
  · exact hfree.imp_left And.right
  · cases isEvent <;> simp [Env.rules, Env.isStatic, hn.library]

/-! ### Bodies -/

/-- A body that was resolved: the names in it, its scopes in their order, and its
labels, which were made one after the other and are where they were found. -/
def Run.HoldsBody (rules : Rules) (o : Surroundings) (block : Block) (body : NodeId) (run : Run) : Prop :=
  ∃ last first, run.Arms rules o [] [body] 0 last (List.range' first block.labelSites.length)
    ∧ List.Forall₂ (fun l site => run.tree.labelSite? l = some site)
      (List.range' first block.labelSites.length) block.labelSites
    ∧ ((block.labelSites.map (·.name)).Nodup ∨ run.Wrong)

theorem Run.HoldsBody.grows {block : Block} {body : NodeId} (h : run.HoldsBody rules o block body)
    (hg : run.tree.Grows P run'.tree) (hn : run.notices ⊆ run'.notices) :
    run'.HoldsBody rules o block body := by
  obtain ⟨last, first, harms, hat, hfree⟩ := h
  exact ⟨last, first, harms.grows hg hn, hat.imp fun _ _ h => hg.labelSite? h,
    hfree.imp_right (·.mono hn)⟩

/-- What was done from entering a body to its scope. -/
structure Run.MakesBody (library : Catalog) (rules : Rules) (o : Surroundings) (block : Block) (run : Run)
    (body : NodeId) (run' : Run) : Prop extends
    run.Reads library o (surveyBlock run.tree.size block).sites run' where
  size : run'.tree.size = (surveyBlock run.tree.size block).node
  holds : run'.HoldsBody rules o block body

/-- From entering a body to what comes behind its scope. -/
theorem body_gives {β : Type} {f : NodeId → CheckBody β} {R : β → Run → Prop}
    (hn : env.Names library o run.tree) {params : List (String × NodeId)}
    (hv : run.tree.HasVars params) (name : String) (returnType : Ty) (isEvent : Bool)
    (block : Block) (kind : ScopeKind)
    (hf : ∀ body run',
      run.MakesBody library ⟨library, false, if isEvent then none else some returnType⟩
        { o with params, labels := block.labelSites } block body run' → (f body).Gives run' R) :
    Gives ((liftM (enterBody env name returnType isEvent (params.map (·.2)) block) : CheckBody Env)
        >>= fun inner => resolveBlock inner kind block >>= f) run R := by
  obtain ⟨inner, run₁, henter, hat, hreads, hsize, hlast, hfree, hrules⟩ :=
    enterBody_at hn hv name returnType isEvent block
  refine .lift_bind ?_
  rw [henter]
  have hat' : inner.At library { o with params, labels := block.labelSites } [] run₁
      (labelsOfStmts (run₁.lastScope + 1) 0 (run₁.lastScope + 1) block.stmts).2
      (List.range' run.tree.size block.labelSites.length) [] := by
    rw [hlast]
    exact hat
  refine (givesParts_braced (givesStmts block.stmts) kind block.span [] run₁ _ [] hat').bind
    fun body run' hmade => hf body run' ?_
  have hgoes : run₁.Goes library { o with params, labels := block.labelSites }
      (surveyBlock run.tree.size block) [] run' := by
    have hgoes := hmade.goes
    rw [hlast, hsize] at hgoes
    exact hgoes
  have harms := hmade.arms
  rw [hlast, hrules] at harms
  refine ⟨⟨hreads.grows.trans hgoes.grows, List.Subset.trans hreads.notices hgoes.notices, ?_,
    hgoes.bound⟩,
    hgoes.size, run'.lastScope, run.tree.size, harms, ?_, hfree.imp_right (·.mono hgoes.notices)⟩
  · rw [hgoes.reports, hreads.reports, List.filterMap_nil, List.append_nil]
  · exact hat.next.imp fun _ _ h => hgoes.grows.labelSite? h

/-! ### Functions -/

/-- A warning about something that may not be there. -/
theorem warnUnused_takes {α : Type} {n : Nat} {sites : List Site}
    (h : run.Takes library o n sites run') (found : Option α) (unused : α → Bool)
    (warning : α → Warning) (span : Span) :
    run.Takes library o n sites ((found.forM fun a =>
      if unused a then Check.warn (warning a) span else pure () : Check Unit) run').2 := by
  cases found with
  | none => exact h
  | some a =>
    change run.Takes library o n sites
      ((if unused a then Check.warn (warning a) span else pure () : Check Unit) run').2
    rw [Check.ite_run]
    split
    · exact h.say rfl
    · exact h

theorem warnUnusedParams_takes (params : List NodeId) (run : Run) :
    run.Takes library o 0 [] (warnUnusedParams params run).2 :=
  (Run.Takes.refl run).forM fun id _ run' h =>
    warnUnused_takes h (run'.tree.var? id) (·.references.isEmpty) (.parameterNeverUsed ·.name) _

/-- What is declared around the body of a function. -/
def Surroundings.inFunction (o : Surroundings) (d : FunctionDecl) (id : NodeId) : Surroundings :=
  { o with params := numberParams (id - d.params.length) d.params, labels := d.body.labelSites }

/-- The node is the function with its body. -/
def Run.HoldsFunction (library : Catalog) (o : Surroundings) (d : FunctionDecl) (id : NodeId)
    (run : Run) : Prop :=
  ∃ f body, run.tree.function? id = some f ∧ f.name = d.name ∧ f.returnType = d.returnType
    ∧ f.params = (o.inFunction d id).params.map (·.2) ∧ run.tree.HasVars (o.inFunction d id).params
    ∧ f.body = some body ∧ run.HoldsBody (.ofFunction library d) (o.inFunction d id) d.body body
    ∧ run.tree.Exact id

theorem finishFunction_gives {d : FunctionDecl} {id body : NodeId}
    (hf : run.tree.HasFunction d id)
    (hb : run.HoldsBody (.ofFunction library d) (o.inFunction d id) d.body body) :
    (finishFunction id body).Gives run fun _ run' =>
      run.ReadsAll library [id] [] run' ∧ run'.tree.size = run.tree.size
        ∧ run'.HoldsFunction library o d id := by
  obtain ⟨f, hf, hname, hret, hparams, hvars, hnone, hexact⟩ := hf
  have hkind := Tree.function?_eq_some.mp hf
  obtain ⟨n, hnode, hk⟩ := Tree.kind?_eq_some.mp hkind
  have hgrows : run.tree.Fills [id]
      (run.tree.fill id (.function { f with body := some body })).1 :=
    Tree.grows_fill hnode (.inl List.mem_cons_self) (by rw [hk]; rfl) (by rw [hk]; rfl)
      (fun _ => rfl) (by rw [hk]; exact List.Subset.refl _)
  unfold finishFunction
  refine .lift_bind ?_
  have hexpect : CheckBody.expect (run.tree.function? id) id "function"
      { run with scopes := {}, labels := [] }
      = .ok (f, { run with scopes := {}, labels := [] }) := by
    rw [hf]
    rfl
  refine ⟨(), { run with
    scopes := {}, labels := [], tree := (run.tree.fill id (.function { f with body := some body })).1 },
    ?_, ⟨hgrows, List.Subset.refl _, by simp, by simp⟩, Tree.size_fill _,
    { f with body := some body }, body, Tree.function?_eq_some.mpr ?_, hname, hret, hparams,
    hvars.grows hgrows, rfl, ?_, Tree.exact_fill hexact hkind ?_⟩
  · change ((CheckBody.expect (run.tree.function? id) id "function" : CheckBody FunctionNode)
      { run with scopes := {}, labels := [] } >>= fun s => _) = _
    rw [hexpect]
    rfl
  · exact (Tree.kind?_fill _ (Tree.has_of_kind? hkind)).trans (if_pos rfl)
  · exact hb.grows hgrows (List.Subset.refl _)
  · simp [NodeKind.children, hnone]

theorem resolveFunction_gives {d : FunctionDecl} {id : NodeId}
    (hn : env.Names library o run.tree) (hf : run.tree.HasFunction d id) :
    let survey := surveyBlock run.tree.size d.body
    (resolveFunction env d id).Gives run fun _ run' =>
      run.ReadsAll library [id] (survey.sites.map (o.inFunction d id, ·)) run'
        ∧ run'.tree.size = survey.node ∧ run'.HoldsFunction library o d id := by
  intro survey
  have ⟨f, hfun, _, _, hparams, hvars, _⟩ := hf
  unfold resolveFunction
  refine .get_bind ?_
  rw [hfun, expect_some, pure_bind, hparams]
  refine body_gives hn hvars d.name d.returnType false d.body .functionBody fun body run₁ hmade => ?_
  have hend : ∀ run₂, run₁.Takes library o 0 [] run₂ →
      (finishFunction id body).Gives run₂ fun _ run' =>
        run.ReadsAll library [id] (survey.sites.map (o.inFunction d id, ·)) run'
          ∧ run'.tree.size = survey.node ∧ run'.HoldsFunction library o d id := fun run₂ h => by
    refine (finishFunction_gives (hf.extends (hmade.grows.trans h.grows))
      (hmade.holds.grows h.grows h.notices)).mono fun _ run' hfin => ?_
    obtain ⟨hreads, hsize, hholds⟩ := hfin
    have hall := (hmade.toReads.all.trans h.toReads.all).trans hreads
    simp only [List.map_nil, List.append_nil, List.nil_append] at hall
    exact ⟨hall, hsize.trans (h.size.trans hmade.size), hholds⟩
  have hwarn : ∀ run₂, run₁.Takes library o 0 [] run₂ →
      Gives (if env.warnUnused = true then
        (liftM (warnUnusedParams ((numberParams (id - d.params.length) d.params).map (·.2))) :
          CheckBody Unit) >>= fun _ => finishFunction id body
        else finishFunction id body) run₂ fun _ run' =>
        run.ReadsAll library [id] (survey.sites.map (o.inFunction d id, ·)) run'
          ∧ run'.tree.size = survey.node ∧ run'.HoldsFunction library o d id := fun run₂ h => by
    split
    · exact .lift_bind (hend _ (h.trans (warnUnusedParams_takes _ run₂)))
    · exact hend run₂ h
  refine .get_bind ?_
  simp only
  split
  · exact .lift_bind (hwarn _ ((Run.Takes.refl run₁).fault id rfl))
  · exact hwarn run₁ (.refl run₁)

/-! ### Event handlers -/

/-- What is declared around the body of an event handler, whose first node is
`node`. -/
def Surroundings.inHandler (o : Surroundings) (d : HandlerDecl) (node : NodeId) : Surroundings :=
  { o with params := numberParams node d.params, labels := d.body.labelSites }

/-- The node is the event handler with its body. -/
def Run.HoldsHandler (library : Catalog) (o : Surroundings) (run : Run) (d : HandlerDecl)
    (id : NodeId) : Prop :=
  ∃ node h, run.tree.kind? id = some (.handler h) ∧ h.name = d.name
    ∧ h.params = (numberParams node d.params).map (·.2)
    ∧ run.tree.HasVars (numberParams node d.params)
    ∧ run.HoldsBody (.ofHandler library) (o.inHandler d node) d.body h.body

theorem Run.HoldsHandler.grows {d : HandlerDecl} {id : NodeId} (h : run.HoldsHandler library o d id)
    (hg : run.tree.Grows P run'.tree) (hn : run.notices ⊆ run'.notices) :
    run'.HoldsHandler library o d id := by
  obtain ⟨node, n, hkind, hname, hparams, hvars, hbody⟩ := h
  obtain ⟨k', hk', ho⟩ := hg.kind? hkind
  obtain rfl := NodeKind.eq_handler_of_outline ho
  exact ⟨node, n, hk', hname, hparams, hvars.grows hg, hbody.grows hg hn⟩

/-- The number of the node behind an event handler. -/
def surveyHandler (node : NodeId) (d : HandlerDecl) : Survey :=
  (surveyBlock (node + d.params.length) d.body).close

theorem handlerFault?_isLookup {d : HandlerDecl} {kind : Fault}
    (h : handlerFault? library d = some kind) : kind.isLookup = false := by
  unfold handlerFault? at h
  unfold Fault.isLookup
  grind

theorem finishHandler_gives {d : HandlerDecl} {node : NodeId} (hn : env.Names library o run.tree)
    (hv : run.tree.HasVars (numberParams node d.params)) :
    let survey := surveyBlock run.tree.size d.body
    (finishHandler env d ((numberParams node d.params).map (·.2))).Gives run fun id run' =>
      run.Reads library (o.inHandler d node) survey.sites run'
        ∧ run'.tree.size = survey.node + 1 ∧ run'.HoldsHandler library o d id := by
  intro survey
  unfold finishHandler
  refine body_gives hn hv d.name .void true d.body .eventBody fun body run₁ hmade => ?_
  let params := (numberParams node d.params).map (·.2)
  let kind : NodeKind := .handler { name := d.name, params, body }
  let run₂ : Run := { run₁ with
    scopes := {}, labels := [], tree := (run₁.tree.alloc kind d.span).1 }
  have hreads : run₁.Reads library (o.inHandler d node) [] run₂ :=
    ⟨Tree.grows_alloc kind d.span, List.Subset.refl _, by simp [run₂], by simp⟩
  have hsize : run₂.tree.size = run₁.tree.size + 1 := Tree.size_alloc kind d.span
  have hholds : run₂.HoldsHandler library o d run₁.tree.size :=
    ⟨node, _, Tree.kind?_alloc_self kind d.span, rfl, rfl,
      hv.grows (hmade.grows.trans hreads.grows), hmade.holds.grows hreads.grows hreads.notices⟩
  have hend : ∀ run', run₂.Takes library (o.inHandler d node) 0 [] run' →
      run.Reads library (o.inHandler d node) survey.sites run' ∧ run'.tree.size = survey.node + 1
        ∧ run'.HoldsHandler library o d run₁.tree.size := fun run' h => by
    have hall := hmade.toReads.trans (hreads.trans h.toReads)
    rw [List.append_nil, List.append_nil] at hall
    refine ⟨hall, ?_, hholds.grows h.grows h.notices⟩
    rw [h.size, Nat.add_zero, hsize, hmade.size]
  refine .lift_bind (.lift_bind ?_)
  rcases hf : handlerFault? env.library d with _ | fault
  · exact ⟨_, _, rfl, hend run₂ (.refl run₂)⟩
  · exact ⟨_, _, rfl, hend _ ((Run.Takes.refl run₂).fault run₁.tree.size
      (handlerFault?_isLookup hf))⟩

theorem resolveHandler_gives (d : HandlerDecl) (hn : env.Names library o run.tree) :
    let survey := surveyHandler run.tree.size d
    (resolveHandler env d).Gives run fun id run' =>
      run.Reads library (o.inHandler d run.tree.size) survey.sites run'
        ∧ run'.tree.size = survey.node ∧ run'.HoldsHandler library o d id := by
  intro survey
  obtain rfl := hn.library
  obtain ⟨hparams, hids, hvars⟩ :
      run.Takes env.library (o.inHandler d run.tree.size) _ _ _ ∧ _ ∧ _ :=
    declareParams_takes d.params [] run
  obtain ⟨⟨params, run₁⟩, hr⟩ : ∃ r, declareParams env.library [] d.params run = r := ⟨_, rfl⟩
  rw [hr] at hparams hids hvars
  have hend : ∀ run₂, run₁.Takes env.library (o.inHandler d run.tree.size) 0 [] run₂ →
      (finishHandler env d params).Gives run₂ fun id run' =>
        run.Reads env.library (o.inHandler d run.tree.size) survey.sites run'
          ∧ run'.tree.size = survey.node ∧ run'.HoldsHandler env.library o d id := fun run₂ h => by
    have hbefore := hparams.trans h
    have hsize : run₂.tree.size = run.tree.size + d.params.length := hbefore.size
    rw [show params = _ from hids]
    refine (finishHandler_gives (hn.grows hbefore.grows) (hvars.grows h.grows)).mono
      fun id run' hfin => ?_
    rw [hsize] at hfin
    exact ⟨hbefore.toReads.trans hfin.1, hfin.2⟩
  unfold resolveHandler
  refine .lift_bind ?_
  rw [hr]
  simp only
  split
  · exact .lift_bind (hend _ ((Run.Takes.refl run₁).say rfl))
  · exact hend run₁ (.refl run₁)

/-- Event handlers are resolved one after the other. -/
theorem resolveHandlers_gives (state : String) (ds : List HandlerDecl) (seen : List String)
    (hn : env.Names library o run.tree) :
    (resolveHandlers env state seen ds).Gives run fun ids run' =>
      run.ReadsAll library [] (sitesOfHandlers o run.tree.size ds).2 run'
        ∧ run'.tree.size = (sitesOfHandlers o run.tree.size ds).1
        ∧ List.Forall₂ (run'.HoldsHandler library o) ds ids := by
  induction ds generalizing seen run with
  | nil => exact .pure ⟨.refl run, rfl, .nil⟩
  | cons d rest ih =>
    unfold resolveHandlers
    refine (resolveHandler_gives d hn).bind fun id run₁ hone => ?_
    obtain ⟨hreads, hsize, hholds⟩ := hone
    have hend : ∀ run₂, run₁.Takes library o 0 [] run₂ →
        Gives (resolveHandlers env state (d.name :: seen) rest >>= fun more =>
          (pure (id :: more) : CheckBody (List NodeId))) run₂ fun ids run' =>
        run.ReadsAll library [] (sitesOfHandlers o run.tree.size (d :: rest)).2 run'
          ∧ run'.tree.size = (sitesOfHandlers o run.tree.size (d :: rest)).1
          ∧ List.Forall₂ (run'.HoldsHandler library o) (d :: rest) ids := fun run₂ h => by
      have hsize₂ : run₂.tree.size = (surveyBlock (run.tree.size + d.params.length) d.body).node + 1 :=
        h.size.trans hsize
      refine (ih (d.name :: seen) (hn.grows (hreads.grows.trans h.grows))).bind
        fun ids run' hrest => ?_
      rw [hsize₂] at hrest
      obtain ⟨hreads', hsize', hholds'⟩ := hrest
      have hlater := h.toReads.all.trans hreads'
      have hall := hreads.all.trans hlater
      simp only [List.map_nil, List.append_nil, List.nil_append] at hall
      exact .pure ⟨hall, hsize', .cons (hholds.grows hlater.grows hlater.notices) hholds'⟩
    split
    · exact .lift_bind (hend _ ((Run.Takes.refl run₁).fault id rfl))
    · exact hend run₁ (.refl run₁)

/-! ### States -/

/-- The state has its event handlers. -/
def Run.HoldsState (library : Catalog) (o : Surroundings) (run : Run) (d : StateDecl)
    (id : NodeId) : Prop :=
  ∃ s, run.tree.kind? id = some (.state s) ∧ s.name = d.name
    ∧ List.Forall₂ (run.HoldsHandler library o) d.handlers s.handlers ∧ run.tree.Exact id

theorem resolveState_gives {d : StateDecl} {id : NodeId} (hn : env.Names library o run.tree)
    (hs : run.tree.HasState d id) :
    (resolveState env d id).Gives run fun _ run' =>
      run.ReadsAll library [id] (sitesOfHandlers o run.tree.size d.handlers).2 run'
        ∧ run'.tree.size = (sitesOfHandlers o run.tree.size d.handlers).1
        ∧ run'.HoldsState library o d id := by
  unfold resolveState
  refine (resolveHandlers_gives d.name d.handlers [] hn).bind fun handlers run₁ hmade => ?_
  obtain ⟨hreads, hsize, hholds⟩ := hmade
  obtain ⟨s, hkind, hname, hnone, hexact⟩ := hs.fills hreads.grows List.not_mem_nil
  obtain ⟨n, hnode, hk⟩ := Tree.kind?_eq_some.mp hkind
  let t := (run₁.tree.fill id (.state { s with handlers })).1
  have hfills : run₁.ReadsAll library [id] [] { run₁ with tree := t } :=
    ⟨Tree.grows_fill hnode (.inl List.mem_cons_self) (by rw [hk]; rfl) (by rw [hk]; rfl)
      (by rw [hk]; exact fun h => h) (by rw [hk]; exact List.Subset.refl _),
      List.Subset.refl _, by simp, by simp⟩
  refine .get_bind ?_
  rw [hkind]
  refine ⟨(), { run₁ with tree := t }, rfl, ?_, (Tree.size_fill _).trans hsize,
    { s with handlers }, ?_, hname, ?_, Tree.exact_fill hexact hkind ?_⟩
  · have hall := hreads.trans hfills
    rwa [List.append_nil] at hall
  · exact (Tree.kind?_fill _ (Tree.has_of_kind? hkind)).trans (if_pos rfl)
  · exact hholds.imp fun _ _ h => h.grows hfills.grows hfills.notices
  · simp [NodeKind.children, hnone]

/-! ### One after the other -/

theorem Run.HoldsFunction.fills {d : FunctionDecl} {id : NodeId} {ids : List NodeId}
    (h : run.HoldsFunction library o d id) (hg : run.tree.Fills ids run'.tree) (hid : id ∉ ids)
    (hn : run.notices ⊆ run'.notices) : run'.HoldsFunction library o d id := by
  obtain ⟨f, body, hf, hname, hret, hparams, hvars, hbody, hholds, hexact⟩ := h
  obtain ⟨f', hf', hname', hret', hparams', hbody', hexact'⟩ := hg.function? hid hf
  exact ⟨f', body, hf', hname'.trans hname, hret'.trans hret, hparams'.trans hparams,
    hvars.grows hg, hbody'.trans hbody, hholds.grows hg hn, hexact' hexact⟩

theorem Run.HoldsState.fills {d : StateDecl} {id : NodeId} {ids : List NodeId}
    (h : run.HoldsState library o d id) (hg : run.tree.Fills ids run'.tree) (hid : id ∉ ids)
    (hn : run.notices ⊆ run'.notices) : run'.HoldsState library o d id := by
  obtain ⟨s, hs, hname, hholds, hexact⟩ := h
  obtain ⟨s', hs', hname', hhandlers, hexact'⟩ := hg.state? hid hs
  exact ⟨s', hs', hname'.trans hname, hhandlers ▸ hholds.imp fun _ _ h => h.grows hg hn,
    hexact' hexact⟩

/-- Declared nodes are filled one after the other. `survey` tells where the
places in them are. -/
theorem fillAll_gives {δ : Type} {fill : δ × NodeId → CheckBody Unit}
    (Has : Tree → δ × NodeId → Prop) (Holds : Run → δ × NodeId → Prop)
    (survey : NodeId → List (δ × NodeId) → NodeId × List (Surroundings × Site))
    (hnil : ∀ node, survey node [] = (node, []))
    (hcons : ∀ node x rest, survey node (x :: rest)
      = ((survey (survey node [x]).1 rest).1,
        (survey node [x]).2 ++ (survey (survey node [x]).1 rest).2))
    (hhas : ∀ {t t' : Tree} {ids x}, Has t x → t.Fills ids t' → x.2 ∉ ids → Has t' x)
    (hholds : ∀ {run run' : Run} {ids x}, Holds run x → run.tree.Fills ids run'.tree → x.2 ∉ ids →
      run.notices ⊆ run'.notices → Holds run' x)
    (hstep : ∀ run x, env.Names library o run.tree → Has run.tree x →
      (fill x).Gives run fun _ run' =>
        run.ReadsAll library [x.2] (survey run.tree.size [x]).2 run'
          ∧ run'.tree.size = (survey run.tree.size [x]).1 ∧ Holds run' x)
    (xs : List (δ × NodeId)) (hn : env.Names library o run.tree)
    (hxs : ∀ x ∈ xs, Has run.tree x) (hd : (xs.map (·.2)).Nodup) :
    (xs.forM fill).Gives run fun _ run' =>
      run.ReadsAll library (xs.map (·.2)) (survey run.tree.size xs).2 run'
        ∧ run'.tree.size = (survey run.tree.size xs).1 ∧ ∀ x ∈ xs, Holds run' x := by
  induction xs generalizing run with
  | nil =>
    rw [hnil]
    exact .pure ⟨.refl run, rfl, by simp⟩
  | cons x rest ih =>
    rw [List.map_cons, List.nodup_cons] at hd
    refine Gives.bind (hstep run x hn (hxs x List.mem_cons_self)) fun _ run₁ hone => ?_
    obtain ⟨hreads, hsize, hone⟩ := hone
    have hother : ∀ y ∈ rest, y.2 ∉ [x.2] := fun y hy heq =>
      hd.1 (List.mem_map.mpr ⟨y, hy, List.mem_singleton.mp heq⟩)
    refine (ih (hn.grows hreads.grows) (fun y hy => hhas (hxs y (List.mem_cons_of_mem _ hy))
      hreads.grows (hother y hy)) hd.2).mono fun _ run' hrest => ?_
    obtain ⟨hreads', hsize', hall⟩ := hrest
    rw [hsize] at hreads' hsize'
    rw [hcons]
    refine ⟨hreads.trans hreads', hsize', fun y hy => ?_⟩
    rcases List.mem_cons.mp hy with rfl | hy
    · exact hholds hone hreads'.grows hd.1 hreads'.notices
    · exact hall y hy

theorem sitesOfHandlers_append (node : NodeId) (ds ds' : List HandlerDecl) :
    sitesOfHandlers o node (ds ++ ds')
      = ((sitesOfHandlers o (sitesOfHandlers o node ds).1 ds').1,
        (sitesOfHandlers o node ds).2 ++ (sitesOfHandlers o (sitesOfHandlers o node ds).1 ds').2) := by
  induction ds generalizing node with
  | nil => rfl
  | cons d rest ih =>
    rw [List.cons_append, sitesOfHandlers, sitesOfHandlers]
    simp only [ih, List.append_assoc]

theorem resolveFunctions_gives (xs : List (FunctionDecl × NodeId))
    (hn : env.Names library o run.tree) (hxs : ∀ x ∈ xs, run.tree.HasFunction x.1 x.2)
    (hd : (xs.map (·.2)).Nodup) :
    (xs.forM fun x => resolveFunction env x.1 x.2).Gives run fun _ run' =>
      run.ReadsAll library (xs.map (·.2)) (sitesOfFunctions o run.tree.size xs).2 run'
        ∧ run'.tree.size = (sitesOfFunctions o run.tree.size xs).1
        ∧ ∀ x ∈ xs, run'.HoldsFunction library o x.1 x.2 := by
  refine fillAll_gives (fun t x => t.HasFunction x.1 x.2)
    (fun run x => run.HoldsFunction library o x.1 x.2)
    (sitesOfFunctions o) (fun _ => rfl) ?_ (fun h hg hid => h.fills hg hid)
    (fun h hg hid hn => h.fills hg hid hn) (fun run x hn hx => ?_) xs hn hxs hd
  · intro node x rest
    simp only [sitesOfFunctions, List.append_nil]
  · simp only [sitesOfFunctions, List.append_nil]
    exact resolveFunction_gives hn hx

theorem resolveStates_gives (xs : List (StateDecl × NodeId)) (hn : env.Names library o run.tree)
    (hxs : ∀ x ∈ xs, run.tree.HasState x.1 x.2) (hd : (xs.map (·.2)).Nodup) :
    (xs.forM fun x => resolveState env x.1 x.2).Gives run fun _ run' =>
      run.ReadsAll library (xs.map (·.2))
          (sitesOfHandlers o run.tree.size (xs.flatMap (·.1.handlers))).2 run'
        ∧ run'.tree.size = (sitesOfHandlers o run.tree.size (xs.flatMap (·.1.handlers))).1
        ∧ ∀ x ∈ xs, run'.HoldsState library o x.1 x.2 := by
  refine fillAll_gives (fun t x => t.HasState x.1 x.2) (fun run x => run.HoldsState library o x.1 x.2)
    (fun node xs => sitesOfHandlers o node (xs.flatMap (·.1.handlers))) (fun _ => rfl) ?_
    (fun h hg hid => h.fills hg hid) (fun h hg hid hn => h.fills hg hid hn) (fun run x hn hx => ?_) xs hn
    hxs hd
  · intro node x rest
    simp only [List.flatMap_cons, List.flatMap_nil, List.append_nil, sitesOfHandlers_append]
  · simp only [List.flatMap_cons, List.flatMap_nil, List.append_nil]
    exact resolveState_gives hn hx

/-! ### The whole script -/

theorem numberFunctions_pairwise (node : NodeId) (ds : List FunctionDecl) :
    (∀ x ∈ numberFunctions node ds, node ≤ x.2)
      ∧ (numberFunctions node ds).Pairwise fun x y => x.2 < y.2 := by
  induction ds generalizing node with
  | nil => simp [numberFunctions]
  | cons d rest ih =>
    obtain ⟨hle, hlt⟩ := ih (node + d.params.length + 1)
    rw [numberFunctions, List.forall_mem_cons, List.pairwise_cons]
    refine ⟨⟨Nat.le_add_right _ _, fun x hx => Nat.le_trans ?_ (hle x hx)⟩, hle, hlt⟩
    exact Nat.le_add_right_of_le (Nat.le_add_right _ _)

@[simp] theorem length_numberFunctions (node : NodeId) (ds : List FunctionDecl) :
    (numberFunctions node ds).length = ds.length := by
  induction ds generalizing node with
  | nil => rfl
  | cons d rest ih => rw [numberFunctions, List.length_cons, ih, List.length_cons]

theorem zip_numberFunctions (node : NodeId) (ds : List FunctionDecl) :
    ds.zip ((numberFunctions node ds).map (·.2)) = numberFunctions node ds := by
  induction ds generalizing node with
  | nil => rfl
  | cons d rest ih => rw [numberFunctions, List.map_cons, List.zip_cons_cons, ih]

theorem warnUnusedGlobals_takes (globals functions : List NodeId) (run : Run) :
    run.Takes library o 0 [] (warnUnusedGlobals globals functions run).2 :=
  ((Run.Takes.refl run).forM fun id _ run' h =>
    warnUnused_takes h (run'.tree.var? id) (·.references.isEmpty) (.globalNeverUsed ·.name) _).forM
    fun id _ run' h =>
      warnUnused_takes h (run'.tree.function? id) (·.references.isEmpty) (.functionNeverUsed ·.name) _

/-- What the declarations of a script leave behind, before the bodies. -/
structure Env.Opens (library : Catalog) (script : Script) (env : Env) (n : ScriptNode) (run : Run) :
    Prop where
  names : env.Names library script.aroundBodies run.tree
  size : run.tree.size = script.firstBodyNode
  functions : n.functions = script.functionNodes.map (·.2)
  declared : ∀ x ∈ script.functionNodes, run.tree.HasFunction x.1 x.2
  defaultState : List.Forall₂ run.tree.HasState script.defaultState.toList n.defaultState.toList
  states : List.Forall₂ run.tree.HasState script.states n.states
  distinct : (n.defaultState.toList ++ n.states).Nodup

/-- All states, the default state first. -/
def ScriptNode.allStates (n : ScriptNode) : List NodeId := n.defaultState.toList ++ n.states

/-- A script with its bodies. -/
structure Run.HoldsBodies (library : Catalog) (script : Script) (n : ScriptNode) (run : Run) : Prop where
  functions : ∀ x ∈ script.functionNodes, run.HoldsFunction library script.aroundBodies x.1 x.2
  states : List.Forall₂ (run.HoldsState library script.aroundBodies) script.allStates n.allStates

theorem Run.HoldsBodies.fills {script : Script} {n : ScriptNode} (h : run.HoldsBodies library script n)
    (hg : run.tree.Fills [] run'.tree) (hn : run.notices ⊆ run'.notices) :
    run'.HoldsBodies library script n where
  functions x hx := (h.functions x hx).fills hg List.not_mem_nil hn
  states := h.states.imp fun _ _ hs => hs.fills hg List.not_mem_nil hn

/-- States in pairs with their nodes. -/
theorem forall₂_states {ds : List StateDecl} {ids : List NodeId} {R : StateDecl → NodeId → Prop}
    (h : List.Forall₂ R ds ids) :
    (∀ x ∈ ds.zip ids, R x.1 x.2) ∧ (ds.zip ids).map (·.2) = ids
      ∧ (ds.zip ids).flatMap (·.1.handlers) = ds.flatMap (·.handlers) := by
  have hlength := h.length_eq
  refine ⟨fun x hx => (List.forall₂_iff_zip.mp h).2 hx,
    List.map_snd_zip (Nat.le_of_eq hlength.symm), ?_⟩
  have hfst : (ds.zip ids).map (·.1) = ds := List.map_fst_zip (Nat.le_of_eq hlength)
  calc (ds.zip ids).flatMap (·.1.handlers)
      = ((ds.zip ids).map (·.1)).flatMap (·.handlers) := (List.flatMap_map ..).symm
    _ = ds.flatMap (·.handlers) := by rw [hfst]

theorem Env.Opens.function_ne_state {script : Script} {n : ScriptNode}
    (h : env.Opens library script n run) {x : FunctionDecl × NodeId}
    (hx : x ∈ script.functionNodes) : x.2 ∉ n.defaultState.toList ++ n.states := by
  intro hmem
  obtain ⟨f, hf, -⟩ := h.declared x hx
  have hall : List.Forall₂ run.tree.HasState script.allStates (n.defaultState.toList ++ n.states) :=
    List.rel_append h.defaultState h.states
  obtain ⟨i, hi, heq⟩ := List.mem_iff_getElem.mp hmem
  obtain ⟨s, hs, -⟩ := (List.forall₂_iff_get.mp hall).2 i (hall.length_eq ▸ hi) hi
  have hkind := Tree.function?_eq_some.mp hf
  rw [← heq] at hkind
  cases hkind.symm.trans hs

/-- The places in the bodies, those of the default state apart. -/
theorem Script.bodySites_eq (script : Script) :
    let functions := sitesOfFunctions script.aroundBodies script.firstBodyNode script.functionNodes
    let first := sitesOfHandlers script.aroundBodies functions.1
      (script.defaultState.toList.flatMap (·.handlers))
    script.bodySites = functions.2 ++ (first.2
      ++ (sitesOfHandlers script.aroundBodies first.1 (script.states.flatMap (·.handlers))).2) := by
  simp only [bodySites, allStates, List.flatMap_append, sitesOfHandlers_append]

/-- What was done from the declarations of a script to its end. -/
structure Run.MakesScript (library : Catalog) (script : Script) (n : ScriptNode) (run : Run)
    (root : NodeId) (run' : Run) : Prop where
  reads : ∃ ids, run.ReadsAll library ids script.bodySites run'
  kind : run'.tree.kind? root = some (.script n)
  bodies : run'.HoldsBodies library script n

theorem resolveBodies_gives {script : Script} {n : ScriptNode}
    (h : env.Opens library script n run) :
    (resolveBodies env script n).Gives run (run.MakesScript library script n) := by
  obtain ⟨hnodup, hnodup', hapart⟩ := List.nodup_append.mp h.distinct
  obtain ⟨hdefault, hids, hhandlers⟩ := forall₂_states h.defaultState
  obtain ⟨hstates, hids', hhandlers'⟩ := forall₂_states h.states
  unfold resolveBodies
  rw [h.functions, show script.functions.zip (script.functionNodes.map (·.2)) = script.functionNodes
    from zip_numberFunctions 0 script.functions]
  refine Gives.bind (resolveFunctions_gives script.functionNodes h.names h.declared
    (((numberFunctions_pairwise 0 script.functions).2.imp Nat.ne_of_lt).map _ fun _ _ h => h))
    fun _ run₁ hf => ?_
  obtain ⟨hreads₁, hsize₁, hbodies⟩ := hf
  have hother : ∀ s ∈ n.defaultState.toList ++ n.states, s ∉ script.functionNodes.map (·.2) := by
    intro s hs hf
    obtain ⟨x, hx, rfl⟩ := List.mem_map.mp hf
    exact h.function_ne_state hx hs
  refine Gives.bind (resolveStates_gives _ (h.names.grows hreads₁.grows)
    (fun x hx => (hdefault x hx).fills hreads₁.grows
      (hother _ (List.mem_append_left _ (List.of_mem_zip hx).2))) (by rwa [hids]))
    fun _ run₂ hd => ?_
  obtain ⟨hreads₂, hsize₂, hfirst⟩ := hd
  refine Gives.bind (resolveStates_gives _ ((h.names.grows hreads₁.grows).grows hreads₂.grows)
    (fun x hx => ((hstates x hx).fills hreads₁.grows
      (hother _ (List.mem_append_right _ (List.of_mem_zip hx).2))).fills hreads₂.grows ?_)
    (by rwa [hids'])) fun _ run₃ hs => ?_
  · rw [hids]
    exact fun hmem => hapart _ hmem _ (List.of_mem_zip hx).2 rfl
  obtain ⟨hreads₃, hsize₃, hothers⟩ := hs
  rw [hids, hhandlers] at hreads₂
  rw [hids', hhandlers'] at hreads₃
  have hreads := hreads₁.trans (hreads₂.trans hreads₃)
  have hlater := hreads₂.trans hreads₃
  have hholds : run₃.HoldsBodies library script n := by
    refine ⟨fun x hx => (hbodies x hx).fills hlater.grows (h.function_ne_state hx) hlater.notices,
      List.rel_append ?_ ?_⟩
    · refine List.forall₂_iff_zip.mpr ⟨h.defaultState.length_eq, fun hx => ?_⟩
      exact (hfirst _ hx).fills hreads₃.grows
        (fun hmem => hapart _ (List.of_mem_zip hx).2 _ hmem rfl) hreads₃.notices
    · exact List.forall₂_iff_zip.mpr ⟨h.states.length_eq, fun hx => hothers _ hx⟩
  have hend : ∀ run₄, run₃.Takes library script.aroundBodies 0 [] run₄ →
      Gives (liftM (Check.alloc (.script n) script.span) : CheckBody NodeId) run₄
        (run.MakesScript library script n) := fun run₄ hsay => by
    let run' : Run := { run₄ with tree := (run₄.tree.alloc (.script n) script.span).1 }
    have hmade : run₄.Takes library script.aroundBodies 1 [] run' :=
      .silent (Tree.grows_alloc _ _) (Tree.size_alloc _ _) rfl (by simp)
    have hlast := (hsay.trans hmade).toReads.all
    have hall := hreads.trans hlast
    simp only [hsize₂, hhandlers, hsize₁, h.size, List.append_nil, List.map_nil] at hall
    rw [← script.bodySites_eq] at hall
    exact .lift ⟨⟨_, hall⟩, Tree.kind?_alloc_self _ _, hholds.fills hlast.grows hlast.notices⟩
  split
  · exact .lift_bind (hend _ (warnUnusedGlobals_takes _ _ run₃))
  · exact hend run₃ (.refl run₃)

/-- A script that was resolved: its declarations and its bodies, what each name
in it stands for, and the reports about names that stand for nothing. -/
structure Run.HoldsScript (library : Catalog) (script : Script) (root : NodeId) (n : ScriptNode)
    (run : Run) : Prop extends run.HoldsBodies library script n where
  kind : run.tree.kind? root = some (.script n)
  functionIds : n.functions = script.functionNodes.map (·.2)
  globalIds : n.globals = script.globalNodes.map (·.2)
  globals : run.tree.HasGlobals (.ofGlobal library) script.outermost script.globalNodes
  bound : ∀ x ∈ script.sites, x.2.Bound library x.1 run.tree
  reports : run.notices.filter (·.isLookup)
    = script.sites.filterMap fun x => x.2.report? library x.1

/-- What the declarations and the globals of a script leave behind. -/
structure Run.OpensScript (library : Catalog) (script : Script) (env : Env) (n : ScriptNode)
    (run : Run) : Prop where
  opens : env.Opens library script n run
  globalIds : n.globals = script.globalNodes.map (·.2)
  globals : run.tree.HasGlobals (.ofGlobal library) script.outermost script.globalNodes
  reads : ({} : Run).ReadsAll library []
    (sitesOfGlobals script.outermost script.firstGlobalNode script.globals) run

theorem openScript_opens {warnUnused : Bool} {script : Script} {n : ScriptNode}
    (h : openScript library warnUnused script {} = ((env, n), run)) :
    run.OpensScript library script env n := by
  have hroot : ({} : Run).tree.Rooted := fun c q hq => by simp [Tree.parent?, Tree.node?] at hq
  obtain ⟨hfun, hfunIds, hfunNames, hdeclared⟩ : ({} : Run).Takes library script.outermost _ _ _
      ∧ _ ∧ _ ∧ _ := declareFunctions_takes script.functions [] {} hroot
  unfold openScript at h
  rw [Check.bind_run] at h
  obtain ⟨⟨⟨functionNames, functions⟩, run₁⟩, hr₁⟩ :
    ∃ r, declareFunctions library [] script.functions {} = r := ⟨_, rfl⟩
  rw [hr₁] at hfun hfunIds hfunNames hdeclared
  simp only [hr₁] at h
  obtain ⟨hdef, hdefIds, hdefault⟩ : run₁.Takes library script.outermost _ _ _ ∧ _ ∧ _ :=
    declareDefaultState_takes script run₁ (hfun.grows.rooted hroot)
  rw [Check.bind_run] at h
  obtain ⟨⟨⟨stateNames, defaultState⟩, run₂⟩, hr₂⟩ : ∃ r, declareDefaultState script run₁ = r :=
    ⟨_, rfl⟩
  rw [hr₂] at hdef hdefIds hdefault
  simp only [hr₂] at h
  obtain ⟨hst, hstIds, hstates⟩ : run₂.Takes library script.outermost _ _ _ ∧ _ ∧ _ :=
    declareStates_takes script.states stateNames run₂ (hdef.grows.rooted (hfun.grows.rooted hroot))
  rw [Check.bind_run] at h
  obtain ⟨⟨⟨stateNames', states⟩, run₃⟩, hr₃⟩ :
    ∃ r, declareStates stateNames script.states run₂ = r := ⟨_, rfl⟩
  rw [hr₃] at hst hstIds hstates
  simp only [hr₃] at h
  let outer : Env := { library, warnUnused, functions := functionNames, states := stateNames' }
  have hlater := hdef.trans hst
  have hdecl := hfun.trans hlater
  have hnames : outer.Names library script.outermost run₃.tree := by
    refine ⟨hfunNames, fun x hx => ?_, fun name => ?_, fun _ => rfl, fun _ => rfl, rfl⟩
    · obtain ⟨y, hy, rfl⟩ := List.mem_map.mp hx
      obtain ⟨f, hf, -⟩ := (hdeclared y hy).extends hlater.grows
      exact ⟨f, hf⟩
    · simp [outer, Surroundings.global?, Script.outermost]
  have hsize₃ : run₃.tree.size = script.firstGlobalNode := by
    rw [show run₃.tree.size = _ from hdecl.size, show ({} : Run).tree.size = 0 from rfl,
      Script.firstGlobalNode, Script.allStates, List.length_append]
    omega
  obtain ⟨hreads, hsize, hglobalIds, hnames', hglobals⟩ : run₃.ReadsAll library _ _ _ ∧ _ ∧ _ ∧ _ ∧ _ :=
    resolveGlobals_reads script.globals outer script.outermost run₃ hnames (hdecl.scopes ▸ .nil)
  rw [Check.bind_run] at h
  obtain ⟨⟨⟨globalNames, globals⟩, run₄⟩, hr₄⟩ :
    ∃ r, resolveGlobals outer script.globals run₃ = r := ⟨_, rfl⟩
  rw [hr₄] at hreads hsize hglobalIds hnames' hglobals
  simp only [outer] at hr₄
  simp only [hr₄] at h
  obtain ⟨hvalue, rfl⟩ := Prod.mk.inj h
  obtain ⟨rfl, rfl⟩ := Prod.mk.inj hvalue
  have hall := hdecl.toReads.all.trans hreads
  rw [hsize₃] at hall hglobals
  simp only [List.append_nil, List.map_nil, List.nil_append] at hall
  refine ⟨⟨?_, hsize.trans (by rw [hsize₃]; rfl), hfunIds,
    fun x hx => ((hdeclared x hx).extends hlater.grows).fills hreads.grows List.not_mem_nil,
    hdefault.imp fun _ _ h => (h.extends hst.grows).fills hreads.grows List.not_mem_nil,
    hstates.imp fun _ _ h => h.fills hreads.grows List.not_mem_nil, ?_⟩,
    hglobalIds.trans (by rw [hsize₃]; rfl), hglobals, hall⟩
  · rw [hsize₃] at hnames'
    exact hnames'
  · rw [show defaultState.toList = _ from hdefIds, show states = _ from hstIds,
      show run₂.tree.size = _ from hdef.size, List.range'_append_1]
    exact List.nodup_range'

/-- Every script is resolved to the end. -/
theorem resolveScript_gives (library : Catalog) (warnUnused : Bool) (script : Script) :
    (resolveScript library warnUnused script).Gives {} fun root run =>
      ∃ n, run.HoldsScript library script root n := by
  obtain ⟨⟨⟨env, n⟩, run⟩, hopen⟩ : ∃ r, openScript library warnUnused script {} = r := ⟨_, rfl⟩
  obtain ⟨hopens, hglobalIds, hglobals, hreads⟩ := openScript_opens hopen
  obtain ⟨root, run', hrun, hdone⟩ := resolveBodies_gives hopens
  obtain ⟨ids, hbodies⟩ := hdone.reads
  have hall := hreads.trans hbodies
  exact ⟨root, run', (resolveScript_run hopen).trans hrun, n, hdone.bodies, hdone.kind,
    hopens.functions, hglobalIds, hglobals.grows hbodies.grows, hall.bound, hall.reports⟩

/-- **Every script is checked to the end**, and the tree holds what it should. -/
theorem Script.check_holds (script : Script) (library : Catalog) (options : CheckOptions) :
    ∃ (c : CheckedScript) (run : Run) (n : ScriptNode),
      script.check library options = .ok c ∧ run.HoldsScript library script c.root n
      ∧ run.tree = c.tree ∧ c.notices.Perm run.notices
      ∧ c.hasErrors = (run.notices.any (·.isFault) || c.tree.hasErrors c.root) := by
  obtain ⟨root, run, hrun, n, hholds⟩ := resolveScript_gives library options.warnUnused script
  refine ⟨⟨run.tree, root, run.notices.any (·.isFault) || run.tree.hasErrors root,
    if options.sortNotices then Notice.sort run.notices else run.notices⟩, run, n, ?_, hholds, rfl,
    ?_, rfl⟩
  · unfold Script.check
    change ((resolveScript library options.warnUnused script) {} >>= fun r => _) = _
    rw [hrun]
    rfl
  · change (if options.sortNotices = true then Notice.sort run.notices else run.notices).Perm _
    split
    · exact List.mergeSort_perm _ _
    · exact .refl _

end Lsl
