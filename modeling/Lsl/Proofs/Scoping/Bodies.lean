/- # Names in bodies

Each form of statement becomes what it is expected to become if its parts do,
so all statements do.

Key theorems: `jumpTarget?_cases`, `declareLocal_shows`, `givesStmts`.
-/
import Lsl.Proofs.Scoping.Stmts

namespace Lsl

variable {library : Catalog} {rules : Rules} {o : Surroundings} {env : Env} {b : BlockView}
  {blocks outer : List BlockView} {run run' run₁ : Run} {next later : List NodeId}

open CheckBody

/-! ### Plain statements -/

theorem allocStmt_takes (kind : StmtKind) (span : Span) (run : Run) :
    run.Takes library o 1 [] (Check.allocStmt kind span run).2 :=
  .silent (Tree.grows_alloc (.stmt { kind }) span) (Tree.size_alloc _ span) rfl (by simp)

/-- What is made of expressions only. -/
theorem Env.At.goes {n : Nat} {more : List Site}
    (h : env.At library o blocks run [] next later) (ht : run.Takes library o n more run₁) :
    run.Goes library o { node := run.tree.size + n, last := run.lastScope, sites := more } later
      run₁ := by
  have : run.Goes library o _ _ run₁ := (Run.Goes.refl run).takes ht
  rw [h.nil.2] at this
  exact this

/-- A new statement made of expressions only. -/
theorem simpleStmt {stmt : PlainStmt} (kind : StmtKind) {span : Span} {index n : Nat}
    {more more' : List Site} {ids : List NodeId}
    (h : env.At library o (b :: outer) run [] next later)
    (ht : TakesTerms library rules o (b :: outer) n more run run₁ ids)
    (hterms : ∀ c ∈ kind.terms, c ∈ ids) (harms : kind.arms = []) (hk : kind.isLabel = false)
    (hd : ∀ v, kind ≠ .declare v) (hplace : run'.tree.InPlace rules o run'.Wrong b kind)
    (hafter : ∀ n, blocksAfter (b :: outer) (.plain stmt) n = b :: outer)
    (hgrow : (run₁.tree.alloc (.stmt { kind }) span).1.Grows (fun _ => True) run'.tree)
    (htakes : run₁.Takes library o 1 more' run')
    (hsurvey : surveyPlain (b :: outer) run.tree.size run.lastScope stmt
      = { node := run.tree.size + n + 1, last := run.lastScope, sites := more ++ more' }) :
    run.MakesStmt library rules o b outer (.plain stmt) index next later run₁.tree.size run' := by
  obtain ⟨rfl, -⟩ := h.nil
  refine newStmt (h.goes ht.takes) (ht.takes.shows h.shows) ?_ (fun c hc => ht.sees c (hterms c hc))
    hk hd hplace hafter hgrow htakes hsurvey
  rw [harms, ht.takes.lastScope]
  exact .nil run₁ _

theorem givesPlain_empty (span : Span) : GivesPlain library env o (.empty span) := by
  intro single b outer index run next later h
  have hmade : ∀ run₁, run.Takes library o 0 [] run₁ →
      run.MakesStmt library env.rules o b outer (.plain (.empty span)) index next later run₁.tree.size
        (Check.allocStmt .empty span run₁).2 := fun run₁ ht =>
    simpleStmt .empty h (⟨ht, by simp⟩ : TakesTerms library env.rules o (b :: outer) 0 [] run run₁ [])
      (by simp [StmtKind.terms]) rfl rfl (by simp) (by simp [Tree.InPlace, StmtKind.tests])
      (fun _ => rfl) (.refl _ _) (allocStmt_takes _ span run₁) rfl
  cases single
  · exact ⟨_, _, rfl, hmade _ ((Run.Takes.refl run).say rfl)⟩
  · exact ⟨_, _, rfl, hmade _ (.refl run)⟩

/-- One expression, as a list of them. -/
theorem TakesTerm.asList {e : Expr} {r : NodeId × Run}
    (h : TakesTerm library rules o blocks e.nodes (e.sites blocks run.tree.size) run r) :
    TakesTerms library rules o blocks (nodesOfExprs [e]) (sitesOfExprs blocks run.tree.size [e]) run r.2
      [r.1] := by
  simp only [nodesOfExprs, sitesOfExprs, Nat.add_zero, List.append_nil]
  exact h.single

theorem givesPlain_expr (e : Expr) (span : Span) : GivesPlain library env o (.expr e span) := by
  intro single b outer index run next later h
  have hvalue := resolveExpr_takes env e run h.names h.shows
  obtain ⟨⟨value, run₀⟩, hr⟩ : ∃ r, resolveExpr env e run = r := ⟨_, rfl⟩
  rw [hr] at hvalue
  have hmade : ∀ run₁, run₀.Takes library o 0 [] run₁ →
      run.MakesStmt library env.rules o b outer (.plain (.expr e span)) index next later run₁.tree.size
        (Check.allocStmt (.expr value) span run₁).2 := fun run₁ ht =>
    have hrest : TakesTerms library env.rules o (b :: outer) 0 [] run₀ run₁ [] := ⟨ht, by simp⟩
    simpleStmt (.expr value) h (hvalue.asList.append hrest) (by simp [StmtKind.terms]) rfl
      rfl (by simp) (by simp [Tree.InPlace, StmtKind.tests]) (fun _ => rfl) (.refl _ _)
      (allocStmt_takes _ span run₁)
      (by simp [surveyPlain, Survey.exprs, Survey.close])
  simp only [resolvePlain]
  refine .lift_bind ?_
  rw [hr]
  by_cases heffect : e.hasEffect = true
  · simp only [heffect, Bool.not_true, Bool.false_eq_true, ↓reduceIte]
    exact ⟨_, _, rfl, hmade _ (.refl run₀)⟩
  · simp only [heffect, Bool.not_false, ↓reduceIte]
    exact ⟨_, _, rfl, hmade _ ((Run.Takes.refl run₀).say rfl)⟩

/-- A value is returned by a function that returns such values. -/
theorem suits_of_returnFault? {t : Tree} {value : NodeId} {body : Body} (hb : env.body = some body)
    (h : returnFault? t body (some value) = none) :
    t.Suits value fun ty => ∃ r ∈ env.rules.returns, assignable r ty = true := by
  simp only [returnFault?] at h
  split at h
  · cases h
  · rename_i hevent
    have hreturns : body.returnType ∈ env.rules.returns := by simp [Env.rules, hb, hevent]
    split at h
    · cases h
    · split at h
      · rename_i hfits
        rcases Bool.or_eq_true_iff.mp hfits with hu | hassign
        · exact .inr (Bool.and_eq_true_iff.mp hu).1
        · refine Tree.suits_of_exprType ⟨_, hreturns, hassign⟩ fun hvoid => ?_
          simp [assignable, hvoid, Ty.isVoid] at hassign
      · cases h

theorem givesPlain_ret (value : Option Expr) (span : Span) :
    GivesPlain library env o (.ret value span) := by
  intro single b outer index run next later h
  have hvalue := resolveOption_takes h.names h.shows value
  obtain ⟨⟨value', run₁⟩, hr⟩ : ∃ r, resolveOption env value run = r := ⟨_, rfl⟩
  rw [hr] at hvalue
  let t := (run₁.tree.alloc (.stmt { kind := .ret value' }) span).1
  have hmade : ∀ run', t.Grows (fun _ => True) run'.tree → run₁.Takes library o 1 [] run' →
      run'.tree.InPlace env.rules o run'.Wrong b (.ret value') →
      run.MakesStmt library env.rules o b outer (.plain (.ret value span)) index next later
        run₁.tree.size run' := fun run' hg ht hp =>
    simpleStmt (.ret value') h hvalue (fun c hc => hc) rfl rfl (by simp) hp (fun _ => rfl) hg ht
      (by simp [surveyPlain, Survey.exprs, Survey.close])
  have halloc : run₁.Takes library o 1 [] { run₁ with tree := t } := allocStmt_takes _ span run₁
  obtain ⟨body, hbody⟩ := h.body
  simp only [resolvePlain]
  refine .lift_bind (.pure ?_)
  rw [resolveReturn_run span hr, hbody, Option.bind_some]
  rcases hf : returnFault? t body value' with _ | kind
  · refine hmade _ (.refl _ _) halloc ?_
    rintro c rfl
    exact .inl (suits_of_returnFault? hbody hf)
  · exact hmade _ Tree.grows_markError (halloc.fault run₁.tree.size (returnFault?_ofExpr hf).2.2)
      fun _ _ => .inr ⟨_, List.mem_append_right _ List.mem_cons_self, rfl⟩

theorem givesPlain_stateChange (target : String) (span : Span) :
    GivesPlain library env o (.stateChange target span) := by
  intro single b outer index run next later h
  let kind : StmtKind := .stateChange target (env.states.lookup target)
  have hmade : ∀ run', (run.tree.alloc (.stmt { kind }) span).1.Grows (fun _ => True) run'.tree →
      run.Takes library o 1 [] run' →
      run.MakesStmt library env.rules o b outer (.plain (.stateChange target span)) index next later
        run.tree.size run' := fun run' hg ht =>
    simpleStmt kind h (.nil run) (by simp [kind, StmtKind.terms]) rfl rfl (by simp [kind])
      (by simp [kind, Tree.InPlace, StmtKind.tests]) (fun _ => rfl) hg ht rfl
  have halloc : run.Takes library o 1 [] (Check.allocStmt kind span run).2 :=
    allocStmt_takes kind span run
  simp only [resolvePlain, resolveStateChange]
  by_cases hs : (env.states.lookup target).isNone = true
  · simp only [hs, ↓reduceIte]
    exact ⟨_, _, rfl, hmade _ Tree.grows_markError (halloc.fault run.tree.size rfl)⟩
  · simp only [hs, Bool.false_eq_true, ↓reduceIte]
    exact ⟨_, _, rfl, hmade _ (.refl _ _) halloc⟩

/-! ### Declarations -/

theorem lookup_singleton_of_ne {name other : String} (h : other ≠ name) (id : NodeId) :
    List.lookup other [(name, id)] = none := by
  exact List.lookup_eq_none_iff.mpr (by simpa using h)

/-- Names of which some are refused. -/
theorem accepted_append (refused : String → Bool) (known more : List (String × NodeId))
    (other : String) :
    (if refused other then none else (known ++ more).lookup other)
      = (if refused other then none else known.lookup other).or
        (if refused other then none else more.lookup other) := by
  split
  · rfl
  · exact List.lookup_append

theorem accepted_single (refused : String → Bool) (name : String) (id : NodeId) (other : String) :
    (if refused other then none else List.lookup other [(name, id)])
      = if refused name then none else List.lookup other [(name, id)] := by
  by_cases hname : other = name
  · rw [hname]
  · rw [lookup_singleton_of_ne hname, ite_self, ite_self]

/-- A declaration that is refused, or is a further one of its name. -/
theorem Frame.Shows.refuse {f : Frame} (h : f.Shows library b) {name : String}
    (hn : library.hasConstant name = true ∨ (f.locals.lookup name).isSome = true) (id : NodeId) :
    f.Shows library { b with locals := b.locals ++ [(name, id)] } := by
  refine ⟨h.scopeId, fun other => ?_⟩
  rw [BlockView.local?, accepted_append, accepted_single, ← BlockView.local?, ← h.locals]
  rcases hn with hc | hsome
  · rw [if_pos hc, Option.or_none]
  · by_cases heq : other = name
    · rw [heq, Option.or_of_isSome hsome]
    · rw [lookup_singleton_of_ne heq, ite_self, Option.or_none]

theorem Frame.Shows.declare {f : Frame} (h : f.Shows library b) {name : String}
    (hc : library.hasConstant name = false) (id : NodeId) :
    ({ f with locals := f.locals ++ [(name, id)] } : Frame).Shows library
      { b with locals := b.locals ++ [(name, id)] } := by
  refine ⟨h.scopeId, fun other => ?_⟩
  rw [BlockView.local?, accepted_append, accepted_single, ← BlockView.local?, ← h.locals,
    if_neg (by simp [hc]), List.lookup_append]

/-- A declaration is known from there on, unless it is refused; one of a name
that is taken is. -/
theorem declareLocal_shows (hl : env.library = library)
    (hs : run.scopes.Shows library (b :: outer)) (id : NodeId) (name : String) (span : Span) :
    ∃ run', (declareLocal env id name span run).2 = run'
      ∧ Run.Takes library o 0 [] { run with scopes := run'.scopes } run'
      ∧ run'.scopes.Shows library ({ b with locals := b.locals ++ [(name, id)] } :: outer)
      ∧ ((b.locals.lookup name).isSome = true → run'.Wrong) := by
  obtain ⟨f, frames, hf, hframes, heq⟩ := List.forall₂_cons_right_iff.mp hs
  have htaken : ∀ d, f.locals.lookup name = some d → run.scopes.define name id = .error d :=
    fun d hd => by simp [ScopeStack.define, heq, hd]
  have hfirst : f.locals.lookup name = none → run.scopes.define name id
      = .ok ⟨{ f with locals := f.locals ++ [(name, id)] } :: frames⟩ :=
    fun hnone => by simp [ScopeStack.define, heq, hnone]
  rcases declareLocal_cases env id name span run with
    ⟨kind, hkind, hwhy, hr⟩ | ⟨scopes, hc, hd, hr⟩
  · refine ⟨_, hr, (Run.Takes.refl run).fault id hkind.2.2, ?_, fun _ => ?_⟩
    · change List.Forall₂ _ run.scopes.frames _
      rw [heq]
      refine .cons (hf.refuse ?_ id) hframes
      rw [hl] at hwhy
      refine hwhy.imp_right fun hrefused => ?_
      obtain ⟨d, hd⟩ := hrefused
      cases hlook : f.locals.lookup name with
      | none => simp [hfirst hlook] at hd
      | some d => rfl
    · exact ⟨.fault kind span, by simp, rfl⟩
  · rw [hl] at hc
    cases hlook : f.locals.lookup name with
    | some d => simp [htaken d hlook] at hd
    | none =>
      obtain rfl := Except.ok.inj ((hfirst hlook).symm.trans hd)
      have hshows : ScopeStack.Shows library
          ⟨{ f with locals := f.locals ++ [(name, id)] } :: frames⟩
          ({ b with locals := b.locals ++ [(name, id)] } :: outer) :=
        .cons (hf.declare hc id) hframes
      have hfree : (b.locals.lookup name).isSome = true → False := by
        rw [hf.locals, BlockView.local?, if_neg (by simp [hc])] at hlook
        simp [hlook]
      rcases hr with hr | ⟨kind, hr⟩
      · exact ⟨_, hr, .refl _, hshows, fun h => (hfree h).elim⟩
      · exact ⟨_, hr, (Run.Takes.refl _).say rfl, hshows, fun h => (hfree h).elim⟩

theorem givesPlain_declare (d : VarDecl) (span : Span) :
    GivesPlain library env o (.declare d span) := by
  intro single b outer index run next later h
  obtain ⟨rfl, hlabels⟩ := h.nil
  have hinit := resolveOption_takes h.names h.shows d.init
  obtain ⟨⟨init, run₁⟩, hr⟩ : ∃ r, resolveOption env d.init run = r := ⟨_, rfl⟩
  rw [hr] at hinit
  let v : Variable :=
    { name := d.name, ty := d.ty, scope := .inner, init, declaredIn := b.scopeId }
  -- what is reported on the declaration before its name is known
  let run₂ : Run := (Check.allocStmt (.declare v) span run₁).2
  let run₃ : Run := ((if single then
    Check.faultAt run₁.tree.size (.declarationWithoutBraces d.name) span else pure () :
      Check Unit) run₂).2
  have h₃ : run₁.Takes library o 1 [] run₃ ∧ run₂.tree.Extends run₃.tree := by
    have h₂ : run₁.Takes library o 1 [] run₂ := allocStmt_takes _ span run₁
    simp only [run₃]
    rw [Check.ite_run]
    split
    · exact ⟨h₂.fault run₁.tree.size rfl, Tree.grows_markError⟩
    · exact ⟨h₂, .refl _ _⟩
  have hshows₃ : run₃.scopes.Shows library (b :: outer) := h₃.1.shows (hinit.takes.shows h.shows)
  obtain ⟨run₄, hr₄, h₄, hshows₄, hwrong⟩ : ∃ run₄, _ ∧ Run.Takes library o 0 [] _ run₄ ∧ _ ∧ _ :=
    declareLocal_shows h.names.library hshows₃ run₁.tree.size d.name span
  have h₅ : run₄.Takes library o 0 [] _ := checkInitializer_takes run₁.tree.size d.name d.ty init run₄
  have hdecl : run₄.tree.Has run₁.tree.size := by
    obtain ⟨s, hs, -⟩ := (h₃.2.trans h₄.grows).stmt?
      (stmt?_alloc (t := run₁.tree) { kind := .declare v } span)
    exact Tree.has_of_kind? (Tree.stmt?_eq_some.mp hs)
  have hsuits := checkInitializer_suits d.name d.ty init hdecl
  obtain ⟨run', hr'⟩ : ∃ r, (init.forM (checkInitializer run₁.tree.size d.name d.ty) run₄).2 = r :=
    ⟨_, rfl⟩
  rw [hr'] at h₅ hsuits
  have hrun : resolveDeclaration env b.scopeId single d span run = (run₁.tree.size, run') := by
    unfold resolveDeclaration
    rw [Check.bind_run, hr, ← hr', ← hr₄]
    cases single <;> rfl
  have hsize : run'.tree.size = run₁.tree.size + 1 := by
    rw [h₅.size, h₄.size, ← h₃.1.size]
    rfl
  have hafter : blocksAfter (b :: outer) (.plain (.declare d span)) run'.tree.size
      = { b with locals := b.locals ++ [(d.name, run₁.tree.size)] } :: outer := by
    simp [blocksAfter, hsize]
  obtain ⟨s', hs', ho, -⟩ := (h₃.2.trans (h₄.grows.trans h₅.grows)).stmt?
    (stmt?_alloc (t := run₁.tree) { kind := .declare v } span)
  simp only [resolvePlain]
  refine .lift_bind (.pure ?_)
  rw [hrun]
  refine ⟨?_, hafter ▸ h₅.shows hshows₄, ?_, s', hs', ?_, ?_⟩
  · have hgoes := (((h.goes hinit.takes).close h₃.1).scopes run₄.scopes).takes (h₄.trans h₅)
    simpa [surveyStmt, surveyPlain, Survey.exprs, Survey.close] using hgoes
  · have hlast : run'.lastScope = run.lastScope :=
      h₅.lastScope.trans (h₄.lastScope.trans (h₃.1.lastScope.trans hinit.takes.lastScope))
    have harms : run'.Arms env.rules o (b :: outer) s'.kind.arms run.lastScope run'.lastScope [] := by
      rw [(StmtNode.arms_of_outline ho).1, hlast]
      exact .nil run' _
    have hown : run'.tree.InPlace env.rules o run'.Wrong b (.declare v) :=
      ⟨rfl, fun hsome => (hwrong hsome).mono h₅.notices, fun c hc => (hsuits c hc).imp id (·.2)⟩
    have hlays := harms.stmt hs' (fun c hc => ?_)
      (Tree.InPlace.grows (s := { kind := .declare v }) hown (.refl (fun _ => True) _) ho id)
    · simpa [show s'.kind.isLabel = false from StmtNode.isLabel_of_outline ho] using hlays
    · rw [StmtNode.terms_of_outline ho] at hc
      exact (hinit.sees c hc).grows (h₃.1.grows.trans (h₄.grows.trans h₅.grows))
  · rw [hafter, StmtNode.behind_of_outline ho]
    rfl
  · intro hl
    rw [StmtNode.isLabel_of_outline ho] at hl
    cases hl

/-! ### Jumps and labels -/

/-- A jump finds the first label of its name, unless it is in no block around. -/
theorem jumpTarget?_cases (hn : env.Names library o run.tree)
    (hs : run.scopes.Shows library blocks) (name : String) :
    (jumpTarget? env run name = none ∧ o.isStray blocks name = true)
      ∨ ∃ label info site, jumpTarget? env run name = some (label, info)
        ∧ o.isStray blocks name = false ∧ o.label? name = some site
        ∧ run.tree.labelSite? label = some site := by
  have hlabel := hn.labels name
  unfold jumpTarget? Surroundings.isStray
  cases hid : env.label? name with
  | none =>
    cases hsite : o.label? name with
    | none => exact .inl (by simp)
    | some site => simp [hid, hsite] at hlabel
  | some label =>
    cases hsite : o.label? name with
    | none => simp [hid, hsite] at hlabel
    | some site =>
      simp only [hid, hsite, Option.map_some, Option.some.injEq] at hlabel
      obtain ⟨jumps, info, hstmt, -, hscope, -⟩ := Tree.labelSite?_eq_some.mp hlabel
      simp only [Option.bind_eq_bind, Option.bind_some, hstmt, hs.isOpen, hscope, Option.all_some]
      by_cases hopen : (blocks.any (·.scopeId == site.scopeId)) = true
      · exact .inr ⟨label, info, site, by simp [hopen], by simp [hopen], rfl, hlabel⟩
      · exact .inl (by simp [hopen])

theorem givesPlain_jump (name : String) (span : Span) :
    GivesPlain library env o (.jump name span) := by
  intro single b outer index run next later h
  have hmade : ∀ target run', (run.tree.alloc (.stmt { kind := .jump name target false }) span).1.Grows
        (fun _ => True) run'.tree →
      run'.tree.InPlace env.rules o run'.Wrong b (.jump name target false) →
      run.Takes library o 1 [.jump run.tree.size name span (b :: outer)] run' →
      run.MakesStmt library env.rules o b outer (.plain (.jump name span)) index next later run.tree.size
        run' := fun target run' hg hp ht =>
    simpleStmt (.jump name target false) h (.nil run) (by simp [StmtKind.terms]) rfl rfl (by simp)
      hp (fun _ => rfl) hg ht rfl
  have hself : ∀ target, (run.tree.alloc (.stmt { kind := .jump name target false }) span).1.stmt?
      run.tree.size = some ⟨.jump name target false, {}⟩ := fun target => stmt?_alloc _ span
  rcases jumpTarget?_cases h.names h.shows name with
    ⟨htarget, hstray⟩ | ⟨label, info, site, htarget, hstray, hsite, hat⟩
  · -- nowhere to go
    refine ⟨_, _, congrArg Except.ok (resolveJump_nowhere index span htarget),
      hmade none _ Tree.grows_markError ⟨fun _ => ?_, by simp⟩ ?_⟩
    · exact ⟨_, List.mem_append_right _ List.mem_cons_self, rfl⟩
    have hbound : (Site.jump run.tree.size name span (b :: outer)).Bound library o _ :=
      ⟨none, false, {}, hself none, by simp [hstray], by simp⟩
    refine Run.Takes.made [.fault (.jumpToUndefinedLabel name) span]
      ((Tree.grows_alloc _ span).idem Tree.grows_markError)
      (Tree.size_markError.trans (Tree.size_alloc _ span))
      (by simp [Site.report?, hstray, Notice.isLookup, Fault.isLookup]) fun s hs => ?_
    rw [List.mem_singleton.mp hs]
    exact hbound.grows (P := fun _ => True) Tree.grows_markError
  · have hbound : (Site.jump run.tree.size name span (b :: outer)).Bound library o
        (run.tree.alloc (.stmt { kind := .jump name (some label) false }) span).1 := by
      refine ⟨some label, false, {}, hself _, by simp [hstray], fun l hl => ?_⟩
      obtain rfl := Option.some.inj hl
      exact ⟨site, hsite, (Tree.grows_alloc (P := fun _ => True) _ span).labelSite? hat⟩
    let jump : NodeKind := .stmt { kind := .jump name (some label) false }
    have hnote : ∀ (P : Nat → Prop) (t : Tree), t.Grows P (addJump t label run.tree.size) :=
      fun P t => show t.Grows P (t.noteUse run.tree.size jump) from Tree.grows_noteUse jump
    have hsize : ∀ t : Tree, (addJump t label run.tree.size).size = t.size := fun t =>
      show (t.noteUse run.tree.size jump).size = t.size from Tree.size_noteUse jump
    refine ⟨_, _, congrArg Except.ok (resolveJump_somewhere index span htarget),
      hmade (some label) _ (hnote _ _) ⟨by simp, fun l hl => ?_⟩ ?_⟩
    · obtain rfl := Option.some.inj hl
      exact ⟨site, hsite, ((Tree.grows_alloc _ span).idem (hnote (fun _ => True) _)).labelSite? hat⟩
    refine Run.Takes.silent ((Tree.grows_alloc _ span).idem (hnote _ _))
      ((hsize _).trans (Tree.size_alloc _ span)) (by simp [Site.report?, hstray]) fun s hs => ?_
    rw [List.mem_singleton.mp hs]
    exact hbound.grows (hnote (fun _ => True) _)

theorem givesPlain_label (name : String) (span : Span) :
    GivesPlain library env o (.label name span) := by
  intro single b outer index run next later h
  obtain ⟨id, rest, hat, hrest, rfl⟩ := List.forall₂_cons_right_iff.mp h.next
  obtain rfl := List.forall₂_nil_right_iff.mp hrest
  obtain ⟨jumps, info, hs, -, hscope, hindex⟩ := Tree.labelSite?_eq_some.mp hat
  have hgoes : run.Goes library o { node := run.tree.size, last := run.lastScope } later
      { run with labels := later } :=
    { Run.Reads.refl run with size := rfl, lastScope := rfl, labels := rfl }
  refine ⟨(id, {}), { run with labels := later }, ?_, hgoes, h.shows, ?_, _, hs, rfl,
    fun _ => ⟨hscope, hindex⟩⟩
  · have htake : takeLabel name span run = .ok (id, { run with labels := later }) := by
      rw [takeLabel_next name span h.labels]
      simp only [hs, ↓reduceIte]
      rfl
    change (takeLabel name span run >>= fun s => Except.ok ((s.1, ({} : Facts)), s.2)) = _
    rw [htake]
    rfl
  · exact Run.Arms.stmt (s := ⟨.label name jumps, info⟩) (.nil _ _) hs (by simp [StmtKind.terms])
      (by simp [Tree.InPlace, StmtKind.tests])

/-! ### Compound statements -/

/-- A new statement made of its parts. -/
theorem compoundStmt {stmt : Stmt} {kind : StmtKind} (span : Span) {index : Nat} {survey : Survey}
    {terms tests : List NodeId}
    (h : run.MakesParts library rules o (b :: outer) survey next later terms tests kind.arms run₁)
    (hterms : ∀ c ∈ kind.terms, c ∈ terms) (hk : kind.isLabel = false) (hd : ∀ v, kind ≠ .declare v)
    (hplace : ∀ (t : Tree) wrong, (∀ c ∈ tests, t.Suits c (validCondition · = true)) →
      t.InPlace rules o wrong b kind)
    (hafter : ∀ n, blocksAfter (b :: outer) stmt n = b :: outer)
    (hsurvey : surveyStmt (b :: outer) run.tree.size run.lastScope stmt = survey.close) :
    run.MakesStmt library rules o b outer stmt index next later run₁.tree.size
      (Check.allocStmt kind span run₁).2 := by
  have htakes : run₁.Takes library o 1 [] (Check.allocStmt kind span run₁).2 :=
    allocStmt_takes kind span run₁
  refine newStmt h.goes h.shows h.arms (fun c hc => h.sees c (hterms c hc)) hk hd
    (hplace _ _ fun c hc => (h.suits c hc).grows htakes.grows) hafter (.refl _ _) htakes ?_
  simp [hsurvey, Survey.close]

theorem getScope_gives {id : NodeId} {c : CodeScope} (h : run.tree.scope? id = some c) :
    (getScope id).Gives run fun _ r => r = run := by
  refine .get_bind ?_
  rw [h, expect_some]
  exact .pure rfl

theorem mapM_getScope_gives {ids : List NodeId} (h : ∀ x ∈ ids, ∃ c, run.tree.scope? x = some c) :
    (ids.mapM getScope).Gives run fun _ r => r = run := by
  induction ids with
  | nil => exact .pure rfl
  | cons x rest ih =>
    obtain ⟨c, hc⟩ := h x List.mem_cons_self
    rw [List.mapM_cons]
    refine (getScope_gives hc).bind fun _ run' hr => ?_
    subst hr
    exact (ih fun y hy => h y (List.mem_cons_of_mem _ hy)).bind fun _ run'' hr => .pure hr

theorem finishBlock_gives {scope : NodeId} (h : ∃ c, run.tree.scope? scope = some c) (index : Nat)
    (span : Span) :
    (finishBlock index scope span).Gives run fun r run' =>
      r.1 = run.tree.size ∧ run' = (Check.allocStmt (.block scope) span run).2 := by
  obtain ⟨c, hc⟩ := h
  have hg : run.tree.Grows (fun _ => True) (Check.allocStmt (.block scope) span run).2.tree :=
    Tree.grows_alloc _ span
  unfold finishBlock
  refine .lift_bind ((getScope_gives (hg.scope? hc)).bind fun _ run' hr => ?_)
  exact .pure ⟨rfl, hr⟩

theorem finishBranch_gives {cond thenScope : NodeId} {elseIfs : List (NodeId × NodeId)}
    {elseScope : Option NodeId}
    (h : ∀ x ∈ (StmtKind.branch cond thenScope elseIfs elseScope).arms,
      ∃ c, run.tree.scope? x = some c) (index : Nat) (span : Span) :
    (finishBranch index cond thenScope elseIfs elseScope span).Gives run fun r run' =>
      r.1 = run.tree.size
        ∧ run' = (Check.allocStmt (.branch cond thenScope elseIfs elseScope) span run).2 := by
  have hg : run.tree.Grows (fun _ => True)
      (Check.allocStmt (.branch cond thenScope elseIfs elseScope) span run).2.tree :=
    Tree.grows_alloc _ span
  have hget : ∀ x ∈ (StmtKind.branch cond thenScope elseIfs elseScope).arms, ∃ c,
      (Check.allocStmt (.branch cond thenScope elseIfs elseScope) span run).2.tree.scope? x
        = some c := fun x hx => by
    obtain ⟨c, hc⟩ := h x hx
    exact ⟨c, hg.scope? hc⟩
  unfold finishBranch
  refine .lift_bind ?_
  cases elseScope with
  | none => exact .pure ⟨rfl, rfl⟩
  | some last =>
    obtain ⟨c, hc⟩ := hget thenScope (by simp [StmtKind.arms])
    refine (getScope_gives hc).bind fun _ run' hr => ?_
    subst hr
    refine (mapM_getScope_gives fun x hx => hget x ?_).bind fun _ run' hr => .pure ⟨rfl, hr⟩
    exact List.mem_cons_of_mem thenScope hx

theorem givesStmt_block {stmts : List Stmt} (hs : GivesStmts library env o stmts)
    (inner span : Span) :
    GivesStmt library env o (.block (.mk stmts inner) span) fun scope index =>
      resolveStmt env scope index (.block (.mk stmts inner) span) := by
  intro b outer index run next later h
  unfold resolveStmt
  refine (givesParts_braced hs .anonymousBlock inner _ run next later h).bind
    fun scope run₁ hmade => ?_
  refine (finishBlock_gives ?_ index span).mono fun r run' hr => ?_
  · obtain ⟨c, hc, -⟩ := hmade.arms.names scope List.mem_cons_self
    exact ⟨c, hc⟩
  · obtain ⟨hid, rfl⟩ := hr
    rw [hid]
    exact compoundStmt span hmade (by simp [StmtKind.terms]) rfl (by simp)
      (by simp [Tree.InPlace, StmtKind.tests]) (fun _ => rfl) rfl

/-- Expressions that come before scopes. -/
theorem Env.At.head {sites : List LabelSite} {es : List Expr} {ids : List NodeId}
    (h : env.At library o blocks run sites next later) (tests : List NodeId)
    (ht : TakesTerms library env.rules o blocks (nodesOfExprs es)
      (sitesOfExprs blocks run.tree.size es) run
      run₁ ids) (htests : ∀ c ∈ tests, run₁.tree.Suits c (validCondition · = true)) :
    run₁.lastScope = run.lastScope ∧ env.At library o blocks run₁ sites next later
      ∧ run.MakesParts library env.rules o blocks
        (Survey.exprs { node := run.tree.size, last := run.lastScope } blocks es) [] (next ++ later)
        ids tests [] run₁ :=
  ⟨ht.takes.lastScope, h.takes ht.takes, h.labels ▸ ht.parts tests h.shows htests⟩

theorem givesPlain_while {body : Stmt} (hbody : GivesBody library env o body) (cond : Expr)
    (span : Span) : GivesPlain library env o (.whileLoop cond body span) := by
  intro single b outer index run next later h
  have hcond := (resolveCondition_takes h.names h.shows cond).asList
  have htest := resolveCondition_suits h.names h.shows cond
  obtain ⟨⟨cond', run₁⟩, hr⟩ : ∃ r, resolveCondition env cond run = r := ⟨_, rfl⟩
  rw [hr] at hcond htest
  obtain ⟨hlast, hin, hhead⟩ := h.head [cond'] hcond (by simpa using htest)
  rw [← hlast] at hin
  simp only [resolvePlain]
  refine .lift_bind ?_
  rw [hr]
  refine (hbody .whileBody _ run₁ next later hin).bind fun body' run₂ hmade => ?_
  exact .lift_bind <| .pure <| compoundStmt span
    (hhead.andThen (f := fun n l => surveyBody (b :: outer) n l body) hmade)
    (by simp [StmtKind.terms]) rfl (by simp)
      (by simp [Tree.InPlace, StmtKind.tests]) (fun _ => rfl) rfl

theorem givesPlain_doWhile {body : Stmt} (hbody : GivesBody library env o body) (cond : Expr)
    (span : Span) : GivesPlain library env o (.doWhile body cond span) := by
  intro single b outer index run next later h
  simp only [resolvePlain]
  refine (hbody .doWhileBody _ run next later h).bind fun body' run₁ hmade => ?_
  have hcond := (resolveCondition_takes (h.names.grows hmade.goes.grows) hmade.shows cond).asList
  have htest := resolveCondition_suits (h.names.grows hmade.goes.grows) hmade.shows cond
  obtain ⟨⟨cond', run₂⟩, hr⟩ : ∃ r, resolveCondition env cond run₁ = r := ⟨_, rfl⟩
  rw [hr] at hcond htest
  refine .lift_bind ?_
  rw [hr]
  have hparts := hcond.parts [cond'] hmade.shows (by simpa using htest)
  rw [hmade.goes.labels] at hparts
  refine .lift_bind <| .pure <| ?_
  have hall := Run.MakesParts.andThen
    (f := fun n l => Survey.exprs { node := n, last := l } (b :: outer) [cond])
    (by rw [List.nil_append]; exact hmade) hparts
  rw [List.append_nil] at hall
  exact compoundStmt span hall (by simp [StmtKind.terms]) rfl (by simp)
      (by simp [Tree.InPlace, StmtKind.tests]) (fun _ => rfl) rfl

theorem nodesOfExprs_append (es es' : List Expr) :
    nodesOfExprs (es ++ es') = nodesOfExprs es + nodesOfExprs es' := by
  induction es with
  | nil => simp [nodesOfExprs]
  | cons e rest ih => simp [nodesOfExprs, ih, Nat.add_assoc]

theorem sitesOfExprs_append (blocks : List BlockView) (node : NodeId) (es es' : List Expr) :
    sitesOfExprs blocks node (es ++ es')
      = sitesOfExprs blocks node es ++ sitesOfExprs blocks (node + nodesOfExprs es) es' := by
  induction es generalizing node with
  | nil => simp [nodesOfExprs, sitesOfExprs]
  | cons e rest ih => simp [nodesOfExprs, sitesOfExprs, ih, Nat.add_assoc]

/-- Expressions that follow on expressions. -/
theorem TakesTerms.andThen {es es' : List Expr} {ids ids' : List NodeId}
    (h : TakesTerms library rules o blocks (nodesOfExprs es) (sitesOfExprs blocks run.tree.size es) run
      run₁ ids)
    (g : TakesTerms library rules o blocks (nodesOfExprs es') (sitesOfExprs blocks run₁.tree.size es')
      run₁ run' ids') :
    TakesTerms library rules o blocks (nodesOfExprs (es ++ es'))
      (sitesOfExprs blocks run.tree.size (es ++ es')) run run' (ids ++ ids') := by
  rw [nodesOfExprs_append, sitesOfExprs_append, ← h.takes.size]
  exact h.append g

theorem loopCondition_gives {β : Type} {f : Option NodeId → CheckBody β} {Q : β → Run → Prop}
    (hn : env.Names library o run.tree) (hs : run.scopes.Shows library blocks) (cond : Option Expr)
    (hf : ∀ cond' run₁, TakesTerms library env.rules o blocks (nodesOfExprs cond.toList)
        (sitesOfExprs blocks run.tree.size cond.toList) run run₁ cond'.toList →
      (∀ c ∈ cond'.toList, run₁.tree.Suits c (validCondition · = true)) →
      (f cond').Gives run₁ Q) :
    Gives (match cond with
      | none => (pure none : CheckBody (Option NodeId)) >>= f
      | some cond => (some <$> (liftM (resolveCondition env cond) : CheckBody NodeId)) >>= f)
      run Q := by
  cases cond with
  | none => exact hf none run (.nil run) (by simp)
  | some cond =>
    exact hf (some _) _ (resolveCondition_takes hn hs cond).asList
      fun c hc => List.mem_singleton.mp hc ▸ resolveCondition_suits hn hs cond

theorem givesPlain_for {body : Stmt} (hbody : GivesBody library env o body) (init : List Expr)
    (cond : Option Expr) (step : List Expr) (span : Span) :
    GivesPlain library env o (.forLoop init cond step body span) := by
  intro single b outer index run next later h
  have hinit := resolveExprs_takes env init run h.names h.shows
  obtain ⟨⟨init', run₁⟩, hr₁⟩ : ∃ r, resolveExprs env init run = r := ⟨_, rfl⟩
  rw [hr₁] at hinit
  simp only [resolvePlain]
  refine .lift_bind ?_
  rw [hr₁]
  refine loopCondition_gives (hinit.takes.names h.names) (hinit.takes.shows h.shows) cond
    fun cond' run₂ hcond htest => ?_
  have hterms := hinit.andThen hcond
  have hstep := resolveExprs_takes env step run₂ (hterms.takes.names h.names)
    (hterms.takes.shows h.shows)
  obtain ⟨⟨step', run₃⟩, hr₃⟩ : ∃ r, resolveExprs env step run₂ = r := ⟨_, rfl⟩
  rw [hr₃] at hstep
  obtain ⟨hlast, hin, hhead⟩ := h.head cond'.toList (hterms.andThen hstep)
    fun c hc => (htest c hc).grows hstep.takes.grows
  rw [← hlast] at hin
  refine .lift_bind ?_
  rw [hr₃]
  refine (hbody .forBody _ run₃ next later hin).bind fun body' run₄ hmade => ?_
  exact .lift_bind <| .pure <| compoundStmt span
    (hhead.andThen (f := fun n l => surveyBody (b :: outer) n l body) hmade)
    (by simp [StmtKind.terms]) rfl (by simp)
      (by simp [Tree.InPlace, StmtKind.tests]) (fun _ => rfl) rfl

/-! ### Branches -/

section

variable (library : Catalog) (env : Env) (o : Surroundings)

abbrev GivesElseIfs (elseIfs : List ElseIf) : Prop :=
  GivesParts library env o (fun last => labelsOfElseIfs last elseIfs)
    (fun blocks node last => surveyElseIfs blocks node last elseIfs) (resolveElseIfs env elseIfs)
    (fun arms => arms.map (·.1)) (fun arms => arms.map (·.1)) fun arms => arms.map (·.2)

abbrev GivesElse (body : Option Stmt) : Prop :=
  GivesParts library env o (fun last => labelsOfElse last body)
    (fun blocks node last => surveyElse blocks node last body) (resolveElse env body)
    (fun _ => []) (fun _ => []) Option.toList

end

theorem Env.At.refl {sites : List LabelSite} (h : env.At library o blocks run sites next later)
    (hs : sites = []) :
    run.MakesParts library env.rules o blocks { node := run.tree.size, last := run.lastScope }
      next later [] []
      [] run := by
  subst hs
  obtain ⟨rfl, rfl⟩ := h.nil
  exact ⟨.refl run, h.shows, by simp, by simp, .nil run _⟩

theorem givesElseIfs_cons {cond : Expr} {body : Stmt} {span : Span} {rest : List ElseIf}
    (hbody : GivesBody library env o body) (hrest : GivesElseIfs library env o rest) :
    GivesElseIfs library env o (.mk cond body span :: rest) := by
  intro blocks run next later h
  obtain ⟨first, second, rfl, hfirst, hnext⟩ := h.split
  have hcond := (resolveCondition_takes h.names h.shows cond).asList
  have htest := resolveCondition_suits h.names h.shows cond
  obtain ⟨⟨cond', run₁⟩, hr⟩ : ∃ r, resolveCondition env cond run = r := ⟨_, rfl⟩
  rw [hr] at hcond htest
  obtain ⟨hlast, hin, hhead⟩ := hfirst.head [cond'] hcond (by simpa using htest)
  rw [← hlast] at hin
  unfold resolveElseIfs
  refine .lift_bind ?_
  rw [hr]
  refine (hbody .elseIfBranch _ run₁ first (second ++ later) hin).bind fun body' run₂ hmade => ?_
  have harm := hhead.andThen (f := fun n l => surveyBody blocks n l body) hmade
  have hlast₂ : run₂.lastScope = (labelsOfBody run.lastScope body).1 :=
    harm.goes.lastScope.trans (surveyBody_last ..)
  have hrest' := hnext run₂ blocks harm.goes.grows harm.shows harm.goes.labels
  rw [← hlast₂] at hrest'
  refine (hrest blocks run₂ second later hrest').bind fun more run₃ hmore => ?_
  exact .pure (harm.andThen (f := fun n l => surveyElseIfs blocks n l rest) hmore)

theorem givesPlain_branch {thenBranch : Stmt} {elseIfs : List ElseIf} {elseBranch : Option Stmt}
    (hthen : GivesBody library env o thenBranch) (hmore : GivesElseIfs library env o elseIfs)
    (helse : GivesElse library env o elseBranch) (cond : Expr) (span : Span) :
    GivesPlain library env o (.branch cond thenBranch elseIfs elseBranch span) := by
  intro single b outer index run next later h
  obtain ⟨both, third, rfl, hboth, hlater⟩ := h.split
  obtain ⟨first, second, rfl, hfirst, hnext⟩ := hboth.split
  have hcond := (resolveCondition_takes h.names h.shows cond).asList
  have htest := resolveCondition_suits h.names h.shows cond
  obtain ⟨⟨cond', run₁⟩, hr⟩ : ∃ r, resolveCondition env cond run = r := ⟨_, rfl⟩
  rw [hr] at hcond htest
  obtain ⟨hlast, hin, hhead⟩ := hfirst.head [cond'] hcond (by simpa using htest)
  rw [← hlast] at hin
  simp only [resolvePlain]
  refine .lift_bind ?_
  rw [hr]
  refine (hthen .ifBranch _ run₁ first _ hin).bind fun thenScope run₂ h₂ => ?_
  have hparts₂ := hhead.andThen (f := fun n l => surveyBody (b :: outer) n l thenBranch) h₂
  have hlast₂ : run₂.lastScope = (labelsOfBody run.lastScope thenBranch).1 :=
    hparts₂.goes.lastScope.trans (surveyBody_last ..)
  have hin₂ := hnext run₂ _ hparts₂.goes.grows hparts₂.shows hparts₂.goes.labels
  rw [← hlast₂] at hin₂
  refine (hmore _ run₂ second _ hin₂).bind fun elseIfs' run₃ h₃ => ?_
  have hparts₃ := hparts₂.andThen (f := fun n l => surveyElseIfs (b :: outer) n l elseIfs) h₃
  have hlast₃ : run₃.lastScope
      = (labelsOfElseIfs (labelsOfBody run.lastScope thenBranch).1 elseIfs).1 := by
    rw [h₃.goes.lastScope, surveyElseIfs_last, hlast₂]
  have hin₃ := hlater run₃ _ hparts₃.goes.grows hparts₃.shows hparts₃.goes.labels
  rw [← hlast₃] at hin₃
  refine (helse _ run₃ third later hin₃).bind fun elseScope run₄ h₄ => ?_
  have hparts₄ := hparts₃.andThen (f := fun n l => surveyElse (b :: outer) n l elseBranch) h₄
  refine (finishBranch_gives (fun x hx => ?_) index span).mono fun r run' hr => ?_
  · obtain ⟨c, hc, -⟩ := hparts₄.arms.names x hx
    exact ⟨c, hc⟩
  · obtain ⟨hid, rfl⟩ := hr
    rw [hid]
    exact compoundStmt span hparts₄ (by simp [StmtKind.terms]) rfl (by simp)
      (by simp [Tree.InPlace, StmtKind.tests]) (fun _ => rfl) rfl

/-! ### All statements -/

mutual

/-- **Statements become what they are expected to become**, and nothing goes
wrong on the way. -/
theorem givesStmts : ∀ (stmts : List Stmt), GivesStmts library env o stmts
  | [] => fun b outer tr run next later _ _ h => by
    have hparts := h.refl rfl
    exact .pure ⟨hparts.goes, ⟨b, h.shows⟩, rfl, [], by simp, .nil, hparts.arms.visits,
      Nat.le_refl _⟩
  | s :: rest => givesStmts_cons (givesStmt s) (givesStmts rest)

theorem givesStmt : ∀ (stmt : Stmt),
    GivesStmt library env o stmt fun scope index => resolveStmt env scope index stmt
  | .block (.mk stmts inner) span => givesStmt_block (givesStmts stmts) inner span
  | .plain stmt => fun b outer index run next later h => by
    unfold resolveStmt
    exact givesPlain stmt false b outer index run next later h

theorem givesPlain : ∀ (stmt : PlainStmt), GivesPlain library env o stmt
  | .empty span => givesPlain_empty span
  | .expr e span => givesPlain_expr e span
  | .declare d span => givesPlain_declare d span
  | .ret value span => givesPlain_ret value span
  | .jump name span => givesPlain_jump name span
  | .label name span => givesPlain_label name span
  | .stateChange target span => givesPlain_stateChange target span
  | .branch cond thenBranch elseIfs elseBranch span =>
    givesPlain_branch (givesBody thenBranch) (givesElseIfs elseIfs) (givesElse elseBranch) cond span
  | .whileLoop cond body span => givesPlain_while (givesBody body) cond span
  | .doWhile body cond span => givesPlain_doWhile (givesBody body) cond span
  | .forLoop init cond step body span => givesPlain_for (givesBody body) init cond step span

theorem givesBody : ∀ (body : Stmt), GivesBody library env o body
  | .block (.mk stmts inner) span => fun kind => by
    unfold resolveBody
    exact givesParts_braced (givesStmts stmts) kind inner
  | .plain stmt => givesBody_plain (givesPlain stmt)

theorem givesElseIfs : ∀ (elseIfs : List ElseIf), GivesElseIfs library env o elseIfs
  | [] => fun _ _ _ _ h => .pure (h.refl rfl)
  | .mk _ body _ :: rest => givesElseIfs_cons (givesBody body) (givesElseIfs rest)

theorem givesElse : ∀ (body : Option Stmt), GivesElse library env o body
  | none => fun _ _ _ _ h => .pure (h.refl rfl)
  | some body => fun blocks run next later h =>
    (givesBody body .elseBranch blocks run next later h).map fun _ _ hmade => hmade

end

end Lsl
