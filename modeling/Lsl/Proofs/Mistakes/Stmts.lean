/- # Statements with mistakes

A mistake in an expression changes nothing for the statements around it: the same
scopes are opened and closed, the same jumps and returns are seen, and statements are
live or dead alike. So a body reports the mistakes in its expressions, in the order in
which they are written, and no others.

Key definitions: `Links.Agree`, `Links.Settle`, `Links.Arms`, `Env.Condemns`, `MirrorsStmts`.
Key theorems: `closeScope_mirrors`, `appendStmt_mirrors`, `resolveStmts_mirrors`.
-/
import Lsl.Proofs.Mistakes.Steps

namespace Lsl

variable {n : String} {L M : Links} {env env' : Env} {run run' r r' : Run}
  {fs gs : List (Fault × Span)} {t t' : Tree} {i j : NodeId}

/-! ### Expressions in statements -/

/-- Nodes that belong together, of which the second agrees with the first. -/
def Links.Agree (M : Links) (t t' : Tree) (i j : NodeId) : Prop := M.nodes i j ∧ t.Agrees t' i j

theorem resolveExpr_mirrors (he : env.Linked n L env') (hl : run.Linked n L run') {e e' : Expr}
    (h : e.Replaced n e' fs) :
    Check.Mirrors n L fs run run' (resolveExpr env e) (resolveExpr env' e') Links.Agree := by
  intro hclean
  have hr := resolveExpr_resolves he e h hl hclean
  obtain ⟨hle, hloose⟩ := hr.left.loose _ (List.mem_singleton_self _)
  obtain ⟨hle', hloose'⟩ := hr.right.loose _ (List.mem_singleton_self _)
  refine ⟨L.addNode _ _, L.le_addNode _ _, (hr.linked hl).addNode hloose hloose' (fun b hb => ?_)
    (fun a ha => ?_), hr.told, .inr ⟨rfl, rfl⟩, (List.forall₂_cons.mp hr.agree).1⟩
  · exact absurd (hl.tree.has hb).1 (Nat.not_lt.mpr hle)
  · exact absurd (hl.tree.has ha).2 (Nat.not_lt.mpr hle')

theorem resolveExprs_mirrorsAll (he : env.Linked n L env') (hl : run.Linked n L run')
    {es es' : List Expr} (h : Piecewise (Expr.Replaced n) es es' fs) :
    Check.Mirrors n L fs run run' (resolveExprs env es) (resolveExprs env' es')
      fun M _ _ => List.Forall₂ M.nodes := by
  induction h generalizing L run run' with
  | nil => exact .pure hl .nil
  | cons head tail ih =>
    refine .bind (resolveExpr_mirrors he hl head) fun M i j r r' hle _ hl hv => ?_
    refine .bindSilent (ih (he.mono hle) hl) fun N is js s s' hle' _ hl hvs => ?_
    exact .pure hl (.cons (hle'.2.2 _ _ hv.1) hvs)

theorem resolveOption_mirrors (he : env.Linked n L env') (hl : run.Linked n L run')
    {e e' : Option Expr} (h : Optionally (Expr.Replaced n) e e' fs) :
    Check.Mirrors n L fs run run' (resolveOption env e) (resolveOption env' e')
      fun M t t' => Option.Rel (M.Agree t t') := by
  cases h with
  | none => exact .pure hl .none
  | some h =>
    refine .bindSilent (resolveExpr_mirrors he hl h) fun M i j r r' _ _ hl hv => ?_
    exact .pure hl (.some hv)

/-- A condition that may be one leads to a warning at most. -/
theorem resolveCondition_valid {cond : Expr} {id : NodeId}
    (hr : resolveExpr env cond run = (id, r))
    (hv : (r.tree.untyped id || validCondition (r.tree.exprType id)) = true) :
    ∃ ws : List Notice, ws.filterMap Notice.fault? = []
      ∧ resolveCondition env cond run = (id, { r with notices := r.notices ++ ws }) := by
  have hsame : (id, r) = (id, { r with notices := r.notices ++ [] }) := by rw [List.append_nil]
  rw [resolveCondition_run hr]
  cases hu : r.tree.untyped id with
  | true => exact ⟨[], rfl, hsame⟩
  | false =>
    rw [hu, Bool.false_or] at hv
    rw [hv, if_neg Bool.false_ne_true, if_neg (by simp)]
    split
    · exact ⟨[.warning .constantCondition cond.span], rfl, rfl⟩
    · exact ⟨[], rfl, hsame⟩

theorem resolveCondition_invalid {cond : Expr} {id : NodeId}
    (hr : resolveExpr env cond run = (id, r))
    (hv : (r.tree.untyped id || validCondition (r.tree.exprType id)) = false) :
    (resolveCondition env cond run).2.Wrong := by
  obtain ⟨hu, hvalid⟩ := Bool.or_eq_false_iff.mp hv
  rw [resolveCondition_run hr, hu, hvalid, if_neg Bool.false_ne_true, if_pos (by simp)]
  exact ⟨_, List.mem_append_right _ List.mem_cons_self, rfl⟩

/-- A condition without type is not looked at. -/
theorem resolveCondition_mirrors (he : env.Linked n L env') (hl : run.Linked n L run')
    {cond cond' : Expr} (h : cond.Replaced n cond' fs) :
    Check.Mirrors n L fs run run' (resolveCondition env cond) (resolveCondition env' cond')
      fun M _ _ => M.nodes := by
  intro hclean
  cases hv : (((resolveExpr env cond run).2.tree.untyped (resolveExpr env cond run).1)
      || validCondition ((resolveExpr env cond run).2.tree.exprType (resolveExpr env cond run).1)) with
  | false => exact absurd (resolveCondition_invalid rfl hv) hclean.right
  | true =>
    obtain ⟨ws, hws, hrun⟩ := resolveCondition_valid rfl hv
    rw [hrun] at hclean ⊢
    have hexpr : Run.Spotless (resolveExpr env cond run).2 :=
      hclean.before ⟨List.subset_append_left _ _, fun _ hi => hi⟩
    obtain ⟨M, hle, hl, htold, hnodes, hagree⟩ := resolveExpr_mirrors he hl h hexpr
    rw [hexpr.clean.untyped, Bool.false_or] at hv
    have hresolved : resolveExpr env' cond' run' = (_, _) := rfl
    obtain ⟨ws', hws', hrun'⟩ := resolveCondition_valid hresolved (hagree.fits hv)
    rw [hrun']
    refine ⟨M, hle, hl.say _ _, ?_, hnodes⟩
    rw [Run.faults_say _ (resolveExpr env' cond' run').2.tree, hws', List.append_nil, htold]

/-! ### Scopes -/

theorem openScope_mirrors (hl : run.Linked n L run') :
    Check.Mirrors n L [] run run' openScope openScope fun M _ _ a a' => M = L ∧ a' = a := by
  intro _
  have hnext : run'.lastScope + 1 = run.lastScope + 1 := by rw [hl.lastScope]
  refine ⟨L, le_refl L, ⟨hl.tree, ?_, hl.fresh, hl.labels, hnext⟩, (List.append_nil _).symm, rfl, hnext⟩
  exact .cons ⟨hnext, .nil⟩ hl.scopes

theorem closeFrame_mirrors (hl : run.Linked n L run') :
    Check.Mirrors n L [] run run' closeFrame closeFrame fun M _ _ _ _ => M = L := by
  intro _
  have hscopes := hl.scopes
  have hfresh := hl.fresh
  unfold ScopeStack.Linked at hscopes
  have hclose : ∀ (run : Run) (f : Frame) (rest : List Frame), run.scopes.frames = f :: rest →
      closeFrame run = (f.locals, { run with scopes := ⟨rest⟩ }) := by
    intro run f rest hf
    simp only [closeFrame, modifyGet, MonadStateOf.modifyGet, StateT.modifyGet, ScopeStack.pop?, hf]
    rfl
  have hempty : ∀ run : Run, run.scopes.frames = [] → closeFrame run = ([], run) := by
    intro run hf
    simp only [closeFrame, modifyGet, MonadStateOf.modifyGet, StateT.modifyGet, ScopeStack.pop?, hf]
    rfl
  cases hf : run.scopes.frames with
  | nil =>
    rw [hf] at hscopes
    have hf' : run'.scopes.frames = [] := List.forall₂_nil_left_iff.mp hscopes
    rw [hempty run hf, hempty run' hf']
    exact ⟨L, le_refl L, hl, (List.append_nil _).symm, rfl⟩
  | cons f rest =>
    rw [hf] at hscopes
    obtain ⟨f', rest', -, hrest, hf'⟩ := List.forall₂_cons_left_iff.mp hscopes
    rw [hclose run f rest hf, hclose run' f' rest' hf']
    refine ⟨L, le_refl L, ⟨hl.tree, hrest, ?_, hl.labels, hl.lastScope⟩, (List.append_nil _).symm, rfl⟩
    unfold ScopeStack.lookup? at hfresh ⊢
    rw [hf, List.findSome?_cons] at hfresh
    split at hfresh
    · cases hfresh
    · exact hfresh

theorem Env.Linked.valueFunction? (h : env.Linked n L env') :
    env'.valueFunction? = env.valueFunction? := by
  have hbody := h.body
  unfold Env.valueFunction?
  generalize env.body = body at hbody
  generalize env'.body = body' at hbody
  cases hbody with
  | none => rfl
  | some hb =>
    simp only [Option.filter_some, hb.isEvent, hb.returnType]
    split
    · exact congrArg some hb.name
    · rfl

instance quiet_warnUnusedLocals (locals : List (String × NodeId)) :
    Check.Quiet (warnUnusedLocals locals) := by
  unfold warnUnusedLocals
  infer_instance

/-- Dead code for this reason is an error. -/
def Env.Condemns (env : Env) (reason : Reach) : Prop :=
  env.valueFunction?.isSome = true ∧ reason = .afterReturn

theorem reportSegment_warns {segment : DeadSegment} (h : ¬ env.Condemns segment.reason) :
    Check.Quiet (reportSegment env segment) := by
  unfold reportSegment
  split
  · rename_i hv hr
    exact absurd ⟨by rw [hv]; rfl, hr⟩ h
  · infer_instance

theorem reportSegment_wrong {segment : DeadSegment} (h : env.Condemns segment.reason) (run : Run) :
    (reportSegment env segment run).2.Wrong := by
  obtain ⟨hv, hr⟩ := h
  obtain ⟨name, hv⟩ := Option.isSome_iff_exists.mp hv
  unfold reportSegment
  rw [hv, hr]
  exact Check.wrong_fault _ _ _

/-- There is dead code for the same reasons on both sides, and none of it is an error. -/
theorem reportSegments_mirrors (he : env.Linked n L env') (hl : run.Linked n L run')
    {segments segments' : List DeadSegment}
    (h : ∀ reason, (∃ s ∈ segments', s.reason = reason) ↔ ∃ s ∈ segments, s.reason = reason) :
    Check.Mirrors n L [] run run' (segments.forM (reportSegment env))
      (segments'.forM (reportSegment env')) fun M _ _ _ _ => M = L := by
  by_cases hbad : ∃ s ∈ segments, env.Condemns s.reason
  · obtain ⟨s, hs, hbad⟩ := hbad
    exact fun hclean => absurd (Check.wrong_each hs (reportSegment_wrong hbad) run) hclean.right
  · have hquiet : Check.Quiet (segments.forM (reportSegment env)) := Check.quiet_each fun s hs =>
      reportSegment_warns fun hc => hbad ⟨s, hs, hc⟩
    have hquiet' : Check.Quiet (segments'.forM (reportSegment env')) := by
      refine Check.quiet_each fun s hs => reportSegment_warns fun hc => ?_
      obtain ⟨s', hs', hreason⟩ := (h s.reason).mp ⟨s, hs, rfl⟩
      refine hbad ⟨s', hs', ?_⟩
      rwa [Env.Condemns, hreason, ← he.valueFunction?]
    exact (Check.Mirrors.quiet hl).mono fun _ _ _ _ _ hv => hv.1

/-- Scopes whose statements belong together belong together. -/
theorem closeScope_mirrors (he : env.Linked n L env') (hl : run.Linked n L run') (kind : ScopeKind)
    (span span' : Span) {tr tr' : Tracker} (htr : tr.Linked L.nodes tr') :
    Check.Mirrors n L [] run run' (closeScope env kind span tr) (closeScope env' kind span' tr')
      fun M _ _ => M.nodes := by
  unfold closeScope
  refine .silentBind (closeFrame_mirrors hl) fun M _ _ r r' _ _ hr hM => ?_
  obtain rfl : M = L := hM
  refine .warn hr fun r₁ r₁' hr₁ _ _ => ?_
  refine .silentBind (reportSegments_mirrors he hr₁ htr.mem_reasons) fun N _ _ r₂ r₂' _ _ hr₂ hN => ?_
  obtain rfl : N = M := hN
  refine Check.Mirrors.mono (Check.Mirrors.alloc hr₂ span span' htr.statements ?_) ?_
  · refine ⟨.none, rfl, .some ⟨htr.scopeId, htr.jumps, ?_⟩⟩
    exact htr.returns
  · rintro N _ _ i j ⟨rfl, rfl, rfl, -⟩
    exact .inr ⟨rfl, rfl⟩

/-- Scopes belong together if what is appended to them does. -/
theorem inScope_mirrors (he : env.Linked n L env') (hl : run.Linked n L run') (kind : ScopeKind)
    (singleStatement : Bool) (span span' : Span) {fill fill' : Tracker → CheckBody Tracker}
    [hu : ∀ tr, CheckBody.Upholds (fill tr)]
    (hfill : ∀ r r' tr tr', r.Linked n L r' → tr.Linked L.nodes tr' →
      CheckBody.Mirrors n L fs r r' (fill tr) (fill' tr') fun M _ _ => Tracker.Linked M.nodes) :
    CheckBody.Mirrors n L fs run run' (inScope env kind singleStatement span fill)
      (inScope env' kind singleStatement span' fill') fun M _ _ => M.nodes := by
  unfold inScope
  refine .silentBind (.lift (openScope_mirrors hl)) fun M scopeId scopeId' r r' _ _ hr hM => ?_
  obtain ⟨rfl, rfl⟩ := hM
  refine .bindSilent (hfill r r' _ _ hr ⟨rfl, rfl, .nil, rfl, .inl ⟨rfl, rfl⟩, rfl, .nil⟩)
    fun N tr tr' r₁ r₁' hle _ hr₁ htr => ?_
  exact .lift (closeScope_mirrors (he.mono hle) hr₁ kind span span' htr)

/-- A statement is appended to its scope on both sides. -/
theorem appendStmt_mirrors (hl : run.Linked n L run') {tr tr' : Tracker} {id id' : NodeId}
    {facts facts' : Facts} (htr : tr.Linked L.nodes tr') (hid : L.nodes id id')
    (hfacts : facts.Linked L.nodes facts') :
    CheckBody.Mirrors n L [] run run' (appendStmt tr id facts) (appendStmt tr' id' facts')
      fun M _ _ => Tracker.Linked M.nodes := by
  intro tr₁ r tr₁' r' hrun hrun' _
  obtain ⟨t₁, reach, happ, rfl⟩ := appendStmt_ok hrun
  obtain ⟨t₁', reach', happ', rfl⟩ := appendStmt_ok hrun'
  obtain ⟨htree, htr₁⟩ := hl.tree.append htr hid hfacts happ happ'
  exact ⟨L, le_refl L, { hl with tree := htree }, (List.append_nil _).symm, htr₁⟩

/-! ### Plain statements -/

theorem ScopeStack.Linked.define {P : NodeId → NodeId → Prop} {s s' s₁ : ScopeStack}
    (h : s.Linked P s') {name : String} {i j : NodeId} (hij : P i j)
    (hs : s.define name i = .ok s₁) : ∃ s₁', s'.define name j = .ok s₁' ∧ s₁.Linked P s₁' := by
  rcases s with ⟨frames⟩
  rcases s' with ⟨frames'⟩
  change List.Forall₂ _ frames frames' at h
  cases h with
  | nil =>
    obtain rfl : ScopeStack.mk [] = s₁ := Except.ok.inj hs
    exact ⟨⟨[]⟩, rfl, .nil⟩
  | @cons f f' rest rest' hf hrest =>
    have hfound := hf.2.lookup name
    simp only [ScopeStack.define] at hs ⊢
    generalize f.locals.lookup name = found at hfound hs
    generalize f'.locals.lookup name = found' at hfound ⊢
    cases hfound with
    | some => cases hs
    | none =>
      obtain rfl := Except.ok.inj hs
      exact ⟨_, rfl, .cons ⟨hf.1, hf.2.add name hij⟩ hrest⟩

theorem ScopeStack.lookup?_define {s s₁ : ScopeStack} {name : String} {i : NodeId}
    (hs : s.define name i = .ok s₁) (hname : name ≠ n) : s₁.lookup? n = s.lookup? n := by
  rcases s with ⟨_ | ⟨f, rest⟩⟩
  · obtain rfl : ScopeStack.mk [] = s₁ := Except.ok.inj hs
    rfl
  · simp only [ScopeStack.define] at hs
    cases hfound : f.locals.lookup name with
    | some => simp only [hfound] at hs; cases hs
    | none =>
      simp only [hfound] at hs
      obtain rfl := Except.ok.inj hs
      simp only [ScopeStack.lookup?, List.findSome?_cons, Names.lookup_push_of_ne _ i hname]

/-- A local variable that is not called `n` is declared on both sides. -/
theorem declareLocal_mirrors (he : env.Linked n L env') (hl : run.Linked n L run')
    (hij : L.vars i j) {name : String} (hname : name ≠ n) (span span' : Span) :
    Check.Mirrors n L [] run run' (declareLocal env i name span) (declareLocal env' j name span')
      fun M t t' _ _ => M = L ∧ t = run.tree ∧ t' = run'.tree := by
  intro hclean
  obtain ⟨kind, -, -, hr⟩ | ⟨scopes, hconst, hdef, hr⟩ := declareLocal_cases env i name span run
  · rw [hr] at hclean
    exact absurd ⟨_, List.mem_append_right _ List.mem_cons_self, rfl⟩ hclean.right
  · obtain ⟨scopes', hdef', hscopes⟩ := hl.scopes.define hij hdef
    have hsaid : ∀ {r r₁ : Run} {span : Span}, (r₁ = r
        ∨ ∃ kind, r₁ = { r with notices := r.notices ++ [.warning kind span] }) →
          ∃ ns, ns.filterMap Notice.fault? = [] ∧ r₁ = { r with notices := r.notices ++ ns } := by
      rintro r _ span (rfl | ⟨kind, rfl⟩)
      · exact ⟨[], rfl, by rw [List.append_nil]⟩
      · exact ⟨_, rfl, rfl⟩
    obtain ⟨kind, -, hbad, -⟩ | ⟨scopes₁, -, hdef₁, hr'⟩ := declareLocal_cases env' j name span' run'
    · rw [he.library, hconst, hdef'] at hbad
      obtain hbad | ⟨d, hbad⟩ := hbad <;> cases hbad
    · obtain rfl : scopes' = scopes₁ := Except.ok.inj (hdef'.symm.trans hdef₁)
      have hlinked : Run.Linked n L { run with scopes } { run' with scopes := scopes' } :=
        { hl with
          scopes := hscopes
          fresh := (ScopeStack.lookup?_define hdef hname).trans hl.fresh }
      obtain ⟨ns, -, hr⟩ := hsaid hr
      obtain ⟨ns', hns', hr'⟩ := hsaid hr'
      rw [hr, hr']
      refine ⟨L, le_refl L, hlinked.say _ _, ?_, rfl, rfl, rfl⟩
      rw [Run.faults, List.filterMap_append, hns']
      rfl

/-- An initial value that is wrong already is not looked at. -/
theorem checkInitializer_mirrors (hl : run.Linked n L run') (hclean : run.Spotless)
    (hij : run.tree.Agrees run'.tree i j) (decl decl' : NodeId) (name : String) (ty : Ty) :
    Check.Mirrors n L [] run run' (checkInitializer decl name ty i)
      (checkInitializer decl' name ty j) fun M _ _ _ _ => M = L := by
  unfold checkInitializer
  refine .tree ?_
  refine (Check.Mirrors.never hl (fun hbad => ?_) fun r => Check.wrong_faultAt _ _ _ r).mono
    fun _ _ _ _ _ hv => hv.1
  rw [hclean.clean.untyped, Bool.not_false, Bool.true_and]
  rw [← Bool.not_or] at hbad
  by_contra hfits
  have hok := hij.fits (q := assignable ty) (by simpa using hfits)
  rw [hok] at hbad
  cases hbad

/-- A new statement in place of the one that belongs to it. -/
theorem allocStmt_mirrors (hl : run.Linked n L run') {kind kind' : StmtKind} (span span' : Span)
    (hc : List.Forall₂ L.nodes kind.children kind'.children)
    (hjumps : Option.Rel (List.Forall₂ L.nodes) kind.jumps? kind'.jumps?) :
    Check.Mirrors n L [] run run' (Check.allocStmt kind span) (Check.allocStmt kind' span')
      fun M t t' i j => M.nodes i j ∧ M = L.addNode i j ∧ i = run.tree.size ∧ j = run'.tree.size
        ∧ t = (run.tree.alloc (.stmt { kind }) span).1
        ∧ t' = (run'.tree.alloc (.stmt { kind := kind' }) span').1 := by
  refine Check.Mirrors.mono (Check.Mirrors.alloc hl span span' hc ⟨hjumps, rfl, .none⟩) ?_
  rintro M t t' i j ⟨rfl, hi, hj, ht, ht'⟩
  exact ⟨.inr ⟨rfl, rfl⟩, rfl, hi, hj, ht, ht'⟩

theorem forall₂_toList {α β : Type} {R : α → β → Prop} {a : Option α} {b : Option β}
    (h : Option.Rel R a b) : List.Forall₂ R a.toList b.toList := by
  cases h with
  | none => exact .nil
  | some h => exact .cons h .nil

/-- A declaration with an initial value that may be wrong. -/
theorem resolveDeclaration_mirrors (he : env.Linked n L env') (hl : run.Linked n L run')
    (scopeId : Nat) (singleStatement : Bool) {d d' : VarDecl} (h : d.Replaced n d' fs)
    (span span' : Span) :
    Check.Mirrors n L fs run run' (resolveDeclaration env scopeId singleStatement d span)
      (resolveDeclaration env' scopeId singleStatement d' span') fun M _ _ => M.nodes := by
  unfold resolveDeclaration
  rw [h.name, h.ty]
  refine .bindSilent (resolveOption_mirrors he hl h.init) fun M init init' r r' hle _ hr hinit => ?_
  have hparts : List.Forall₂ M.nodes init.toList init'.toList :=
    forall₂_toList (optionRel_mono hinit fun _ _ hv => hv.1)
  obtain ⟨hhas, hhas'⟩ := hr.tree.has_all hparts
  refine .silentBind (allocStmt_mirrors hr span span' hparts .none)
    fun N id id' r₁ r₁' hle₁ _ hr₁ hmade => ?_
  obtain ⟨hid, -, hi, hj, ht, ht'⟩ := hmade
  have hagree : Option.Rel (r₁.tree.Agrees r₁'.tree) init init' := by
    rw [ht, ht']
    cases hinit with
    | none => exact .none
    | some hv => exact .some (hv.2.alloc _ _ hhas hhas')
  have hk := Tree.kind?_alloc_self (t := r.tree) (.stmt ⟨.declare
    { name := d.name, ty := d.ty, scope := .inner, init, declaredIn := scopeId }, {}⟩) span
  have hk' := Tree.kind?_alloc_self (t := r'.tree) (.stmt ⟨.declare
    { name := d.name, ty := d.ty, scope := .inner, init := init', declaredIn := scopeId }, {}⟩) span'
  rw [← ht, ← hi] at hk
  rw [← ht', ← hj] at hk'
  have hdeclared : r₁.Linked n (N.addVar id id') r₁' := hr₁.addVar hk hk'
    ⟨rfl, fun x hx => Option.mem_some_iff.mp hx ▸ h.fresh⟩
  refine .guard (fun hsingle => hsingle) (Check.wrong_faultAt _ _ _)
    (Check.Mirrors.widen ?_ (N.le_addVar id id'))
  refine .silentBind (declareLocal_mirrors (he.mono (le_trans hle (le_trans hle₁ (N.le_addVar _ _))))
    hdeclared (.inr ⟨rfl, rfl⟩) h.fresh span span') fun P _ _ r₂ r₂' _ hclean hr₂ hsame => ?_
  obtain ⟨rfl, ht₂, ht₂'⟩ := hsame
  refine .silentBind (.optionForM hr₂ hagree fun i j hij => checkInitializer_mirrors hr₂ hclean
    (by rwa [ht₂, ht₂']) id id' d.name d.ty) fun Q _ _ r₃ r₃' _ _ hr₃ hQ => ?_
  obtain rfl : Q = N.addVar id id' := hQ
  exact .pure hr₃ hid

theorem returnFault?_eq_none {t t' : Tree} {b b' : Body} (hb : b.Linked n L b')
    {value value' : Option NodeId} (hv : Option.Rel (t.Agrees t') value value') (hclean : t.Clean)
    (h : returnFault? t b value = none) : returnFault? t' b' value' = none := by
  unfold returnFault? at h ⊢
  rw [hb.isEvent, hb.returnType, hb.name]
  cases hv with
  | none => exact h
  | some hv =>
    simp only [hclean.untyped, Bool.false_or] at h ⊢
    split at h
    · cases h
    · rename_i hevent
      split at h
      · cases h
      · rename_i hvoid
        split at h
        · rename_i hok
          rw [if_neg hevent, if_neg hvoid, if_pos (hv.fits hok)]
        · cases h

/-- A return with a value that may be wrong. -/
theorem resolveReturn_mirrors (he : env.Linked n L env') (hl : run.Linked n L run')
    {value value' : Option Expr} (h : Optionally (Expr.Replaced n) value value' fs)
    (span span' : Span) :
    Check.Mirrors n L fs run run' (resolveReturn env value span) (resolveReturn env' value' span')
      fun M _ _ => M.nodes := by
  unfold resolveReturn
  refine .bindSilent (resolveOption_mirrors he hl h) fun M v v' r r' hle _ hr hv => ?_
  have hparts : List.Forall₂ M.nodes v.toList v'.toList :=
    forall₂_toList (optionRel_mono hv fun _ _ hv => hv.1)
  obtain ⟨hhas, hhas'⟩ := hr.tree.has_all hparts
  refine .silentBind (allocStmt_mirrors hr span span' hparts .none)
    fun N id id' r₁ r₁' hle₁ hclean hr₁ hmade => ?_
  obtain ⟨hid, -, hi, hj, ht, ht'⟩ := hmade
  have hagree : Option.Rel (r₁.tree.Agrees r₁'.tree) v v' := by
    rw [ht, ht']
    cases hv with
    | none => exact .none
    | some hv => exact .some (hv.2.alloc _ _ hhas hhas')
  refine .tree ?_
  have hbody := he.body
  generalize env.body = body at hbody
  generalize env'.body = body' at hbody
  cases hbody with
  | none => exact .pure hr₁ hid
  | @some b b' hb =>
    rw [Option.bind_some, Option.bind_some]
    cases hf : returnFault? r₁.tree b v with
    | some kind =>
      exact .refuse (Check.wrong_faultAt _ _ _)
    | none =>
      rw [returnFault?_eq_none hb hagree hclean.clean hf]
      exact .pure hr₁ hid

theorem ScopeStack.Linked.isOpen {P : NodeId → NodeId → Prop} {s s' : ScopeStack}
    (h : s.Linked P s') (scopeId : Nat) : s'.isOpen scopeId = s.isOpen scopeId :=
  any_linked h fun _ _ hf => by rw [hf.1]

/-- A jump leads to labels that belong together and stand at the same place, or to none. -/
theorem jumpTarget?_linked (he : env.Linked n L env') (hl : run.Linked n L run') (name : String) :
    Option.Rel (fun x x' => L.nodes x.1 x'.1
        ∧ (x'.2.index, x'.2.scopeId, x'.2.dead) = (x.2.index, x.2.scopeId, x.2.dead))
      (jumpTarget? env run name) (jumpTarget? env' run' name) := by
  have hlabel := he.label? name
  unfold jumpTarget?
  generalize env.label? name = label at hlabel
  generalize env'.label? name = label' at hlabel
  cases hlabel with
  | none => exact .none
  | @some i j hij =>
    have hplace := hl.tree.place hij
    simp only [Option.bind_eq_bind, Option.bind_some]
    generalize run.tree.stmt? i = s at hplace
    generalize run'.tree.stmt? j = s' at hplace
    rcases s with _ | s <;> rcases s' with _ | s'
    · exact .none
    · cases hplace
    · cases hplace
    · have hplace : (s'.info.index, s'.info.scopeId, s'.info.dead)
          = (s.info.index, s.info.scopeId, s.info.dead) := Option.some.inj hplace
      have hscope : s'.info.scopeId = s.info.scopeId := congrArg (·.2.1) hplace
      simp only [Option.bind_some, hscope, hl.scopes.isOpen s.info.scopeId]
      split
      · exact .some ⟨hij, hplace⟩
      · exact .none

/-- Statements that belong together and do the same. -/
def Links.Settle (M : Links) (x x' : NodeId × Facts) : Prop :=
  M.nodes x.1 x'.1 ∧ x.2.Linked M.nodes x'.2

theorem Facts.linked_plain (P : NodeId → NodeId → Prop) (returns : Bool) :
    Facts.Linked P { returns } { returns } := ⟨rfl, .none⟩

/-- A jump leads to the same place. -/
theorem resolveJump_mirrors (he : env.Linked n L env') (hl : run.Linked n L run') (index : Nat)
    (name : String) (span span' : Span) :
    Check.Mirrors n L [] run run' (resolveJump env index name span)
      (resolveJump env' index name span') fun M _ _ => M.Settle := by
  unfold resolveJump
  refine .get ?_
  have htarget := jumpTarget?_linked he hl name
  generalize jumpTarget? env run name = target at htarget
  generalize jumpTarget? env' run' name = target' at htarget
  cases htarget with
  | none =>
    refine .silentBind (allocStmt_mirrors hl span span' .nil .none) fun M id id' r r' _ _ _ _ => ?_
    exact .refuse (Check.wrong_faultAt _ _ _)
  | @some x x' hx =>
    obtain ⟨label, info⟩ := x
    obtain ⟨label', info'⟩ := x'
    obtain ⟨hlabel, hplace⟩ := hx
    simp only [Prod.mk.injEq] at hplace
    obtain ⟨hindex, hscope, hdead⟩ := hplace
    refine .silentBind (allocStmt_mirrors hl span span' .nil .none)
      fun M id id' r r' hle _ hr hmade => ?_
    have hlabel := hle.2.2 _ _ hlabel
    refine .silentBind (.modifyTree hr (hr.tree.addJump hlabel hmade.1)) fun N _ _ r₁ r₁' _ _ hr₁ hN => ?_
    obtain rfl : N = M := hN
    refine .pure hr₁ ⟨hmade.1, rfl, ?_⟩
    simp only [hdead]
    split
    · exact .none
    · exact .some ⟨hlabel, rfl, hscope, hindex⟩

/-- Labels are taken in the same order. -/
theorem takeLabel_mirrors (hl : run.Linked n L run') (name : String) (span span' : Span) :
    CheckBody.Mirrors n L [] run run' (takeLabel name span) (takeLabel name span')
      fun M _ _ => M.nodes := by
  intro id r id' r' hrun hrun' _
  obtain ⟨rest, hnext, rfl⟩ := takeLabel_ok hrun
  obtain ⟨rest', hnext', rfl⟩ := takeLabel_ok hrun'
  have hlabels := hl.labels
  rw [hnext, hnext'] at hlabels
  obtain ⟨hid, hrest⟩ := List.forall₂_cons.mp hlabels
  exact ⟨L, le_refl L, { hl with labels := hrest }, (List.append_nil _).symm, hid⟩

theorem optionRel_isNone {α β : Type} {R : α → β → Prop} {a : Option α} {b : Option β}
    (h : Option.Rel R a b) : b.isNone = a.isNone := by
  cases h <;> rfl

theorem resolveStateChange_mirrors (he : env.Linked n L env') (hl : run.Linked n L run')
    (target : String) (span span' : Span) :
    Check.Mirrors n L [] run run' (resolveStateChange env target span)
      (resolveStateChange env' target span') fun M _ _ => M.nodes := by
  unfold resolveStateChange
  simp only [optionRel_isNone (he.states.lookup target)]
  refine .silentBind (allocStmt_mirrors hl span span' .nil .none) fun M id id' r r' _ _ hr hmade => ?_
  exact .guard (fun hnone => hnone) (Check.wrong_faultAt _ _ _) (.pure hr hmade.1)

/-! ### Compound statements -/

/-- The same scope for what happens around it. -/
def CodeScope.Linked (P : NodeId → NodeId → Prop) (c c' : CodeScope) : Prop :=
  c'.scopeId = c.scopeId ∧ List.Forall₂ (ConstantJump.Linked P) c.constantJumps c'.constantJumps
    ∧ c'.hasReturnPath = c.hasReturnPath

theorem getScope_mirrors (hl : run.Linked n L run') (hij : L.nodes i j) :
    CheckBody.Mirrors n L [] run run' (getScope i) (getScope j)
      fun M _ _ c c' => M = L ∧ CodeScope.Linked L.nodes c c' := by
  intro c r c' r' hrun hrun' _
  obtain ⟨hc, rfl⟩ := getScope_ok hrun
  obtain ⟨hc', rfl⟩ := getScope_ok hrun'
  have hscope := hl.tree.scope? hij
  rw [hc, hc'] at hscope
  cases hscope with
  | some hscope => exact ⟨L, le_refl L, hl, (List.append_nil _).symm, rfl, hscope⟩

theorem getScopes_mirrors (hl : run.Linked n L run') {ids ids' : List NodeId}
    (h : List.Forall₂ L.nodes ids ids') :
    CheckBody.Mirrors n L [] run run' (ids.mapM getScope) (ids'.mapM getScope)
      fun M _ _ cs cs' => M = L ∧ List.Forall₂ (CodeScope.Linked L.nodes) cs cs' := by
  intro cs r cs' r' hrun hrun' _
  obtain ⟨rfl, rfl⟩ := mapM_getScope_ok hrun
  obtain ⟨rfl, rfl⟩ := mapM_getScope_ok hrun'
  refine ⟨L, le_refl L, hl, (List.append_nil _).symm, rfl, ?_⟩
  exact List.rel_filterMap (fun _ _ hij => hl.tree.scope? hij) h

theorem ConstantJump.Linked.seenFrom {P : NodeId → NodeId → Prop} {x x' : ConstantJump}
    (h : x.Linked P x') (jump jump' : NodeId) (index : Nat) :
    (x.seenFrom jump index).Linked P (x'.seenFrom jump' index) := { h with jumpIndex := rfl }

theorem blockFacts_linked {P : NodeId → NodeId → Prop} {c c' : CodeScope}
    (h : CodeScope.Linked P c c') (id id' : NodeId) (index : Nat) :
    (blockFacts c id index).Linked P (blockFacts c' id' index) where
  returns := h.2.2
  jump := optionRel_map (find?_linked h.2.1 fun x y hxy => by rw [hxy.targetScope, h.1])
    fun _ _ hxy => hxy.seenFrom id id' index

/-- Labels that belong together are the same for jumps that belong together. -/
theorem branchFacts_linked {P : NodeId → NodeId → Prop} (hP : Relator.BiUnique P)
    {first first' : CodeScope} {others others' : List CodeScope} (h : CodeScope.Linked P first first')
    (hs : List.Forall₂ (CodeScope.Linked P) others others') (id id' : NodeId) (index : Nat) :
    (branchFacts first others id index).Linked P (branchFacts first' others' id' index) where
  returns := all_linked (List.Forall₂.cons h hs) fun _ _ hc => hc.2.2
  jump := by
    refine optionRel_map (find?_linked h.2.1 fun x y hxy => ?_) fun _ _ hxy =>
      hxy.seenFrom id id' index
    refine all_linked hs fun c c' hc => any_linked hc.2.1 fun z w hzw => ?_
    rw [Bool.eq_iff_iff, beq_iff_eq, beq_iff_eq]
    exact ⟨fun heq => hP.1 (heq ▸ hzw.label) hxy.label, fun heq => hP.2 (heq ▸ hzw.label) hxy.label⟩

theorem finishBlock_mirrors (hl : run.Linked n L run') (index : Nat) {scope scope' : NodeId}
    (hscope : L.nodes scope scope') (span span' : Span) :
    CheckBody.Mirrors n L [] run run' (finishBlock index scope span) (finishBlock index scope' span')
      fun M _ _ => M.Settle := by
  unfold finishBlock
  refine .silentBind (.lift (allocStmt_mirrors hl span span' (.cons hscope .nil) .none))
    fun M id id' r r' hle _ hr hmade => ?_
  refine .silentBind (getScope_mirrors hr (hle.2.2 _ _ hscope)) fun N c c' r₁ r₁' _ _ hr₁ hc => ?_
  obtain ⟨rfl, hc⟩ := hc
  exact .pure hr₁ ⟨hmade.1, blockFacts_linked hc id id' index⟩

/-- The conditions and scopes of arms that belong together. -/
def Links.Arms (M : Links) (arms arms' : List (NodeId × NodeId)) : Prop :=
  List.Forall₂ (fun x x' => M.nodes x.1 x'.1 ∧ M.nodes x.2 x'.2) arms arms'

theorem Links.Arms.mono {arms arms' : List (NodeId × NodeId)} (h : L.Arms arms arms')
    (hle : L ≤ M) : M.Arms arms arms' :=
  List.Forall₂.imp (fun _ _ hx => ⟨hle.2.2 _ _ hx.1, hle.2.2 _ _ hx.2⟩) h

theorem Links.Arms.scopes {arms arms' : List (NodeId × NodeId)} (h : L.Arms arms arms') :
    List.Forall₂ L.nodes (arms.map (·.2)) (arms'.map (·.2)) :=
  List.rel_map (fun _ _ hx => hx.2) h

theorem finishBranch_mirrors (hl : run.Linked n L run') (index : Nat)
    {cond cond' thenScope thenScope' : NodeId} {elseIfs elseIfs' : List (NodeId × NodeId)}
    {elseScope elseScope' : Option NodeId} (hcond : L.nodes cond cond')
    (hthen : L.nodes thenScope thenScope') (harms : L.Arms elseIfs elseIfs')
    (helse : Option.Rel L.nodes elseScope elseScope') (span span' : Span) :
    CheckBody.Mirrors n L [] run run' (finishBranch index cond thenScope elseIfs elseScope span)
      (finishBranch index cond' thenScope' elseIfs' elseScope' span') fun M _ _ => M.Settle := by
  unfold finishBranch
  have hparts : List.Forall₂ L.nodes (StmtKind.branch cond thenScope elseIfs elseScope).children
      (StmtKind.branch cond' thenScope' elseIfs' elseScope').children := by
    refine .cons hcond (.cons hthen (List.rel_append ?_ (forall₂_toList helse)))
    exact List.rel_flatMap harms fun _ _ hx => .cons hx.1 (.cons hx.2 .nil)
  have hmake := allocStmt_mirrors hl span span' hparts .none
  cases helse with
  | none =>
    exact .silentBind (.lift hmake) fun M id id' r r' _ _ hr hmade =>
      .pure hr ⟨hmade.1, Facts.linked_plain _ _⟩
  | some hlast =>
    refine .silentBind (.lift hmake) fun M id id' r r' hle _ hr hmade => ?_
    refine .silentBind (getScope_mirrors hr (hle.2.2 _ _ hthen)) fun N c c' r₁ r₁' _ _ hr₁ hc => ?_
    obtain ⟨rfl, hc⟩ := hc
    refine .silentBind (getScopes_mirrors hr₁ (List.rel_append (harms.mono hle).scopes
      (.cons (hle.2.2 _ _ hlast) .nil))) fun P cs cs' r₂ r₂' _ _ hr₂ hcs => ?_
    obtain ⟨rfl, hcs⟩ := hcs
    exact .pure hr₂ ⟨hmade.1, branchFacts_linked hr₂.tree.unique hc hcs id id' index⟩

/-! ### All statements -/

section

variable (n env env')

/-- Statements that are given the name `n` in some places are wrong in these places only. -/
def MirrorsStmts (stmts : List Stmt) : Prop :=
  ∀ {stmts' : List Stmt} {L : Links} {fs : List (Fault × Span)} {run run' : Run}
    {tr tr' : Tracker}, env.Linked n L env' → run.Linked n L run' → tr.Linked L.nodes tr' →
      Piecewise (Stmt.Replaced n) stmts stmts' fs →
        CheckBody.Mirrors n L fs run run' (resolveStmts env stmts tr) (resolveStmts env' stmts' tr')
          fun M _ _ => Tracker.Linked M.nodes

def MirrorsStmt (s : Stmt) : Prop :=
  ∀ (scopeId index : Nat) {s' : Stmt} {L : Links} {fs : List (Fault × Span)} {run run' : Run},
    env.Linked n L env' → run.Linked n L run' → s.Replaced n s' fs →
      CheckBody.Mirrors n L fs run run' (resolveStmt env scopeId index s)
        (resolveStmt env' scopeId index s') fun M _ _ => M.Settle

def MirrorsPlain (stmt : PlainStmt) : Prop :=
  ∀ (scopeId index : Nat) (singleStatement : Bool) {stmt' : PlainStmt} {L : Links}
    {fs : List (Fault × Span)} {run run' : Run}, env.Linked n L env' → run.Linked n L run' →
      stmt.Replaced n stmt' fs →
        CheckBody.Mirrors n L fs run run' (resolvePlain env scopeId index singleStatement stmt)
          (resolvePlain env' scopeId index singleStatement stmt') fun M _ _ => M.Settle

def MirrorsBody (body : Stmt) : Prop :=
  ∀ (kind : ScopeKind) {body' : Stmt} {L : Links} {fs : List (Fault × Span)} {run run' : Run},
    env.Linked n L env' → run.Linked n L run' → body.Replaced n body' fs →
      CheckBody.Mirrors n L fs run run' (resolveBody env kind body) (resolveBody env' kind body')
        fun M _ _ => M.nodes

def MirrorsElseIfs (elseIfs : List ElseIf) : Prop :=
  ∀ {elseIfs' : List ElseIf} {L : Links} {fs : List (Fault × Span)} {run run' : Run},
    env.Linked n L env' → run.Linked n L run' →
      Piecewise (ElseIf.Replaced n) elseIfs elseIfs' fs → CheckBody.Mirrors n L fs run run'
        (resolveElseIfs env elseIfs) (resolveElseIfs env' elseIfs') fun M _ _ => M.Arms

def MirrorsElse (body : Option Stmt) : Prop :=
  ∀ {body' : Option Stmt} {L : Links} {fs : List (Fault × Span)} {run run' : Run},
    env.Linked n L env' → run.Linked n L run' → Optionally (Stmt.Replaced n) body body' fs →
      CheckBody.Mirrors n L fs run run' (resolveElse env body) (resolveElse env' body')
        fun M _ _ => Option.Rel M.nodes

end

theorem mirrorsStmts_nil : MirrorsStmts n env env' [] := by
  intro stmts' L fs run run' tr tr' he hl htr h
  cases h
  exact .pure hl htr

theorem mirrorsStmts_cons {s : Stmt} {rest : List Stmt} (hs : MirrorsStmt n env env' s)
    (hrest : MirrorsStmts n env env' rest) : MirrorsStmts n env env' (s :: rest) := by
  intro stmts' L fs run run' tr tr' he hl htr h
  cases h with
  | cons head tail =>
    unfold resolveStmts
    rw [htr.scopeId, htr.nextIndex]
    refine .bind (hs tr.scopeId tr.nextIndex he hl head) fun M x x' r r' hle _ hr hx => ?_
    refine .silentBind (appendStmt_mirrors hr (htr.mono hle.2.2) hx.1 hx.2)
      fun N tr₁ tr₁' r₁ r₁' hle₁ _ hr₁ htr₁ => ?_
    exact hrest (he.mono (le_trans hle hle₁)) hr₁ htr₁ tail

theorem mirrorsStmt_block {stmts : List Stmt} (hs : MirrorsStmts n env env' stmts)
    (inner span : Span) : MirrorsStmt n env env' (.block (.mk stmts inner) span) := by
  intro scopeId index s' L fs run run' he hl h
  cases h with
  | block h =>
    unfold resolveStmt
    refine .bindSilent (inScope_mirrors he hl _ _ _ _ fun r r' tr tr' hr htr => hs he hr htr h)
      fun M scope scope' r r' _ _ hr hscope => ?_
    exact finishBlock_mirrors hr index hscope span _

theorem mirrorsStmt_plain {stmt : PlainStmt} (hs : MirrorsPlain n env env' stmt) :
    MirrorsStmt n env env' (.plain stmt) := by
  intro scopeId index s' L fs run run' he hl h
  cases h with
  | plain h =>
    unfold resolveStmt
    exact hs scopeId index false he hl h

theorem mirrorsPlain_empty (span : Span) : MirrorsPlain n env env' (.empty span) := by
  intro scopeId index singleStatement stmt' L fs run run' he hl h
  cases h
  unfold resolvePlain
  refine .warn (le_refl _) hl fun r r' hr _ _ => ?_
  exact .silentBind (.lift (allocStmt_mirrors hr span _ .nil .none))
    fun M id id' r₁ r₁' _ _ hr₁ hmade => .pure hr₁ ⟨hmade.1, Facts.linked_plain _ _⟩

theorem mirrorsPlain_expr (e : Expr) (span : Span) : MirrorsPlain n env env' (.expr e span) := by
  intro scopeId index singleStatement stmt' L fs run run' he hl h
  cases h with
  | expr h =>
    unfold resolvePlain
    refine .bindSilent (.lift (resolveExpr_mirrors he hl h)) fun M v v' r r' _ _ hr hv => ?_
    refine .warn (le_refl _) hr fun r₁ r₁' hr₁ _ _ => ?_
    exact .silentBind (.lift (allocStmt_mirrors hr₁ span _ (.cons hv.1 .nil) .none))
      fun N id id' r₂ r₂' _ _ hr₂ hmade => .pure hr₂ ⟨hmade.1, Facts.linked_plain _ _⟩

theorem mirrorsPlain_declare (decl : VarDecl) (span : Span) :
    MirrorsPlain n env env' (.declare decl span) := by
  intro scopeId index singleStatement stmt' L fs run run' he hl h
  cases h with
  | declare h =>
    unfold resolvePlain
    exact .bindSilent (.lift (resolveDeclaration_mirrors he hl scopeId singleStatement h span _))
      fun M id id' r r' _ _ hr hid => .pure hr ⟨hid, Facts.linked_plain _ _⟩

theorem mirrorsPlain_ret (value : Option Expr) (span : Span) :
    MirrorsPlain n env env' (.ret value span) := by
  intro scopeId index singleStatement stmt' L fs run run' he hl h
  cases h with
  | ret h =>
    unfold resolvePlain
    exact .bindSilent (.lift (resolveReturn_mirrors he hl h span _))
      fun M id id' r r' _ _ hr hid => .pure hr ⟨hid, Facts.linked_plain _ _⟩

theorem mirrorsPlain_jump (name : String) (span : Span) :
    MirrorsPlain n env env' (.jump name span) := by
  intro scopeId index singleStatement stmt' L fs run run' he hl h
  cases h
  unfold resolvePlain
  exact .lift (resolveJump_mirrors he hl index name span _)

theorem mirrorsPlain_label (name : String) (span : Span) :
    MirrorsPlain n env env' (.label name span) := by
  intro scopeId index singleStatement stmt' L fs run run' he hl h
  cases h
  unfold resolvePlain
  exact .silentBind (takeLabel_mirrors hl name span _)
    fun M id id' r r' _ _ hr hid => .pure hr ⟨hid, Facts.linked_plain _ _⟩

theorem mirrorsPlain_stateChange (target : String) (span : Span) :
    MirrorsPlain n env env' (.stateChange target span) := by
  intro scopeId index singleStatement stmt' L fs run run' he hl h
  cases h
  unfold resolvePlain
  exact .silentBind (.lift (resolveStateChange_mirrors he hl target span _))
    fun M id id' r r' _ _ hr hid => .pure hr ⟨hid, Facts.linked_plain _ _⟩

theorem mirrorsPlain_branch (cond : Expr) {first : Stmt} {elseIfs : List ElseIf}
    {last : Option Stmt} (hfirst : MirrorsBody n env env' first)
    (harms : MirrorsElseIfs n env env' elseIfs) (hlast : MirrorsElse n env env' last)
    (span : Span) : MirrorsPlain n env env' (.branch cond first elseIfs last span) := by
  intro scopeId index singleStatement stmt' L fs run run' he hl h
  cases h with
  | branch rcond rfirst relseIfs rlast =>
    unfold resolvePlain
    rw [List.append_assoc, List.append_assoc]
    refine .bind (.lift (resolveCondition_mirrors he hl rcond))
      fun M cond cond' r r' hle _ hr hcond => ?_
    refine .bind (hfirst .ifBranch (he.mono hle) hr rfirst)
      fun N body body' r₁ r₁' hle₁ _ hr₁ hbody => ?_
    have hle₁' := le_trans hle hle₁
    refine .bind (harms (he.mono hle₁') hr₁ relseIfs) fun P arms arms' r₂ r₂' hle₂ _ hr₂ harms => ?_
    refine .bindSilent (hlast (he.mono (le_trans hle₁' hle₂)) hr₂ rlast)
      fun Q other other' r₃ r₃' hle₃ _ hr₃ hother => ?_
    have hle₃' := le_trans hle₂ hle₃
    exact finishBranch_mirrors hr₃ index ((le_trans hle₁ hle₃').2.2 _ _ hcond)
      (hle₃'.2.2 _ _ hbody) (harms.mono hle₃) hother span _

theorem mirrorsPlain_whileLoop (cond : Expr) {body : Stmt} (hbody : MirrorsBody n env env' body)
    (span : Span) : MirrorsPlain n env env' (.whileLoop cond body span) := by
  intro scopeId index singleStatement stmt' L fs run run' he hl h
  cases h with
  | whileLoop rcond rbody =>
    unfold resolvePlain
    refine .bind (.lift (resolveCondition_mirrors he hl rcond))
      fun M cond cond' r r' hle _ hr hcond => ?_
    refine .bindSilent (hbody .whileBody (he.mono hle) hr rbody)
      fun N body body' r₁ r₁' hle₁ _ hr₁ hbody => ?_
    exact .silentBind (.lift (allocStmt_mirrors hr₁ span _
      (.cons (hle₁.2.2 _ _ hcond) (.cons hbody .nil)) .none))
      fun P id id' r₂ r₂' _ _ hr₂ hmade => .pure hr₂ ⟨hmade.1, Facts.linked_plain _ _⟩

theorem mirrorsPlain_doWhile {body : Stmt} (hbody : MirrorsBody n env env' body) (cond : Expr)
    (span : Span) : MirrorsPlain n env env' (.doWhile body cond span) := by
  intro scopeId index singleStatement stmt' L fs run run' he hl h
  cases h with
  | doWhile rbody rcond =>
    unfold resolvePlain
    refine .bind (hbody .doWhileBody he hl rbody) fun M body body' r r' hle _ hr hbody => ?_
    refine .bindSilent (.lift (resolveCondition_mirrors (he.mono hle) hr rcond))
      fun N cond cond' r₁ r₁' hle₁ _ hr₁ hcond => ?_
    exact .silentBind (.lift (allocStmt_mirrors hr₁ span _
      (.cons (hle₁.2.2 _ _ hbody) (.cons hcond .nil)) .none))
      fun P id id' r₂ r₂' _ _ hr₂ hmade => .pure hr₂ ⟨hmade.1, Facts.linked_plain _ _⟩

/-- What follows the condition of a `for` loop, which may be missing. -/
theorem finishFor_mirrors {step step' : List Expr} {body body' : Stmt}
    (hbody : MirrorsBody n env env' body) (he : env.Linked n M env') (hl : run.Linked n M run')
    {init init' : List NodeId} {cond cond' : Option NodeId} (hinit : List.Forall₂ M.nodes init init')
    (hcond : Option.Rel M.nodes cond cond') (rstep : Piecewise (Expr.Replaced n) step step' fs)
    (rbody : body.Replaced n body' gs) (span span' : Span) :
    CheckBody.Mirrors n M (fs ++ gs) run run'
      (do
        let step ← resolveExprs env step
        let body ← resolveBody env .forBody body
        return (← Check.allocStmt (.forLoop init cond step body) span, {}))
      (do
        let step ← resolveExprs env' step'
        let body ← resolveBody env' .forBody body'
        return (← Check.allocStmt (.forLoop init' cond' step body) span', {}))
      fun M _ _ => M.Settle := by
  refine .bind (.lift (resolveExprs_mirrorsAll he hl rstep))
    fun P step step' r r' hle _ hr hstep => ?_
  refine .bindSilent (hbody .forBody (he.mono hle) hr rbody)
    fun Q body body' r₁ r₁' hle₁ _ hr₁ hbody => ?_
  have hle' := (le_trans hle hle₁).2.2
  have hparts := List.rel_append (List.rel_append (List.rel_append (hinit.imp hle')
    (forall₂_toList (optionRel_mono hcond hle'))) (hstep.imp hle₁.2.2)) (List.Forall₂.cons hbody .nil)
  exact .silentBind (.lift (allocStmt_mirrors hr₁ span _ hparts .none))
    fun R id id' r₂ r₂' _ _ hr₂ hmade => .pure hr₂ ⟨hmade.1, Facts.linked_plain _ _⟩

theorem mirrorsPlain_forLoop (init : List Expr) (cond : Option Expr) (step : List Expr) {body : Stmt}
    (hbody : MirrorsBody n env env' body) (span : Span) :
    MirrorsPlain n env env' (.forLoop init cond step body span) := by
  intro scopeId index singleStatement stmt' L fs run run' he hl h
  cases h with
  | forLoop rinit rcond rstep rbody =>
    unfold resolvePlain
    rw [List.append_assoc, List.append_assoc]
    cases rcond with
    | none =>
      refine .bind (.lift (resolveExprs_mirrorsAll he hl rinit))
        fun M init init' r r' hle _ hr hinit => ?_
      refine .silentBind (V := fun M _ _ => Option.Rel M.nodes) (.pure hr .none)
        fun N cond cond' r₁ r₁' hle₁ _ hr₁ hcond => ?_
      exact finishFor_mirrors hbody (he.mono (le_trans hle hle₁)) hr₁ (hinit.imp hle₁.2.2) hcond
        rstep rbody span _
    | some rcond =>
      refine .bind (.lift (resolveExprs_mirrorsAll he hl rinit))
        fun M init init' r r' hle _ hr hinit => ?_
      refine .bind (V := fun M _ _ => Option.Rel M.nodes) (.map (.lift
        (resolveCondition_mirrors (he.mono hle) hr rcond)) fun _ _ _ _ _ hv => .some hv)
        fun N cond cond' r₁ r₁' hle₁ _ hr₁ hcond => ?_
      exact finishFor_mirrors hbody (he.mono (le_trans hle hle₁)) hr₁ (hinit.imp hle₁.2.2) hcond
        rstep rbody span _

theorem mirrorsBody_braced {stmts : List Stmt} (hs : MirrorsStmts n env env' stmts)
    (inner span : Span) : MirrorsBody n env env' (.block (.mk stmts inner) span) := by
  intro kind body' L fs run run' he hl h
  cases h with
  | block h =>
    unfold resolveBody
    exact inScope_mirrors he hl _ _ _ _ fun r r' tr tr' hr htr => hs he hr htr h

theorem mirrorsBody_plain {stmt : PlainStmt} (hs : MirrorsPlain n env env' stmt) :
    MirrorsBody n env env' (.plain stmt) := by
  intro kind body' L fs run run' he hl h
  cases h with
  | plain h =>
    unfold resolveBody
    refine inScope_mirrors he hl _ _ _ _ fun r r' tr tr' hr htr => ?_
    rw [htr.scopeId]
    refine .bindSilent (hs tr.scopeId 0 true he hr h) fun M x x' r₁ r₁' hle _ hr₁ hx => ?_
    exact appendStmt_mirrors hr₁ (htr.mono hle.2.2) hx.1 hx.2

theorem mirrorsElseIfs_nil : MirrorsElseIfs n env env' [] := by
  intro elseIfs' L fs run run' he hl h
  cases h
  exact .pure hl .nil

theorem mirrorsElseIfs_cons (cond : Expr) {body : Stmt} (hbody : MirrorsBody n env env' body)
    (span : Span) {rest : List ElseIf} (hrest : MirrorsElseIfs n env env' rest) :
    MirrorsElseIfs n env env' (.mk cond body span :: rest) := by
  intro elseIfs' L fs run run' he hl h
  cases h with
  | cons head tail =>
    cases head with
    | mk rcond rbody =>
      unfold resolveElseIfs
      rw [List.append_assoc]
      refine .bind (.lift (resolveCondition_mirrors he hl rcond))
        fun M cond cond' r r' hle _ hr hcond => ?_
      refine .bind (hbody .elseIfBranch (he.mono hle) hr rbody)
        fun N body body' r₁ r₁' hle₁ _ hr₁ hbody => ?_
      refine .bindSilent (hrest (he.mono (le_trans hle hle₁)) hr₁ tail)
        fun P arms arms' r₂ r₂' hle₂ _ hr₂ harms => ?_
      exact .pure hr₂ (.cons ⟨(le_trans hle₁ hle₂).2.2 _ _ hcond, hle₂.2.2 _ _ hbody⟩ harms)

theorem mirrorsElse_none : MirrorsElse n env env' none := by
  intro body' L fs run run' he hl h
  cases h
  exact .pure hl .none

theorem mirrorsElse_some {body : Stmt} (hbody : MirrorsBody n env env' body) :
    MirrorsElse n env env' (some body) := by
  intro body' L fs run run' he hl h
  cases h with
  | some h => exact .map (hbody .elseBranch he hl h) fun _ _ _ _ _ hv => .some hv

mutual

/-- **Statements are wrong in the places of their mistakes only.** -/
theorem resolveStmts_mirrors : (stmts : List Stmt) → MirrorsStmts n env env' stmts
  | [] => mirrorsStmts_nil
  | s :: rest => mirrorsStmts_cons (resolveStmt_mirrors s) (resolveStmts_mirrors rest)

theorem resolveStmt_mirrors : (s : Stmt) → MirrorsStmt n env env' s
  | .block (.mk stmts inner) span => mirrorsStmt_block (resolveStmts_mirrors stmts) inner span
  | .plain stmt => mirrorsStmt_plain (resolvePlain_mirrors stmt)

theorem resolvePlain_mirrors : (stmt : PlainStmt) → MirrorsPlain n env env' stmt
  | .empty span => mirrorsPlain_empty span
  | .expr e span => mirrorsPlain_expr e span
  | .declare decl span => mirrorsPlain_declare decl span
  | .ret value span => mirrorsPlain_ret value span
  | .jump name span => mirrorsPlain_jump name span
  | .label name span => mirrorsPlain_label name span
  | .stateChange target span => mirrorsPlain_stateChange target span
  | .branch cond first elseIfs last span =>
    mirrorsPlain_branch cond (resolveBody_mirrors first) (resolveElseIfs_mirrors elseIfs)
      (resolveElse_mirrors last) span
  | .whileLoop cond body span => mirrorsPlain_whileLoop cond (resolveBody_mirrors body) span
  | .doWhile body cond span => mirrorsPlain_doWhile (resolveBody_mirrors body) cond span
  | .forLoop init cond step body span =>
    mirrorsPlain_forLoop init cond step (resolveBody_mirrors body) span

theorem resolveBody_mirrors : (body : Stmt) → MirrorsBody n env env' body
  | .block (.mk stmts inner) span => mirrorsBody_braced (resolveStmts_mirrors stmts) inner span
  | .plain stmt => mirrorsBody_plain (resolvePlain_mirrors stmt)

theorem resolveElseIfs_mirrors : (elseIfs : List ElseIf) → MirrorsElseIfs n env env' elseIfs
  | [] => mirrorsElseIfs_nil
  | .mk cond body span :: rest =>
    mirrorsElseIfs_cons cond (resolveBody_mirrors body) span (resolveElseIfs_mirrors rest)

theorem resolveElse_mirrors : (body : Option Stmt) → MirrorsElse n env env' body
  | none => mirrorsElse_none
  | some body => mirrorsElse_some (resolveBody_mirrors body)

end

end Lsl
