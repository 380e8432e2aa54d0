/- # Declarations and bodies with mistakes

What is declared outside bodies belongs together for good; what a body is resolved to
belongs together as long as the body is being resolved. So each body starts with the
same names on both sides, and reports the mistakes in it and no others.

Key theorems: `declareFunctions_mirrors`, `resolveGlobals_mirrors`, `enterBody_mirrors`,
`resolveFunction_mirrors`, `resolveState_mirrors`.
-/
import Lsl.Proofs.Mistakes.Stmts

namespace Lsl

variable {n : String} {L M : Links} {P : NodeId → NodeId → Prop} {env env' : Env}
  {run run' r r' : Run} {fs gs : List (Fault × Span)} {i j : NodeId} {ids ids' : List NodeId}
  {known known' : Lsl.Names}

/-! ### Outside bodies -/

namespace Run.Linked

/-- Outside bodies, declarations only have to stay what they are. -/
theorem heads (h : run.Linked n L run') (ho : L.Outer) {t t' : Tree} (ht : run.tree.Heads t)
    (ht' : run'.tree.Heads t') : Run.Linked n L { run with tree := t } { run' with tree := t' } :=
  { h with tree := h.tree.heads ho ht ht' }

theorem addFunction (h : run.Linked n L run') {f f' : FunctionNode}
    (hf : run.tree.function? i = some f) (hf' : run'.tree.function? j = some f')
    (htype : f'.returnType = f.returnType) (hparams : List.Forall₂ L.vars f.params f'.params) :
    run.Linked n (L.addFunction i j) run' :=
  { h with tree := h.tree.addFunction hf hf' htype hparams }

end Run.Linked

/-- New nodes outside bodies. -/
theorem Check.Mirrors.allocOuter (ho : L.Outer) (hl : run.Linked n L run') (kind kind' : NodeKind)
    (span span' : Span) :
    Check.Mirrors n L [] run run' (Check.alloc kind span) (Check.alloc kind' span')
      fun M t t' i j => M = L ∧ t.kind? i = some kind ∧ t'.kind? j = some kind'
        ∧ t = (run.tree.alloc kind span).1 ∧ t' = (run'.tree.alloc kind' span').1 := fun _ =>
  ⟨L, le_refl L, hl.heads ho (Tree.grows_alloc (P := fun _ => True) kind span).heads
    (Tree.grows_alloc (P := fun _ => True) kind' span').heads, (List.append_nil _).symm, rfl,
    Tree.kind?_alloc_self kind span, Tree.kind?_alloc_self kind' span', rfl, rfl⟩

/-- A declaration that is filled stays what it is. -/
theorem Tree.heads_fill {t : Tree} {k kind : NodeKind} (hk : t.kind? i = some k)
    (hkind : kind.heading = k.heading) : t.Heads (t.fill i kind).1 := by
  intro a ka ha
  rw [Tree.kind?_fill kind (Tree.has_of_kind? hk)]
  split
  · rename_i heq
    subst heq
    obtain rfl := Option.some.inj (hk.symm.trans ha)
    exact ⟨kind, rfl, hkind⟩
  · exact ⟨ka, ha, rfl⟩

theorem fill_mirrors (ho : L.Outer) (hl : run.Linked n L run') {k k' kind kind' : NodeKind}
    (hk : run.tree.kind? i = some k) (hkind : kind.heading = k.heading)
    (hk' : run'.tree.kind? j = some k') (hkind' : kind'.heading = k'.heading) :
    Check.Mirrors n L [] run run' (Check.fill i kind) (Check.fill j kind') fun M _ _ _ _ => M = L :=
  fun _ => ⟨L, le_refl L, hl.heads ho (Tree.heads_fill hk hkind) (Tree.heads_fill hk' hkind'),
    (List.append_nil _).symm, rfl⟩

/-! ### Names -/

/-- A name that is not taken is declared on both sides. -/
theorem declareName_mirrors (hl : run.Linked n L run') (hk : Names.Linked P known known')
    {name : String} (hij : P i j) (span span' : Span) (redefined redefined' : Span → Fault) :
    Check.Mirrors n L [] run run' (declareName known name i span redefined)
      (declareName known' name j span' redefined') fun M t t' names names' =>
        M = L ∧ t = run.tree ∧ t' = run'.tree ∧ Names.Linked P names names'
          ∧ (name ≠ n → known.lookup n = none → names.lookup n = none) := by
  unfold declareName
  have hfound := hk.lookup name
  generalize known.lookup name = found at hfound
  generalize known'.lookup name = found' at hfound
  cases hfound with
  | some => exact .tree (.refuse (Check.wrong_faultAt _ _ _))
  | none =>
    refine .pure hl ⟨rfl, rfl, rfl, hk.add name hij, fun hname hnone => ?_⟩
    exact (Names.lookup_push_of_ne known i hname).trans hnone

theorem declareParams_mirrors (ho : L.Outer) (hl : run.Linked n L run') (library : Catalog)
    (seen : List String) {params params' : List Param}
    (h : List.Forall₂ (Param.Kept n) params params') :
    Check.Mirrors n L [] run run' (declareParams library seen params)
      (declareParams library seen params') fun M _ _ ids ids' =>
        M.Outer ∧ List.Forall₂ M.vars ids ids' := by
  induction h generalizing L run run' seen with
  | nil => exact .pure hl ⟨ho, .nil⟩
  | @cons p p' rest rest' hp _ ih =>
    unfold declareParams
    rw [hp.name, hp.ty]
    refine .silentBind (.allocOuter ho hl _ _ _ _) fun M id id' r r' _ _ hr hmade => ?_
    obtain ⟨rfl, hk, hk', -⟩ := hmade
    have hdeclared : r.Linked n (M.addVar id id') r' :=
      hr.addVar hk hk' ⟨rfl, fun x hx => Option.mem_some_iff.mp hx ▸ hp.fresh⟩
    refine .guard (fun hc => hc) (Check.wrong_faultAt _ _ _) ?_
    refine .guard (fun hc => hc) (Check.wrong_faultAt _ _ _) ?_
    refine Check.Mirrors.widen ?_ (M.le_addVar id id')
    refine .silentBind (ih (L := M.addVar id id') ho hdeclared _) fun N is js r₁ r₁' hle _ hr₁ hrest => ?_
    exact .pure hr₁ ⟨hrest.1, .cons (hle.1 _ _ (.inr ⟨rfl, rfl⟩)) hrest.2⟩

/-! ### Functions and states -/

theorem declareFunctions_mirrors (ho : L.Outer) (hl : run.Linked n L run') (library : Catalog)
    {ds ds' : List FunctionDecl} (h : Piecewise (FunctionDecl.Replaced n) ds ds' fs)
    (hk : Names.Linked L.functions known known') :
    Check.Mirrors n L [] run run' (declareFunctions library known ds)
      (declareFunctions library known' ds') fun M _ _ x x' => M.Outer
        ∧ Names.Linked M.functions x.1 x'.1 ∧ List.Forall₂ M.functions x.2 x'.2
        ∧ x.2.length = ds.length := by
  induction h generalizing L run run' known known' with
  | nil => exact .pure hl ⟨ho, hk, .nil, rfl⟩
  | @cons d d' rest rest' _ _ hd _ ih =>
    unfold declareFunctions
    rw [hd.name, hd.returnType]
    refine .silentBind (declareParams_mirrors ho hl library [] hd.params)
      fun M params params' r r' hle _ hr hparams => ?_
    obtain ⟨ho, hparams⟩ := hparams
    refine .silentBind (.allocOuter ho hr _ _ _ _) fun N id id' r₁ r₁' _ _ hr₁ hmade => ?_
    obtain ⟨rfl, hkind, hkind', -⟩ := hmade
    have hdeclared : r₁.Linked n (N.addFunction id id') r₁' :=
      hr₁.addFunction (Tree.function?_eq_some.mpr hkind) (Tree.function?_eq_some.mpr hkind') rfl hparams
    refine .guard (fun hc => hc) (Check.wrong_faultAt _ _ _) ?_
    refine Check.Mirrors.widen ?_ (N.le_addFunction id id')
    have hle' := le_trans hle (N.le_addFunction id id')
    refine .silentBind (declareName_mirrors hdeclared (hk.mono hle'.2.1) (.inr ⟨rfl, rfl⟩) _ _ _ _)
      fun P names names' r₂ r₂' _ _ hr₂ hnames => ?_
    obtain ⟨rfl, -, -, hnames, -⟩ := hnames
    refine .silentBind (ih (L := N.addFunction id id') ho hr₂ hnames)
      fun Q x x' r₃ r₃' hle₃ _ hr₃ hx => ?_
    obtain ⟨ho, hnames, hids, hlength⟩ := hx
    exact .pure hr₃ ⟨ho, hnames, .cons (hle₃.2.1 _ _ (.inr ⟨rfl, rfl⟩)) hids,
      congrArg Nat.succ hlength⟩

theorem Piecewise.isEmpty {α φ : Type} {R : α → α → List φ → Prop} {as as' : List α} {fs : List φ}
    (h : Piecewise R as as' fs) : as'.isEmpty = as.isEmpty := by
  cases h <;> rfl

theorem declareState_mirrors (ho : L.Outer) (hl : run.Linked n L run') {d d' : StateDecl}
    (h : d.Replaced n d' fs) (isDefault : Bool) :
    Check.Mirrors n L [] run run' (declareState d isDefault) (declareState d' isDefault)
      fun M _ _ _ _ => M = L := by
  unfold declareState
  rw [h.handlers.isEmpty]
  refine .silentBind (.allocOuter ho hl _ _ _ _) fun M id id' r r' _ _ hr hmade => ?_
  exact .guard (fun hc => hc) (Check.wrong_faultAt _ _ _) (.pure hr hmade.1)

/-- The names of states are the same; what they stand for does not matter. -/
theorem declareDefaultState_mirrors (ho : L.Outer) (hl : run.Linked n L run') {s s' : Script}
    (h : Optionally (StateDecl.Replaced n) s.defaultState s'.defaultState fs) :
    Check.Mirrors n L [] run run' (declareDefaultState s) (declareDefaultState s')
      fun M _ _ x x' => M = L ∧ Names.Linked (fun _ _ => True) x.1 x'.1
        ∧ Option.Rel (fun _ _ => True) x.2 x'.2 ∧ x.2.isSome = s.defaultState.isSome := by
  unfold declareDefaultState
  generalize s.defaultState = d at h
  generalize s'.defaultState = d' at h
  cases h with
  | none => exact .refuse (Check.wrong_fault _ _)
  | some h =>
    refine .silentBind (declareState_mirrors ho hl h true) fun M id id' r r' _ _ hr hM => ?_
    exact .pure hr ⟨hM, .cons ⟨rfl, trivial⟩ .nil, .some trivial, rfl⟩

theorem declareStates_mirrors (ho : L.Outer) (hl : run.Linked n L run') {ds ds' : List StateDecl}
    (h : Piecewise (StateDecl.Replaced n) ds ds' fs)
    (hk : Names.Linked (fun _ _ => True) known known') :
    Check.Mirrors n L [] run run' (declareStates known ds) (declareStates known' ds')
      fun M _ _ x x' => M = L ∧ Names.Linked (fun _ _ => True) x.1 x'.1
        ∧ List.Forall₂ (fun _ _ => True) x.2 x'.2 ∧ x.2.length = ds.length := by
  induction h generalizing run run' known known' with
  | nil => exact .pure hl ⟨rfl, hk, .nil, rfl⟩
  | @cons d d' rest rest' _ _ hd _ ih =>
    unfold declareStates
    rw [hd.name]
    refine .silentBind (declareState_mirrors ho hl hd false) fun M id id' r r' _ _ hr hM => ?_
    obtain rfl : M = L := hM
    refine .guard (fun hc => hc) (Check.wrong_faultAt _ _ _) ?_
    refine .silentBind (declareName_mirrors hr hk trivial _ _ _ _)
      fun N names names' r₁ r₁' _ _ hr₁ hnames => ?_
    obtain ⟨rfl, -, -, hnames, -⟩ := hnames
    refine .silentBind (ih hr₁ hnames) fun Q x x' r₂ r₂' _ _ hr₂ hx => ?_
    obtain ⟨rfl, hnames, hids, hlength⟩ := hx
    exact .pure hr₂ ⟨rfl, hnames, .cons trivial hids, congrArg Nat.succ hlength⟩

/-! ### Globals -/

theorem resolveOption_follows (he : env.Linked n L env') (hl : run.Linked n L run')
    {e e' : Option Expr} (h : Optionally (Expr.Replaced n) e e' fs) :
    Check.Mirrors n L fs run run' (resolveOption env e) (resolveOption env' e')
      fun M t t' a a' => M = L ∧ Option.Rel (t.Agrees t') a a' := by
  cases h with
  | none => exact .pure hl ⟨rfl, .none⟩
  | some h =>
    refine .bindSilent (V := fun M t t' i j => M = L ∧ t.Agrees t' i j) (fun hclean => ?_)
      fun M i j r r' _ _ hr hv => .pure hr ⟨hv.1, .some hv.2⟩
    have hr := resolveExpr_resolves he _ h hl hclean
    exact ⟨L, le_refl L, hr.linked hl, hr.told, rfl, (List.forall₂_cons.mp hr.agree).1⟩

/-- **A global that is not called `n` is declared on both sides**, whatever is wrong with
its initial value. -/
theorem resolveGlobal_mirrors (ho : L.Outer) (he : env.Linked n L env') (hl : run.Linked n L run')
    {d d' : VarDecl} (h : d.Replaced n d' fs) :
    Check.Mirrors n L fs run run' (resolveGlobal env d) (resolveGlobal env' d')
      fun M _ _ x x' => M.Outer ∧ Names.Linked M.vars x.1 x'.1 ∧ x.1.lookup n = none := by
  unfold resolveGlobal
  rw [h.name, h.ty, he.library]
  refine .bindSilent (resolveOption_follows he hl h.init) fun M init init' r r' _ _ hr hinit => ?_
  obtain ⟨rfl, hinit⟩ := hinit
  refine .silentBind (.allocOuter ho hr _ _ _ _) fun N id id' r₁ r₁' _ _ hr₁ hmade => ?_
  obtain ⟨rfl, hk, hk', ht, ht'⟩ := hmade
  have hagree : Option.Rel (r₁.tree.Agrees r₁'.tree) init init' := by
    rw [ht, ht']
    cases hinit with
    | none => exact .none
    | some hv =>
      refine .some (hv.alloc _ _ (fun c hc => ?_) fun c hc => ?_)
      · exact List.mem_singleton.mp hc ▸ hv.has
      · exact List.mem_singleton.mp hc ▸ hv.has'
  have hdeclared : r₁.Linked n (N.addVar id id') r₁' :=
    hr₁.addVar hk hk' ⟨rfl, fun x hx => Option.mem_some_iff.mp hx ▸ h.fresh⟩
  refine .guard (fun hc => hc) (Check.wrong_faultAt _ _ _) ?_
  refine Check.Mirrors.widen ?_ (N.le_addVar id id')
  refine .silentBind (declareName_mirrors hdeclared (he.globals.mono (N.le_addVar id id').1)
    (.inr ⟨rfl, rfl⟩) _ _ _ _) fun Q names names' r₂ r₂' _ hclean hr₂ hnames => ?_
  obtain ⟨rfl, ht₂, ht₂', hnames, hfresh⟩ := hnames
  refine .silentBind (.optionForM hr₂ hagree fun i j hij => checkInitializer_mirrors hr₂ hclean
    (by rwa [ht₂, ht₂']) id id' d.name d.ty) fun R _ _ r₃ r₃' _ _ hr₃ hR => ?_
  obtain rfl : R = N.addVar id id' := hR
  exact .pure hr₃ ⟨ho, hnames, hfresh h.fresh he.fresh⟩

theorem resolveGlobals_mirrors (ho : L.Outer) (he : env.Linked n L env') (hl : run.Linked n L run')
    {ds ds' : List VarDecl} (h : Piecewise (VarDecl.Replaced n) ds ds' fs) :
    Check.Mirrors n L fs run run' (resolveGlobals env ds) (resolveGlobals env' ds')
      fun M _ _ x x' => M.Outer ∧ Names.Linked M.vars x.1 x'.1 ∧ x.1.lookup n = none := by
  induction h generalizing L run run' env env' with
  | nil => exact .pure hl ⟨ho, he.globals, he.fresh⟩
  | @cons d d' rest rest' _ _ hd _ ih =>
    unfold resolveGlobals
    refine .bind (resolveGlobal_mirrors ho he hl hd) fun M x x' r r' hle _ hr hx => ?_
    obtain ⟨ho, hglobals, hfresh⟩ := hx
    have henv : Env.Linked n M { env with globals := x.1 } { env' with globals := x'.1 } :=
      { he.mono hle with
        globals := hglobals
        fresh := hfresh }
    exact .bindSilent (ih ho henv hr) fun N y y' r₁ r₁' _ _ hr₁ hy => .pure hr₁ hy

/-! ### Bodies -/

/-- Labels that belong together, in the order in which they are written. -/
theorem declareLabels_mirrors (hl : run.Linked n L run') {sites sites' : List LabelSite}
    (h : List.Forall₂ (fun s s' => s'.place = s.place) sites sites')
    (hk : Names.Linked L.nodes known known') :
    Check.Mirrors n L [] run run' (declareLabels known sites) (declareLabels known' sites')
      fun M _ _ x x' => Names.Linked M.nodes x.1 x'.1 ∧ List.Forall₂ M.nodes x.2 x'.2 := by
  induction h generalizing L run run' known known' with
  | nil => exact .pure hl ⟨hk, .nil⟩
  | @cons s s' rest rest' hs _ ih =>
    unfold declareLabels
    simp only [LabelSite.place, Prod.mk.injEq] at hs
    obtain ⟨hname, hscope, hindex⟩ := hs
    rw [hname, hscope, hindex]
    refine .silentBind (.alloc hl _ _ .nil ⟨.some .nil, rfl, .none⟩)
      fun M id id' r r' hle _ hr hmade => ?_
    obtain ⟨rfl, rfl, rfl, -⟩ := hmade
    refine .silentBind (declareName_mirrors hr (hk.mono hle.2.2) (.inr ⟨rfl, rfl⟩) _ _ _ _)
      fun N names names' r₁ r₁' _ _ hr₁ hnames => ?_
    obtain ⟨rfl, -, -, hnames, -⟩ := hnames
    refine .silentBind (ih hr₁ hnames) fun Q x x' r₂ r₂' hle₂ _ hr₂ hx => ?_
    exact .pure hr₂ ⟨hx.1, .cons (hle₂.2.2 _ _ (.inr ⟨rfl, rfl⟩)) hx.2⟩

/-- Parameters are known by the same names, and none by `n`. -/
theorem bindParams_mirrors (hl : run.Linked n L run') (globals globals' : Lsl.Names)
    (h : List.Forall₂ L.vars ids ids') (hk : Names.Linked L.vars known known')
    (hfresh : known.lookup n = none) :
    Check.Mirrors n L [] run run' (bindParams globals known ids) (bindParams globals' known' ids')
      fun M _ _ names names' => M = L ∧ Names.Linked L.vars names names' ∧ names.lookup n = none := by
  induction h generalizing run run' known known' with
  | nil => exact .pure hl ⟨rfl, hk, hfresh⟩
  | @cons i j rest rest' hij _ ih =>
    unfold bindParams
    refine .tree ?_
    have hsame := hl.tree.var? hij
    have hother := fun v => hl.tree.var?_name hij (v := v)
    generalize run.tree.var? i = v at hsame hother
    generalize run'.tree.var? j = v' at hsame
    rcases v with _ | v <;> rcases v' with _ | v'
    · exact ih hl hk hfresh
    · cases hsame
    · cases hsame
    · have hname : v'.name = v.name := congrArg Prod.fst (Option.some.inj hsame)
      refine .warn hl fun r r' hr _ _ => ?_
      have hknown := hk.lookup v.name
      rw [hname]
      generalize known.lookup v.name = found at hknown
      generalize known'.lookup v.name = found' at hknown
      cases hknown with
      | some => exact ih hr hk hfresh
      | none =>
        simp only [Option.isSome_none, Bool.false_eq_true, ↓reduceIte]
        exact ih hr (hk.add v.name hij)
          ((Names.lookup_push_of_ne known i (hother v rfl)).trans hfresh)

/-- **A body is entered with the same names on both sides.** -/
theorem enterBody_mirrors (he : env.Linked n L env') (hl : run.Linked n L run') (name : String)
    (returnType : Ty) (isEvent : Bool) (hparams : List.Forall₂ L.vars ids ids') {b b' : Block}
    (h : b.Replaced n b' fs) :
    Check.Mirrors n L [] run run' (enterBody env name returnType isEvent ids b)
      (enterBody env' name returnType isEvent ids' b') fun M _ _ e e' => e.Linked n M e' := by
  unfold enterBody
  refine .silentBind (bindParams_mirrors hl env.globals env'.globals hparams .nil rfl)
    fun M names names' r r' _ _ hr hnames => ?_
  obtain ⟨rfl, hnames, hfresh⟩ := hnames
  have hsites : List.Forall₂ (fun s s' => LabelSite.place s' = LabelSite.place s) b.labelSites
      b'.labelSites := by
    have hplaces : List.Forall₂ Eq (b.labelSites.map (·.place)) (b'.labelSites.map (·.place)) :=
      List.forall₂_eq_eq_eq.symm ▸ h.labelSites.symm
    rw [List.forall₂_map_left_iff, List.forall₂_map_right_iff] at hplaces
    exact hplaces.imp fun _ _ heq => heq.symm
  refine .silentBind (declareLabels_mirrors hr hsites .nil) fun N x x' r₁ r₁' hle _ hr₁ hx => ?_
  obtain ⟨hlabels, horder⟩ := hx
  refine fun _ => ⟨N, le_refl N, ⟨hr₁.tree, .nil, rfl, horder, rfl⟩, (List.append_nil _).symm, ?_⟩
  exact { he.mono hle with body := .some ⟨rfl, rfl, rfl, hnames.mono hle.1, hfresh, hlabels⟩ }

theorem resolveBlock_mirrors (he : env.Linked n L env') (hl : run.Linked n L run')
    (kind : ScopeKind) {b b' : Block} (h : b.Replaced n b' fs) :
    CheckBody.Mirrors n L fs run run' (resolveBlock env kind b) (resolveBlock env' kind b')
      fun M _ _ => M.nodes :=
  inScope_mirrors he hl kind false _ _ fun _ _ _ _ hr htr =>
    resolveStmts_mirrors b.stmts he hr htr h

/-- What lies in a body need not belong together when the body is left. -/
theorem exitBody_mirrors (hl : run.Linked n M run') (hle : L ≤ M.outer) :
    Check.Mirrors n L [] run run' exitBody exitBody fun N _ _ _ _ => N = M.outer := fun _ =>
  ⟨M.outer, hle, ⟨hl.tree.outer, .nil, rfl, .nil, hl.lastScope⟩, (List.append_nil _).symm, rfl⟩

instance quiet_warnUnusedParams (params : List NodeId) : Check.Quiet (warnUnusedParams params) := by
  unfold warnUnusedParams
  infer_instance

set_option synthInstance.maxSize 1024 in
/-- **A function is wrong in the places of its mistakes only.** -/
theorem resolveFunction_mirrors (ho : L.Outer) (he : env.Linked n L env') (hl : run.Linked n L run')
    {d d' : FunctionDecl} (h : d.Replaced n d' fs) (hij : L.functions i j) :
    CheckBody.Mirrors n L fs run run' (resolveFunction env d i) (resolveFunction env' d' j)
      fun M _ _ _ _ => M.Outer := by
  unfold resolveFunction
  rw [h.name, h.returnType]
  refine .get ?_
  refine .silentBind (.expect (le_refl L) hl (V := fun M _ _ f f' =>
    M = L ∧ List.Forall₂ L.vars f.params f'.params) fun f f' hf hf' => ?_)
    fun M f f' r r' _ _ hr hparams => ?_
  · obtain ⟨g, g', hg, hg', -, hparams⟩ := hl.tree.functions i j hij
    obtain rfl := Option.some.inj (hg.symm.trans hf)
    obtain rfl := Option.some.inj (hg'.symm.trans hf')
    exact ⟨rfl, hparams⟩
  · obtain ⟨rfl, hparams⟩ := hparams
    refine .silentBindFrom (.lift (enterBody_mirrors he hr d.name d.returnType false hparams h.body))
      fun N inner inner' r₁ r₁' hle _ hr₁ hinner => ?_
    refine .bindSilentFrom ((resolveBlock_mirrors hinner hr₁ .functionBody h.body).widen hle)
      fun P body body' r₂ r₂' hle₂ _ hr₂ hbody => ?_
    refine .get ?_
    have hreturns : (r₂'.tree.scope? body').any (·.hasReturnPath)
        = (r₂.tree.scope? body).any (·.hasReturnPath) := by
      have hscope := hr₂.tree.scope? hbody
      generalize r₂.tree.scope? body = c at hscope
      generalize r₂'.tree.scope? body' = c' at hscope
      cases hscope with
      | none => rfl
      | some hc => exact hc.2.2
    simp only [hreturns]
    refine .guard (fun hc => hc) (Check.wrong_faultAt _ _ _) ?_
    refine .warn hle₂ hr₂ fun r₃ r₃' hr₃ _ _ => ?_
    refine .silentBind (.lift (exitBody_mirrors hr₃ (ho.le hle₂)))
      fun Q _ _ r₄ r₄' _ _ hr₄ hQ => ?_
    obtain rfl : Q = P.outer := hQ
    refine .get ?_
    refine .silentBind (.expect (le_refl _) hr₄ (V := fun M t t' f f' =>
      M = P.outer ∧ t.function? i = some f ∧ t'.function? j = some f') fun f f' hf hf' => ⟨rfl, hf, hf'⟩)
      fun R f f' r₅ r₅' _ _ hr₅ hfound => ?_
    obtain ⟨rfl, hf, hf'⟩ := hfound
    refine .lift (Check.Mirrors.mono (fill_mirrors P.outer_outer hr₅
      (Tree.function?_eq_some.mp hf) ?_ (Tree.function?_eq_some.mp hf') ?_) fun _ _ _ _ _ hM => ?_)
    · rfl
    · rfl
    · exact hM ▸ P.outer_outer

/-! ### Handlers and states -/

theorem handlerFault?_eq {d d' : HandlerDecl} (library : Catalog) (h : d.Replaced n d' fs) :
    handlerFault? library d' = handlerFault? library d := by
  have htypes : d'.params.map (·.ty) = d.params.map (·.ty) := by
    have hparams := h.params
    generalize d.params = params at hparams
    generalize d'.params = params' at hparams
    induction hparams with
    | nil => rfl
    | cons hp _ ih => rw [List.map_cons, List.map_cons, hp.ty, ih]
  unfold handlerFault?
  rw [h.name, htypes]

set_option synthInstance.maxSize 256 in
/-- **A handler is wrong in the places of its mistakes only.** -/
theorem resolveHandler_mirrors (ho : L.Outer) (he : env.Linked n L env') (hl : run.Linked n L run')
    {d d' : HandlerDecl} (h : d.Replaced n d' fs) :
    CheckBody.Mirrors n L fs run run' (resolveHandler env d) (resolveHandler env' d')
      fun M _ _ _ _ => M.Outer := by
  unfold resolveHandler
  rw [h.name, he.library, handlerFault?_eq env.library h]
  refine .silentBind (.lift (declareParams_mirrors ho hl env.library [] h.params))
    fun M params params' r r' hle _ hr hparams => ?_
  obtain ⟨ho, hparams⟩ := hparams
  refine .warn (le_refl M) hr fun r₁ r₁' hr₁ _ _ => ?_
  refine .silentBindFrom (.lift (enterBody_mirrors (he.mono hle) hr₁ d.name .void true hparams h.body))
    fun N inner inner' r₂ r₂' hle₂ _ hr₂ hinner => ?_
  refine .bindSilentFrom ((resolveBlock_mirrors hinner hr₂ .eventBody h.body).widen hle₂)
    fun P body body' r₃ r₃' hle₃ _ hr₃ hbody => ?_
  refine .silentBind (.lift (exitBody_mirrors hr₃ (ho.le hle₃))) fun Q _ _ r₄ r₄' _ _ hr₄ hQ => ?_
  obtain rfl : Q = P.outer := hQ
  refine .silentBind (.lift (.allocOuter P.outer_outer hr₄ _ _ _ _))
    fun R id id' r₅ r₅' _ _ hr₅ hmade => ?_
  obtain ⟨rfl, -⟩ := hmade
  cases hfault : handlerFault? env.library d with
  | none => exact .pure hr₅ P.outer_outer
  | some kind => exact .refuse (Check.wrong_faultAt _ _ _)

theorem resolveHandlers_mirrors (ho : L.Outer) (he : env.Linked n L env') (hl : run.Linked n L run')
    (state : String) (seen : List String) {ds ds' : List HandlerDecl}
    (h : Piecewise (HandlerDecl.Replaced n) ds ds' fs) :
    CheckBody.Mirrors n L fs run run' (resolveHandlers env state seen ds)
      (resolveHandlers env' state seen ds') fun M _ _ _ _ => M.Outer := by
  induction h generalizing L run run' seen with
  | nil => exact .pure hl ho
  | @cons d d' rest rest' _ _ hd _ ih =>
    unfold resolveHandlers
    rw [hd.name]
    refine .bind (resolveHandler_mirrors ho he hl hd) fun M id id' r r' hle _ hr ho => ?_
    refine .guard (fun hc => hc) (Check.wrong_faultAt _ _ _) ?_
    exact .bindSilent (ih ho (he.mono hle) hr _) fun N ids ids' r₁ r₁' _ _ hr₁ ho => .pure hr₁ ho

theorem fillState_ok {handlers : List NodeId} {a : Unit} (h : (do
    match (← get).tree.kind? i with
    | some (.state s) => Check.fill i (.state { s with handlers })
    | _ => throw (.unexpectedNode i "state") : CheckBody Unit) run = .ok (a, r)) :
    ∃ s, run.tree.kind? i = some (.state s)
      ∧ Check.fill i (.state { s with handlers }) run = (a, r) := by
  obtain ⟨r₀, r₁, hget, h⟩ := CheckBody.bind_ok h
  obtain ⟨rfl, rfl⟩ := CheckBody.pure_ok (b := r₀) hget
  rcases hk : run.tree.kind? i with _ | k
  · simp only [hk] at h
    cases h
  · cases k with
    | state s =>
      simp only [hk] at h
      exact ⟨s, rfl, Except.ok.inj h⟩
    | _ =>
      simp only [hk] at h
      cases h

/-- **A state is wrong in the places of its mistakes only.** -/
theorem resolveState_mirrors (ho : L.Outer) (he : env.Linked n L env') (hl : run.Linked n L run')
    {d d' : StateDecl} (h : d.Replaced n d' fs) :
    CheckBody.Mirrors n L fs run run' (resolveState env d i) (resolveState env' d' j)
      fun M _ _ _ _ => M.Outer := by
  unfold resolveState
  rw [h.name]
  refine .bindSilent (resolveHandlers_mirrors ho he hl d.name [] h.handlers)
    fun M handlers handlers' r r' _ _ hr ho => ?_
  intro a s a' s' hrun hrun' hclean
  obtain ⟨k, hk, hs⟩ := fillState_ok hrun
  obtain ⟨k', hk', hs'⟩ := fillState_ok hrun'
  have hmirrors : Check.Mirrors n M [] r r' (Check.fill i (.state { k with handlers }))
      (Check.fill j (.state { k' with handlers := handlers' })) _ :=
    fill_mirrors ho hr hk rfl hk' rfl
  rw [Check.Mirrors, hs, hs'] at hmirrors
  obtain ⟨N, hle, hlinked, htold, rfl⟩ := hmirrors hclean
  exact ⟨N, hle, hlinked, htold, ho⟩

end Lsl
