/- # Checking a script by acts

The declarations of a script are made one after the other, then the bodies are
resolved; between two bodies no scope is open and no label is left. In the end
the whole script is the only node without a parent. So what the acts preserve
holds of the tree of a checked script.

Key definitions: `Passes`, `Finished`.
Key theorems: `resolveFunction_passes`, `resolveHandler_passes`, `Script.check_acts`.
-/
import Lsl.Proofs.Check.Shape

namespace Lsl

variable {script : Script} {library : Catalog} {env : Env} {p : Progress} {run run' : Run}
  {ids ids' : List NodeId} {id : NodeId}

/-! ### Declarations -/

/-- Nodes that are noted nowhere else: declarations and labels. -/
def NodeKind.isDeclaring : NodeKind → Bool
  | .script _ | .global _ | .param _ | .function _ | .state _ | .handler _ => true
  | .stmt s => s.kind.isLabel
  | .scope _ | .expr _ | .error => false

/-- Making a declaration is an act that leaves the other nodes as they are. -/
theorem Act.declare (p : Progress) (kind : NodeKind) (rest : List NodeId) (span : Span)
    (hd : kind.isDeclaring = true) (hl : p.loose = kind.children ++ rest)
    (hnew : kind.outline = kind) (hf : p.run.tree.Formed script library kind) :
    Act script library p { p with
      run := { p.run with tree := (p.run.tree.alloc kind span).1 }
      loose := p.run.tree.size :: rest } := by
  have hu : ∀ t : Tree, ∀ id, t.noteUse id kind = t := by
    intro t id
    rcases kind with _ | _ | _ | _ | _ | _ | _ | ⟨stmt, _⟩ | _ | _
    case stmt => cases stmt <;> simp [NodeKind.isDeclaring, StmtKind.isLabel] at hd; rfl
    all_goals first | rfl | simp [NodeKind.isDeclaring] at hd
  have hj : p.MayLead kind := by
    intro name target constant info he
    rw [he] at hd
    simp [NodeKind.isDeclaring, StmtKind.isLabel] at hd
  have hmake : Act script library p _ := .makeSound p kind rest span hl hnew hf hj
    (fun he => by cases kind <;> simp [NodeKind.sort, NodeKind.isDeclaring] at he hd)
    (fun he => by cases kind <;> simp [NodeKind.sort, NodeKind.isDeclaring] at he hd)
  rwa [hu] at hmake

/-- A new declaration in the place of its parts. -/
theorem Pushes.declare (h : Pushes script library p run ids) (kind : NodeKind) (span : Span)
    (hd : kind.isDeclaring = true) (hc : ids.Perm kind.children) (hnew : kind.outline = kind)
    (hf : run.tree.Formed script library kind) :
    Pushes script library p { run with tree := (run.tree.alloc kind span).1 } [run.tree.size] :=
  ⟨(h.perm hc).acts.tail (.declare _ kind p.loose span hd rfl hnew hf), h.scopes, h.labels,
    h.lastScope⟩

theorem Pushes.faultAt (h : Pushes script library p run ids) (hid : id ∈ ids ++ p.loose)
    {kind : Fault} (hk : kind ≠ .missingDefaultState) (span : Span) :
    Pushes script library p (Check.faultAt id kind span run).2 ids :=
  h.fault hid [.fault kind span] (by simp) (by simpa using marks_fault span hk)

/-- New loose nodes of one sort, the last one first. -/
structure PushesSort (script : Script) (library : Catalog) (p : Progress) (run : Run)
    (sort : NodeSort) (ids : List NodeId) : Prop where
  pushes : Pushes script library p run ids
  sorts : ∀ id ∈ ids, run.tree.sort? id = some sort

theorem declareParams_pushes (params : List Param) (seen : List String) (p : Progress)
    (hq : ∀ q ∈ params, q ∈ script.params) :
    PushesSort script library p (declareParams library seen params p.run).2 .param
      (declareParams library seen params p.run).1.reverse := by
  induction params generalizing seen p with
  | nil => exact ⟨.refl p, by simp [declareParams, Check.pure_run]⟩
  | cons d rest ih =>
    let kind : NodeKind := .param { name := d.name, ty := d.ty, scope := .parameter }
    have hmake : Pushes script library p _ _ :=
      (Pushes.refl p).declare kind d.span rfl .nil rfl ⟨⟨d, hq d List.mem_cons_self, rfl⟩, rfl⟩
    let p₁ : Progress := { p with
      run := { p.run with tree := (p.run.tree.alloc kind d.span).1 }
      loose := [p.run.tree.size] ++ p.loose }
    obtain ⟨run₂, hfault, hrun⟩ : ∃ run₂, Pushes script library p₁ run₂ []
        ∧ declareParams library seen (d :: rest) p.run
          = (p.run.tree.size :: (declareParams library (d.name :: seen) rest run₂).1,
              (declareParams library (d.name :: seen) rest run₂).2) := by
      simp only [declareParams]
      by_cases hseen : seen.contains d.name = true
      · simp only [hseen, ↓reduceIte]
        exact ⟨_, (Pushes.refl p₁).faultAt List.mem_cons_self (by simp) _, rfl⟩
      · simp only [hseen, Bool.false_eq_true, ↓reduceIte]
        by_cases hc : library.hasConstant d.name = true
        · simp only [hc, ↓reduceIte]
          exact ⟨_, (Pushes.refl p₁).faultAt List.mem_cons_self (by simp) _, rfl⟩
        · simp only [hc, Bool.false_eq_true, ↓reduceIte]
          exact ⟨_, .refl p₁, rfl⟩
    have hrest := ih (d.name :: seen) { p with run := run₂, loose := [p.run.tree.size] ++ p.loose }
      fun q hmem => hq q (List.mem_cons_of_mem _ hmem)
    rw [hrun]
    simp only [List.reverse_cons]
    refine ⟨(hmake.trans hfault).trans hrest.pushes, fun id hid => ?_⟩
    rcases List.mem_append.mp hid with hid | hid
    · exact hrest.sorts id hid
    · rw [List.mem_singleton.mp hid]
      exact (hfault.grows.idem hrest.pushes.grows).sort?
        (Tree.sort?_of_kind? (Tree.kind?_alloc_self kind d.span))

/-- A name is taken up, or it is reported that it is taken. -/
theorem declareName_pushes (known : Names) (name : String) (hid : id ∈ p.loose) (span : Span)
    (redefined : Span → Fault) (hr : ∀ s, redefined s ≠ .missingDefaultState) :
    Pushes script library p (declareName known name id span redefined p.run).2 []
      ∧ ∀ x ∈ (declareName known name id span redefined p.run).1, x ∈ known ∨ x.2 = id := by
  unfold declareName
  cases known.lookup name with
  | some previous =>
    exact ⟨(Pushes.refl p).faultAt hid (hr _) span, fun x hx => .inl hx⟩
  | none =>
    refine ⟨.refl p, fun x hx => ?_⟩
    rcases List.mem_append.mp hx with hx | hx
    · exact .inl hx
    · exact .inr (by rw [List.mem_singleton.mp hx])

/-- A function that was declared, and may have its body by now. -/
def Tree.Declares (t : Tree) (d : FunctionDecl) (id : NodeId) : Prop :=
  ∃ f, t.function? id = some f ∧ f.returnType = d.returnType
    ∧ ∀ q ∈ f.params, t.sort? q = some .param

theorem Tree.Declares.grows {t t' : Tree} {P : Nat → Prop} {d : FunctionDecl}
    (h : t.Declares d id) (hg : t.Grows P t') : t'.Declares d id := by
  obtain ⟨f, hf, hret, hparams⟩ := h
  obtain ⟨f', hf', -, hret', hparams', -⟩ := hg.function? hf
  exact ⟨f', hf', hret'.trans hret, fun q hq => hg.sort? (hparams q (hparams' ▸ hq))⟩

/-- The names stand for nodes of one sort. -/
def Tree.Names (t : Tree) (sort : NodeSort) (names : Names) : Prop :=
  ∀ x ∈ names, t.sort? x.2 = some sort

theorem declareFunctions_pushes (ds : List FunctionDecl)
    (hq : ∀ d ∈ ds, ∀ q ∈ d.params, q ∈ script.params) (known : Names) (p : Progress)
    (hk : p.run.tree.Names .function known) :
    let r := declareFunctions library known ds p.run
    Pushes script library p r.2 r.1.2.reverse ∧ r.2.tree.Names .function r.1.1
      ∧ List.Forall₂ r.2.tree.Declares ds r.1.2 := by
  induction ds generalizing known p with
  | nil => exact ⟨.refl p, hk, .nil⟩
  | cons d rest ih =>
    have hparams : PushesSort script library p _ _ _ :=
      declareParams_pushes d.params [] p (hq d List.mem_cons_self)
    obtain ⟨⟨params, run₁⟩, hr⟩ : ∃ r, declareParams library [] d.params p.run = r := ⟨_, rfl⟩
    rw [hr] at hparams
    let kind : NodeKind := .function { name := d.name, returnType := d.returnType, params }
    have hmake := hparams.pushes.declare kind d.span rfl
      (by simp [kind, NodeKind.children]) rfl
      ⟨fun q hq => hparams.sorts q (List.mem_reverse.mpr hq), by simp⟩
    let p₁ : Progress := { p with
      run := { run₁ with tree := (run₁.tree.alloc kind d.span).1 }
      loose := [run₁.tree.size] ++ p.loose }
    have hkind := Tree.kind?_alloc_self (t := run₁.tree) kind d.span
    obtain ⟨known₂, run₂, hname, hk₂, hrun⟩ : ∃ known₂ run₂, Pushes script library p₁ run₂ []
        ∧ (∀ x ∈ known₂, x ∈ known ∨ x.2 = run₁.tree.size)
        ∧ declareFunctions library known (d :: rest) p.run
          = (((declareFunctions library known₂ rest run₂).1.1,
              run₁.tree.size :: (declareFunctions library known₂ rest run₂).1.2),
              (declareFunctions library known₂ rest run₂).2) := by
      simp only [declareFunctions]
      rw [Check.bind_run, hr]
      by_cases hf : library.hasFunction d.name = true
      · simp only [hf, ↓reduceIte]
        exact ⟨known, _, (Pushes.refl p₁).faultAt List.mem_cons_self (by simp) d.span,
          fun x hx => .inl hx, rfl⟩
      · simp only [hf, Bool.false_eq_true, ↓reduceIte]
        have hp : Pushes script library p₁ _ _ ∧ _ :=
          declareName_pushes known d.name List.mem_cons_self d.span (.functionRedefined d.name)
            (by simp)
        exact ⟨_, _, hp.1, hp.2, rfl⟩
    have hself : run₂.tree.sort? run₁.tree.size = some .function :=
      hname.grows.sort? (Tree.sort?_of_kind? hkind)
    have hrest := ih (fun d hmem => hq d (List.mem_cons_of_mem _ hmem)) known₂
      { p with run := run₂, loose := [run₁.tree.size] ++ p.loose } fun x hx => by
      rcases hk₂ x hx with hx | hx
      · exact (hmake.trans hname).grows.sort? (hk x hx)
      · rw [hx]
        exact hself
    simp only [hrun, List.reverse_cons]
    refine ⟨(hmake.trans hname).trans hrest.1, hrest.2.1, .cons ?_ hrest.2.2⟩
    exact Tree.Declares.grows ⟨_, Tree.function?_eq_some.mpr hkind, rfl,
        fun q hq => (Tree.grows_alloc (P := fun _ => True) kind d.span).sort?
          (hparams.sorts q (List.mem_reverse.mpr hq))⟩
      (hname.grows.idem hrest.1.grows)

theorem declareState_pushes (d : StateDecl) (isDefault : Bool) (p : Progress) :
    PushesSort script library p (declareState d isDefault p.run).2 .state
      [(declareState d isDefault p.run).1] := by
  let kind : NodeKind := .state { name := d.name, isDefault }
  have hmake : Pushes script library p _ _ :=
    (Pushes.refl p).declare kind d.span rfl .nil rfl (by simp [kind, Tree.Formed])
  have hsort := Tree.sort?_of_kind? (Tree.kind?_alloc_self (t := p.run.tree) kind d.span)
  unfold declareState
  by_cases he : d.handlers.isEmpty = true
  · simp only [he, ↓reduceIte]
    exact ⟨hmake.faultAt List.mem_cons_self (by simp) d.span, fun id hid => by
      rw [List.mem_singleton.mp hid]
      exact (Tree.grows_markError (P := fun _ => True)).sort? hsort⟩
  · simp only [he, Bool.false_eq_true, ↓reduceIte]
    exact ⟨hmake, fun id hid => by
      rw [List.mem_singleton.mp hid]
      exact hsort⟩

theorem declareDefaultState_pushes (p : Progress) :
    let r := declareDefaultState script p.run
    PushesSort script library p r.2 .state r.1.2.toList
      ∧ (r.1.2 = none → .fault .missingDefaultState script.span ∈ r.2.notices) := by
  unfold declareDefaultState
  cases script.defaultState with
  | some d => exact ⟨declareState_pushes d true p, by simp [Check.bind_run, Check.pure_run]⟩
  | none => exact ⟨⟨(Pushes.refl p).say rfl, by simp [Check.bind_run, Check.pure_run]⟩,
      fun _ => List.mem_append_right _ List.mem_cons_self⟩

theorem declareStates_pushes (ds : List StateDecl) (known : Names) (p : Progress) :
    PushesSort script library p (declareStates known ds p.run).2 .state
      (declareStates known ds p.run).1.2.reverse := by
  induction ds generalizing known p with
  | nil => exact ⟨.refl p, by simp [declareStates, Check.pure_run]⟩
  | cons d rest ih =>
    have hstate : PushesSort script library p _ _ _ := declareState_pushes d false p
    obtain ⟨⟨id, run₁⟩, hr⟩ : ∃ r, declareState d false p.run = r := ⟨_, rfl⟩
    rw [hr] at hstate
    let p₁ : Progress := { p with run := run₁, loose := [id] ++ p.loose }
    obtain ⟨known₂, run₂, hname, hrun⟩ : ∃ known₂ run₂, Pushes script library p₁ run₂ []
        ∧ declareStates known (d :: rest) p.run
          = (((declareStates known₂ rest run₂).1.1, id :: (declareStates known₂ rest run₂).1.2),
              (declareStates known₂ rest run₂).2) := by
      simp only [declareStates]
      rw [Check.bind_run, hr]
      by_cases hd : d.name = defaultStateName
      · simp only [hd, ↓reduceIte]
        exact ⟨known, _, (Pushes.refl p₁).faultAt List.mem_cons_self (by simp) d.span, rfl⟩
      · simp only [hd, ↓reduceIte]
        have hp : Pushes script library p₁ _ _ ∧ _ :=
          declareName_pushes known d.name List.mem_cons_self d.span (.stateRedefined d.name)
            (by simp)
        exact ⟨_, _, hp.1, rfl⟩
    have hrest := ih known₂ { p with run := run₂, loose := [id] ++ p.loose }
    rw [hrun]
    simp only [List.reverse_cons]
    refine ⟨(hstate.pushes.trans hname).trans hrest.pushes, fun i hi => ?_⟩
    rcases List.mem_append.mp hi with hi | hi
    · exact hrest.sorts i hi
    · exact (hname.grows.idem hrest.pushes.grows).sort? (hstate.sorts i hi)

/-- An initializer is checked on the loose variable it belongs to. -/
theorem checkInitializers_pushes (hid : id ∈ p.loose) (name : String) (ty : Ty)
    (init : Option NodeId) :
    Pushes script library p (init.forM (checkInitializer id name ty) p.run).2 [] := by
  cases init with
  | none => exact .refl p
  | some init =>
    change Pushes script library p ((if !p.run.tree.untyped init
        && !assignable ty (p.run.tree.exprType init) then
      Check.faultAt id (.initializerMismatch name ty (p.run.tree.exprType init))
        (p.run.tree.span init) else pure () : Check Unit) p.run).2 []
    rw [Check.ite_run]
    split
    · exact (Pushes.refl p).faultAt hid (by simp) _
    · exact .refl p

theorem resolveGlobal_pushes {d : VarDecl} (hk : env.Known library p.run.tree p.run.scopes)
    (hd : d ∈ script.globals) :
    let r := resolveGlobal env d p.run
    PushesSort script library p r.2 .global [r.1.2]
      ∧ ∀ x ∈ r.1.1, x ∈ env.globals ∨ x.2 = r.1.2 := by
  have hinit : PushesTerms script library p _ _ := resolveOption_pushes hk d.init
  obtain ⟨⟨init, run₁⟩, hr⟩ : ∃ r, resolveOption env d.init p.run = r := ⟨_, rfl⟩
  rw [hr] at hinit
  let kind : NodeKind := .global { name := d.name, ty := d.ty, scope := .global, init }
  have hmake := hinit.pushes.declare kind d.span rfl (.refl _) rfl
    ⟨⟨d, hd, rfl⟩, fun c hc => hinit.terms c (Option.mem_toList.mpr hc)⟩
  let p₁ : Progress := { p with
    run := { run₁ with tree := (run₁.tree.alloc kind d.span).1 }
    loose := [run₁.tree.size] ++ p.loose }
  obtain ⟨known₂, run₂, hname, hk₂, hrun⟩ : ∃ known₂ run₂, Pushes script library p₁ run₂ []
      ∧ (∀ x ∈ known₂, x ∈ env.globals ∨ x.2 = run₁.tree.size)
      ∧ resolveGlobal env d p.run = ((known₂, run₁.tree.size),
          (init.forM (checkInitializer run₁.tree.size d.name d.ty) run₂).2) := by
    unfold resolveGlobal
    rw [Check.bind_run, hr]
    by_cases hf : env.library.hasConstant d.name = true
    · simp only [hf, ↓reduceIte]
      exact ⟨env.globals, _, (Pushes.refl p₁).faultAt List.mem_cons_self (by simp) d.span,
        fun x hx => .inl hx, rfl⟩
    · simp only [hf, Bool.false_eq_true, ↓reduceIte]
      have hp : Pushes script library p₁ _ _ ∧ _ :=
        declareName_pushes env.globals d.name List.mem_cons_self d.span
          (.variableRedefined d.name) (by simp)
      exact ⟨_, _, hp.1, hp.2, rfl⟩
  have hcheck : Pushes script library
      { p with run := run₂, loose := [run₁.tree.size] ++ p.loose } _ _ :=
    checkInitializers_pushes List.mem_cons_self d.name d.ty init
  simp only [hrun]
  refine ⟨⟨(hmake.trans hname).trans hcheck, fun id hid => ?_⟩, hk₂⟩
  rw [List.mem_singleton.mp hid]
  exact (hname.grows.idem hcheck.grows).sort?
    (Tree.sort?_of_kind? (Tree.kind?_alloc_self (t := run₁.tree) kind d.span))

theorem Env.Known.withGlobals {t : Tree} {scopes : ScopeStack} (h : env.Known library t scopes)
    {globals : Names} (hg : t.Names .global globals) :
    Env.Known library { env with globals } t scopes :=
  ⟨h.library, h.functions, hg, h.params, h.labels, h.locals⟩

/-- The first global is resolved, and the others after it. -/
theorem resolveGlobals_run {d : VarDecl} (rest : List VarDecl) {run run₁ : Run} {globals : Names}
    {id : NodeId} (h : resolveGlobal env d run = ((globals, id), run₁)) :
    resolveGlobals env (d :: rest) run
      = (((resolveGlobals { env with globals } rest run₁).1.1,
          id :: (resolveGlobals { env with globals } rest run₁).1.2),
          (resolveGlobals { env with globals } rest run₁).2) := by
  simp only [resolveGlobals]
  rw [Check.bind_run, h]
  rfl

theorem resolveGlobals_pushes (ds : List VarDecl) (hd : ∀ d ∈ ds, d ∈ script.globals)
    (env : Env) (p : Progress) (hk : env.Known library p.run.tree p.run.scopes) :
    let r := resolveGlobals env ds p.run
    PushesSort script library p r.2 .global r.1.2.reverse ∧ r.2.tree.Names .global r.1.1 := by
  induction ds generalizing env p with
  | nil => exact ⟨⟨.refl p, by simp [resolveGlobals, Check.pure_run]⟩, hk.globals⟩
  | cons d rest ih =>
    have hone : PushesSort script library p _ _ _ ∧ _ :=
      resolveGlobal_pushes hk (hd d List.mem_cons_self)
    obtain ⟨⟨⟨globals, id⟩, run₁⟩, hr⟩ : ∃ r, resolveGlobal env d p.run = r := ⟨_, rfl⟩
    rw [hr] at hone
    obtain ⟨hone, hnames⟩ := hone
    have hglobals : run₁.tree.Names .global globals := fun x hx => by
      rcases hnames x hx with hx | hx
      · exact hone.pushes.grows.sort? (hk.globals x hx)
      · exact hone.sorts x.2 (List.mem_singleton.mpr hx)
    have hrest := ih (fun d hmem => hd d (List.mem_cons_of_mem _ hmem)) { env with globals }
      { p with run := run₁, loose := [id] ++ p.loose }
      ((hone.pushes.known hk).withGlobals hglobals)
    simp only [resolveGlobals_run rest hr, List.reverse_cons]
    refine ⟨⟨hone.pushes.trans hrest.1.pushes, fun i hi => ?_⟩, hrest.2⟩
    rcases List.mem_append.mp hi with hi | hi
    · exact hrest.1.sorts i hi
    · exact hrest.1.pushes.grows.sort? (hone.sorts i hi)

/-! ### Bodies -/

/-- The first label gets a node and is named, and the others follow. -/
theorem declareLabels_run {site : LabelSite} (rest : List LabelSite) {known known₂ : Names}
    {run run₂ : Run}
    (h : declareName known site.name run.tree.size site.span (.labelRedefined site.name)
        { run with tree := (run.tree.alloc (.stmt
          { kind := .label site.name []
            info := { index := site.index, scopeId := site.scopeId } }) site.span).1 }
      = (known₂, run₂)) :
    declareLabels known (site :: rest) run
      = (((declareLabels known₂ rest run₂).1.1,
          run.tree.size :: (declareLabels known₂ rest run₂).1.2),
          (declareLabels known₂ rest run₂).2) := by
  simp only [declareLabels]
  rw [Check.bind_run]
  -- Making the node computes, so that naming it starts from the run `h` is about.
  change (declareName known site.name run.tree.size site.span
    (.labelRedefined site.name) >>= _) { run with tree := (run.tree.alloc _ site.span).1 } = _
  rw [Check.bind_run, h]
  rfl

theorem declareLabels_pushes (sites : List LabelSite) (known : Names) (p : Progress) :
    let r := declareLabels known sites p.run
    Pushes script library p r.2 r.1.2.reverse ∧ List.Forall₂ r.2.tree.LabelAt r.1.2 sites
      ∧ ∀ x ∈ r.1.1, x ∈ known ∨ x.2 ∈ r.1.2 := by
  induction sites generalizing known p with
  | nil => exact ⟨.refl p, .nil, fun x hx => .inl hx⟩
  | cons site rest ih =>
    let kind : NodeKind := .stmt
      { kind := .label site.name [], info := { index := site.index, scopeId := site.scopeId } }
    have hmake : Pushes script library p _ _ :=
      (Pushes.refl p).declare kind site.span rfl .nil rfl trivial
    let p₁ : Progress := { p with
      run := { p.run with tree := (p.run.tree.alloc kind site.span).1 }
      loose := [p.run.tree.size] ++ p.loose }
    have hname : Pushes script library p₁ _ _ ∧ _ :=
      declareName_pushes known site.name List.mem_cons_self site.span (.labelRedefined site.name)
        (by simp)
    obtain ⟨⟨known₂, run₂⟩, hr⟩ : ∃ r, declareName known site.name p.run.tree.size site.span
        (.labelRedefined site.name) p₁.run = r := ⟨_, rfl⟩
    rw [hr] at hname
    have hrest := ih known₂ { p with run := run₂, loose := [p.run.tree.size] ++ p.loose }
    have hself : (p.run.tree.alloc kind site.span).1.LabelAt p.run.tree.size site :=
      ⟨_, stmt?_alloc _ site.span, rfl, rfl, rfl⟩
    simp only [declareLabels_run rest hr, List.reverse_cons]
    refine ⟨(hmake.trans hname.1).trans hrest.1,
      .cons (hself.grows (hname.1.grows.idem hrest.1.grows)) hrest.2.1, fun x hx => ?_⟩
    rcases hrest.2.2 x hx with hx | hx
    · rcases hname.2 x hx with hx | hx
      · exact .inl hx
      · exact .inr (by rw [hx]; exact List.mem_cons_self)
    · exact .inr (List.mem_cons_of_mem _ hx)

theorem bindParams_pushes (globals : Names) (params : List NodeId) (known : Names) (p : Progress) :
    Pushes script library p (bindParams globals known params p.run).2 []
      ∧ ∀ x ∈ (bindParams globals known params p.run).1, x ∈ known ∨ x.2 ∈ params := by
  induction params generalizing known p with
  | nil => exact ⟨.refl p, fun x hx => .inl hx⟩
  | cons id rest ih =>
    simp only [bindParams]
    rw [Check.bind_run, Check.tree_run]
    cases hv : p.run.tree.var? id with
    | none =>
      have hrest := ih known p
      exact ⟨hrest.1, fun x hx => (hrest.2 x hx).imp_right (List.mem_cons_of_mem _)⟩
    | some v =>
      let known₁ := if (known.lookup v.name).isSome then known else known ++ [(v.name, id)]
      have hknown₁ : ∀ x ∈ known₁, x ∈ known ∨ x.2 ∈ id :: rest := by
        intro x hx
        simp only [known₁] at hx
        split at hx
        · exact .inl hx
        · rcases List.mem_append.mp hx with hx | hx
          · exact .inl hx
          · rw [List.mem_singleton.mp hx]
            exact .inr List.mem_cons_self
      obtain ⟨run₁, hsay, hrun⟩ : ∃ run₁, Pushes script library p run₁ []
          ∧ ((if (globals.lookup v.name).isSome = true then
              Check.warn (.parameterHidesGlobal v.name) (p.run.tree.span id) >>= fun _ =>
                bindParams globals known₁ rest
            else bindParams globals known₁ rest) : Check Names) p.run
            = bindParams globals known₁ rest run₁ := by
        by_cases hg : (globals.lookup v.name).isSome = true
        · exact ⟨_, (Pushes.refl p).say rfl, by rw [if_pos hg]; rfl⟩
        · exact ⟨_, .refl p, by rw [if_neg hg]⟩
      have hrest := ih known₁ { p with run := run₁, loose := [] ++ p.loose }
      rw [← hrun] at hrest
      refine ⟨hsay.trans hrest.1, fun x hx => ?_⟩
      rcases hrest.2 x hx with hx | hx
      · exact hknown₁ x hx
      · exact .inr (List.mem_cons_of_mem _ hx)

/-- No scope is open and no label is left, as before and after each body. -/
structure Progress.Idle (p : Progress) : Prop where
  stack : p.stack = []
  labels : p.run.labels = []

/-- Where one is between two bodies. -/
def Progress.between (p : Progress) (run : Run) (ids filled labels : List NodeId) : Progress :=
  { run, loose := ids ++ p.loose, stack := [], labels, filled := filled ++ p.filled }

/-- The run comes about by acts that start and end between bodies and fill some
functions and states. -/
structure Passes (script : Script) (library : Catalog) (p : Progress) (run : Run)
    (ids filled : List NodeId) : Prop where
  acts : ∃ labels, Acts script library p (p.between run ids filled labels)
  labels : run.labels = []

theorem Pushes.passes (h : Pushes script library p run ids) (hp : p.Idle) :
    Passes script library p run ids [] where
  acts := ⟨p.labels, by
    have hacts := h.acts
    rwa [show ({ p with run, loose := ids ++ p.loose } : Progress) = p.between run ids [] p.labels by
      rw [Progress.between, ← hp.stack]
      rfl] at hacts⟩
  labels := h.labels.trans hp.labels

theorem Passes.idle {filled : List NodeId} (h : Passes script library p run ids filled)
    (labels : List NodeId) : (p.between run ids filled labels).Idle := ⟨rfl, h.labels⟩

theorem Passes.grows {filled : List NodeId} (h : Passes script library p run ids filled) :
    p.run.tree.Grows (fun _ => True) run.tree := by
  obtain ⟨labels, hacts⟩ := h.acts
  exact hacts.grows

theorem Passes.notices {filled : List NodeId} (h : Passes script library p run ids filled) :
    p.run.notices ⊆ run.notices := by
  obtain ⟨labels, hacts⟩ := h.acts
  exact hacts.notices

/-- What is known of the names of a body before its statements are resolved. -/
theorem enterBody_acts (hp : p.Idle) (hk : env.Known library p.run.tree {})
    {params : List NodeId} (hparams : ∀ q ∈ params, p.run.tree.sort? q = some .param)
    (name : String) (returnType : Ty) (isEvent : Bool) (body : Block) :
    let r := enterBody env name returnType isEvent params body p.run
    ∃ labels, Acts script library p (p.between r.2 [] [] labels)
      ∧ r.1.Ready library (p.between r.2 [] [] labels) (labelsOfStmts 1 0 1 body.stmts) []
      ∧ r.2.lastScope = 0 := by
  have hbind : Pushes script library p _ _ ∧ _ := bindParams_pushes env.globals params [] p
  obtain ⟨⟨names, run₁⟩, hr₁⟩ : ∃ r, bindParams env.globals [] params p.run = r := ⟨_, rfl⟩
  rw [hr₁] at hbind
  have hlabels : Pushes script library { p with run := run₁, loose := [] ++ p.loose } _ _ ∧ _ :=
    declareLabels_pushes body.labelSites [] _
  obtain ⟨⟨⟨byName, labels⟩, run₂⟩, hr₂⟩ : ∃ r, declareLabels [] body.labelSites run₁ = r :=
    ⟨_, rfl⟩
  simp only [hr₂] at hlabels
  obtain ⟨hpush, hat, hnames⟩ := hlabels
  have hall := (hbind.1.trans hpush).perm (List.append_nil labels.reverse ▸ List.reverse_perm labels)
  have hg : p.run.tree.Grows (fun _ => True) run₂.tree := hall.grows
  have hlabel : ∀ l ∈ labels, ∃ s, run₂.tree.stmt? l = some s ∧ s.kind.isLabel = true := by
    intro l hl
    obtain ⟨i, hi, rfl⟩ := List.mem_iff_getElem.mp hl
    obtain ⟨s, hs, hk, -⟩ := List.forall₂_iff_get.mp hat |>.2 i hi (hat.length_eq ▸ hi)
    exact ⟨s, hs, hk⟩
  have hrun : enterBody env name returnType isEvent params body p.run
      = ({ env with body := some { name, returnType, isEvent, params := names, labels := byName } },
          { run₂ with scopes := {}, labels := labels, lastScope := 0 }) := by
    unfold enterBody
    rw [Check.bind_run, hr₁, Check.bind_run, hr₂]
    rfl
  simp only [hrun]
  have hact : Act script library { p with run := run₂, loose := labels ++ p.loose } _ :=
    .enterBody _ labels p.loose rfl hp.stack (hall.labels.trans hp.labels) hlabel
  have hacts := hall.acts.tail hact
  simp only [hp.stack] at hacts
  refine ⟨labels, hacts, ⟨⟨?_, ?_, rfl⟩, ⟨labels, (List.append_nil labels).symm, hat⟩, by simp⟩,
    trivial⟩
  · refine ⟨hk.library, fun x hx => hg.sort? (hk.functions x hx),
      fun x hx => hg.sort? (hk.globals x hx), fun b hb x hx => ?_, fun b hb x hx => ?_,
      fun f hf => by cases hf⟩
    · obtain rfl := Option.some.inj hb
      rcases hbind.2 x hx with hx | hx
      · simp at hx
      · exact hg.sort? (hparams _ hx)
    · obtain rfl := Option.some.inj hb
      rcases hnames x hx with hx | hx
      · simp at hx
      · exact hlabel _ hx
  · intro b hb x hx
    obtain rfl := Option.some.inj hb
    exact (hnames x hx).resolve_left (by simp)

/-- From entering a body to its scope, which is loose then. -/
theorem body_acts (hp : p.Idle) (hk : env.Known library p.run.tree {}) {params : List NodeId}
    (hparams : ∀ q ∈ params, p.run.tree.sort? q = some .param) (name : String) (returnType : Ty)
    (isEvent : Bool) {body : Block} (hd : ∀ d ∈ localsOfStmts body.stmts, d ∈ script.locals)
    (kind : ScopeKind) {inner : Env}
    (henter : enterBody env name returnType isEvent params body p.run = (inner, run))
    (hrun : resolveBlock inner kind body run = .ok (id, run')) :
    Passes script library p run' [id] [] ∧ ∃ c, run'.tree.scope? id = some c ∧ c.kind = kind := by
  obtain ⟨labels, hacts, hready, hlast⟩ : ∃ labels, Acts script library p _ ∧ _ :=
    enterBody_acts hp hk hparams name returnType isEvent body
  rw [henter] at hacts hready hlast
  have hyield : Yields script library inner _ run' [id] _ [] ∧ _ :=
    yieldsScope_braced (fillsStmts body.stmts hd) kind body.span _ run' 0 [] id hready hlast hrun
  exact ⟨⟨⟨labels, hacts.trans hyield.1.acts⟩, hyield.1.labels⟩, hyield.2⟩

/-- A warning about something that may not be there. -/
theorem warnUnused_pushes {α : Type} (h : Pushes script library p run ids) (found : Option α)
    (unused : α → Bool) (warning : α → Warning) (span : Span) :
    Pushes script library p ((found.forM fun a =>
      if unused a then Check.warn (warning a) span else pure () : Check Unit) run).2 ids := by
  cases found with
  | none => exact h
  | some a =>
    change Pushes script library p
      ((if unused a then Check.warn (warning a) span else pure () : Check Unit) run).2 ids
    rw [Check.ite_run]
    split
    · exact h.say rfl
    · exact h

theorem warnUnusedParams_pushes (params : List NodeId) (p : Progress) :
    Pushes script library p (warnUnusedParams params p.run).2 [] :=
  (Pushes.refl p).forM fun id _ run h =>
    warnUnused_pushes h (run.tree.var? id) (·.references.isEmpty) (.parameterNeverUsed ·.name) _

namespace Passes

variable {filled filled' : List NodeId}

theorem refl (hp : p.Idle) : Passes script library p p.run [] [] := (Pushes.refl p).passes hp

theorem trans (h : Passes script library p run ids filled)
    (g : ∀ labels, Passes script library (p.between run ids filled labels) run' ids' filled') :
    Passes script library p run' (ids' ++ ids) (filled' ++ filled) := by
  obtain ⟨labels, hacts⟩ := h.acts
  obtain ⟨labels', gacts⟩ := (g labels).acts
  refine ⟨⟨labels', ?_⟩, (g labels).labels⟩
  rw [Progress.between, List.append_assoc, List.append_assoc]
  exact hacts.trans gacts

/-- What is done between bodies. -/
theorem push (h : Passes script library p run ids filled)
    (g : ∀ labels, Pushes script library (p.between run ids filled labels) run' ids') :
    Passes script library p run' (ids' ++ ids) filled :=
  h.trans fun labels => (g labels).passes (h.idle labels)

/-- Leaving a body forgets its local names. -/
theorem exit (h : Passes script library p run ids filled) :
    Passes script library p { run with scopes := {}, labels := [] } ids filled := by
  obtain ⟨labels, hacts⟩ := h.acts
  refine ⟨⟨labels, ?_⟩, rfl⟩
  have hnames : Acts script library p (p.between { run with scopes := {} } ids filled labels) :=
    hacts.tail (.names _ {})
  rwa [show ({ run with scopes := {} } : Run) = { run with scopes := {}, labels := [] } by
    rw [← h.labels]] at hnames

/-- A new declaration in the place of its parts. -/
theorem declare (h : Passes script library p run ids filled) (kind : NodeKind) (span : Span)
    (hd : kind.isDeclaring = true) (hc : ids.Perm kind.children) (hnew : kind.outline = kind)
    (hf : run.tree.Formed script library kind) :
    Passes script library p { run with tree := (run.tree.alloc kind span).1 } [run.tree.size]
      filled := by
  obtain ⟨labels, hacts⟩ := h.acts
  exact ⟨⟨labels, (hacts.tail (.shuffle _ (kind.children ++ p.loose) (hc.append_right _))).tail
    (.declare _ kind p.loose span hd rfl hnew hf)⟩, h.labels⟩

end Passes

/-- Leaves the body of a function and puts it there. -/
def finishFunction (id body : NodeId) : CheckBody Unit := do
  exitBody
  let resolved ← CheckBody.expect ((← get).tree.function? id) id "function"
  Check.fill id (.function { resolved with body := some body })

theorem finishFunction_passes {d : FunctionDecl} {body : NodeId} {c : CodeScope}
    (h : Passes script library p run [body] []) (hid : id ∈ p.loose) (hopen : id ∉ p.filled)
    (hdecl : run.tree.Declares d id) (hc : run.tree.scope? body = some c)
    (hk : c.kind.isCallableBody = true)
    (hret : d.returnType.isVoid = true ∨ c.hasReturnPath = true ∨ ∃ n ∈ run.notices, n.marks = true)
    (hrun : finishFunction id body run = .ok ((), run')) :
    Passes script library p run' [] [id]
      ∧ ∃ f, run'.tree.function? id = some f ∧ f.body.isSome = true := by
  unfold finishFunction at hrun
  rw [CheckBody.lift_bind] at hrun
  obtain ⟨r₀, r₁, hget, hrun⟩ := CheckBody.bind_ok hrun
  obtain ⟨rfl, rfl⟩ := CheckBody.pure_ok (b := r₀) hget
  obtain ⟨f, r, hexpect, hrun⟩ := CheckBody.bind_ok hrun
  obtain ⟨hf, rfl⟩ := CheckBody.expect_ok hexpect
  obtain ⟨f₀, hf₀, hret₀, -⟩ := hdecl
  obtain rfl : f₀ = f := Option.some.inj (hf₀.symm.trans hf)
  cases hrun
  have hkind := Tree.function?_eq_some.mp hf
  obtain ⟨labels, hacts⟩ := h.exit.acts
  refine ⟨⟨⟨labels, hacts.tail (.fillFunction _ id f₀ body c p.loose rfl hid hopen hkind hc hk
    (hret₀ ▸ hret))⟩, rfl⟩, { f₀ with body := some body }, Tree.function?_eq_some.mpr ?_, rfl⟩
  exact (Tree.kind?_fill _ (Tree.has_of_kind? hkind)).trans (if_pos rfl)

/-- Resolving a function fills it with its body. -/
theorem resolveFunction_passes {d : FunctionDecl} (hp : p.Idle)
    (hk : env.Known library p.run.tree {}) (hdecl : p.run.tree.Declares d id) (hid : id ∈ p.loose)
    (hopen : id ∉ p.filled)
    (hd : ∀ v ∈ localsOfStmts d.body.stmts, v ∈ script.locals)
    (hrun : resolveFunction env d id p.run = .ok ((), run)) :
    Passes script library p run [] [id]
      ∧ ∃ f, run.tree.function? id = some f ∧ f.body.isSome = true := by
  unfold resolveFunction at hrun
  obtain ⟨r₀, r₁, hget, hrun⟩ := CheckBody.bind_ok hrun
  obtain ⟨rfl, rfl⟩ := CheckBody.pure_ok (b := r₀) hget
  obtain ⟨declared, r, hexpect, hrun⟩ := CheckBody.bind_ok hrun
  obtain ⟨hdeclared, rfl⟩ := CheckBody.expect_ok hexpect
  obtain ⟨f₀, hf₀, hret₀, hparams⟩ := hdecl
  obtain rfl : f₀ = declared := Option.some.inj (hf₀.symm.trans hdeclared)
  rw [CheckBody.lift_bind] at hrun
  obtain ⟨⟨inner, run₁⟩, henter⟩ : ∃ r, enterBody env d.name d.returnType false f₀.params d.body
    p.run = r := ⟨_, rfl⟩
  rw [henter] at hrun
  obtain ⟨body, run₂, hblock, hrun⟩ := CheckBody.bind_ok hrun
  obtain ⟨hbody, c, hc, hkind⟩ :=
    body_acts hp hk hparams d.name d.returnType false hd .functionBody henter
    hblock
  obtain ⟨r₀, r₁, hget, hrun⟩ := CheckBody.bind_ok hrun
  obtain ⟨rfl, rfl⟩ := CheckBody.pure_ok (b := r₀) hget
  simp only [hc, Option.any_some] at hrun
  have hdecl₂ : run₂.tree.Declares d id :=
    Tree.Declares.grows ⟨f₀, hf₀, hret₀, hparams⟩ hbody.grows
  -- a function that should return and does not is wrong
  obtain ⟨run₃, hfault, hret, hrun⟩ : ∃ run₃, (∀ labels, Pushes script library
        (p.between run₂ [body] [] labels) run₃ [])
      ∧ (d.returnType.isVoid = true ∨ c.hasReturnPath = true ∨ ∃ n ∈ run₃.notices, n.marks = true)
      ∧ ((if env.warnUnused = true then
          (liftM (warnUnusedParams f₀.params) : CheckBody Unit) >>= fun _ => finishFunction id body
        else finishFunction id body) : CheckBody Unit) run₃ = .ok ((), run) := by
    by_cases hr : (!d.returnType.isVoid && !c.hasReturnPath) = true
    · simp only [hr, ↓reduceIte] at hrun
      exact ⟨_, fun labels => (Pushes.refl _).faultAt (List.mem_append_right _
        (List.mem_append_right _ hid)) (by simp) d.span,
        .inr (.inr ⟨_, List.mem_append_right _ List.mem_cons_self, rfl⟩), hrun⟩
    · simp only [hr, Bool.false_eq_true, ↓reduceIte] at hrun
      refine ⟨run₂, fun labels => .refl _, ?_, hrun⟩
      cases hv : d.returnType.isVoid
      · exact .inr (.inl (by simpa [hv] using hr))
      · exact .inl rfl
  obtain ⟨run₄, hwarn, hrun⟩ : ∃ run₄, (∀ labels, Pushes script library
        (p.between run₃ [body] [] labels) run₄ [])
      ∧ finishFunction id body run₄ = .ok ((), run) := by
    by_cases hw : env.warnUnused = true
    · simp only [hw, ↓reduceIte] at hrun
      exact ⟨_, fun labels => warnUnusedParams_pushes f₀.params _, hrun⟩
    · simp only [hw, Bool.false_eq_true, ↓reduceIte] at hrun
      exact ⟨run₃, fun labels => .refl _, hrun⟩
  have hg := (hfault []).grows.idem (hwarn []).grows
  refine finishFunction_passes ((hbody.push hfault).push hwarn) hid hopen (hdecl₂.grows hg)
    (hg.scope? hc) (by rw [hkind]; rfl) ?_ hrun
  exact hret.imp_right (Or.imp_right fun ⟨n, hn, hm⟩ => ⟨n, (hwarn []).acts.notices hn, hm⟩)

/-- New loose nodes of one sort, made between bodies. -/
structure PassesSort (script : Script) (library : Catalog) (p : Progress) (run : Run)
    (sort : NodeSort) (ids : List NodeId) : Prop where
  passes : Passes script library p run ids []
  sorts : ∀ id ∈ ids, run.tree.sort? id = some sort

theorem handlerFault?_ne {d : HandlerDecl} {kind : Fault}
    (h : handlerFault? library d = some kind) : kind ≠ .missingDefaultState := by
  unfold handlerFault? at h
  grind

/-- Resolves a handler whose parameters are declared. -/
def finishHandler (env : Env) (d : HandlerDecl) (params : List NodeId) : CheckBody NodeId := do
  let inner ← enterBody env d.name .void true params d.body
  let body ← resolveBlock inner .eventBody d.body
  exitBody
  let id ← Check.alloc (.handler { name := d.name, params, body }) d.span
  (handlerFault? env.library d).forM fun kind => Check.faultAt id kind d.span
  return id

theorem finishHandler_passes {d : HandlerDecl} {params : List NodeId}
    (h : Passes script library p run params.reverse []) (hk : env.Known library run.tree {})
    (hparams : ∀ q ∈ params, run.tree.sort? q = some .param)
    (hd : ∀ v ∈ localsOfStmts d.body.stmts, v ∈ script.locals)
    (hrun : finishHandler env d params run = .ok (id, run')) :
    PassesSort script library p run' .handler [id] := by
  unfold finishHandler at hrun
  rw [CheckBody.lift_bind] at hrun
  obtain ⟨⟨inner, run₁⟩, henter⟩ : ∃ r, enterBody env d.name .void true params d.body run = r :=
    ⟨_, rfl⟩
  rw [henter] at hrun
  obtain ⟨body, run₂, hblock, hrun⟩ := CheckBody.bind_ok hrun
  have hbody : ∀ labels, Passes script library
      (p.between run params.reverse [] labels) run₂ [body] []
        ∧ ∃ c, run₂.tree.scope? body = some c ∧ c.kind = .eventBody :=
    fun labels => body_acts (h.idle labels) hk hparams d.name .void true hd .eventBody henter hblock
  obtain ⟨-, c, hc, hkind⟩ := hbody []
  rw [CheckBody.lift_bind] at hrun
  let run₃ : Run := { run₂ with scopes := {}, labels := [] }
  let kind : NodeKind := .handler { name := d.name, params, body }
  have hpass : Passes script library p run₃ (body :: params.reverse) [] :=
    h.trans fun labels => (hbody labels).1.exit
  have hg : run.tree.Grows (fun _ => True) run₂.tree := (hbody []).1.grows
  have hperm : (body :: params.reverse).Perm kind.children := by
    rw [show body :: params.reverse = kind.children.reverse by simp [kind, NodeKind.children]]
    exact List.reverse_perm _
  let run₄ : Run := { run₃ with tree := (run₃.tree.alloc kind d.span).1 }
  have hmade : Passes script library p run₄ [run₃.tree.size] [] :=
    hpass.declare kind d.span rfl hperm rfl
      ⟨fun q hq => hg.sort? (hparams q hq), c, hc, by rw [hkind]; rfl⟩
  have hsort : ∀ i ∈ [run₃.tree.size], run₄.tree.sort? i = some .handler := by
    intro i hi
    rw [List.mem_singleton.mp hi]
    exact Tree.sort?_of_kind? (Tree.kind?_alloc_self (t := run₃.tree) kind d.span)
  rcases hf : handlerFault? env.library d with _ | fault
  · rw [hf] at hrun
    have hend : (pure run₃.tree.size : CheckBody NodeId) run₄ = .ok (id, run') := hrun
    obtain ⟨rfl, rfl⟩ := CheckBody.pure_ok hend
    exact ⟨hmade, hsort⟩
  · rw [hf] at hrun
    have hend : (pure run₃.tree.size : CheckBody NodeId)
      (Check.faultAt run₃.tree.size fault d.span run₄).2 = .ok (id, run') := hrun
    obtain ⟨rfl, rfl⟩ := CheckBody.pure_ok hend
    have hfault : ∀ labels, Pushes script library
        (p.between run₄ [run₃.tree.size] [] labels)
        (Check.faultAt run₃.tree.size fault d.span run₄).2 [] := fun labels =>
      (Pushes.refl _).faultAt List.mem_cons_self (handlerFault?_ne hf) d.span
    exact ⟨hmade.push hfault, fun i hi => (hfault []).grows.sort? (hsort i hi)⟩

theorem resolveHandler_passes {d : HandlerDecl} (hp : p.Idle)
    (hk : env.Known library p.run.tree {})
    (hd : ∀ v ∈ localsOfStmts d.body.stmts, v ∈ script.locals)
    (hq : ∀ q ∈ d.params, q ∈ script.params)
    (hrun : resolveHandler env d p.run = .ok (id, run)) :
    PassesSort script library p run .handler [id] := by
  unfold resolveHandler at hrun
  rw [CheckBody.lift_bind] at hrun
  have hlib := hk.library
  subst hlib
  have hparams : PushesSort script env.library p _ _ _ := declareParams_pushes d.params [] p hq
  obtain ⟨⟨params, run₁⟩, hr₁⟩ : ∃ r, declareParams env.library [] d.params p.run = r := ⟨_, rfl⟩
  rw [hr₁] at hparams hrun
  obtain ⟨run₂, hwarn, hrun⟩ : ∃ run₂, Pushes script env.library
        { p with run := run₁, loose := params.reverse ++ p.loose } run₂ []
      ∧ finishHandler env d params run₂ = .ok (id, run) := by
    by_cases hw : (env.library.event? d.name).any (·.deprecated) = true
    · simp only [hw, ↓reduceIte] at hrun
      exact ⟨_, (Pushes.refl _).say rfl, hrun⟩
    · simp only [hw, Bool.false_eq_true, ↓reduceIte] at hrun
      exact ⟨run₁, .refl _, hrun⟩
  have hpush := hparams.pushes.trans hwarn
  exact finishHandler_passes (hpush.passes hp) (hk.grows hpush.grows)
    (fun q hq => hwarn.grows.sort? (hparams.sorts q (List.mem_reverse.mpr hq))) hd hrun

theorem PassesSort.snoc {sort : NodeSort} (h : PassesSort script library p run sort ids)
    (g : ∀ labels, PassesSort script library
      (p.between run ids [] labels) run' sort ids') :
    PassesSort script library p run' sort (ids' ++ ids) := by
  refine ⟨h.passes.trans fun labels => (g labels).passes, fun i hi => ?_⟩
  rcases List.mem_append.mp hi with hi | hi
  · exact (g []).sorts i hi
  · exact (g []).passes.grows.sort? (h.sorts i hi)

theorem resolveHandlers_passes (state : String) (ds : List HandlerDecl) (seen : List String)
    (p : Progress) (hp : p.Idle) (hk : env.Known library p.run.tree {})
    (hd : ∀ d ∈ ds, ∀ v ∈ localsOfStmts d.body.stmts, v ∈ script.locals)
    (hq : ∀ d ∈ ds, ∀ q ∈ d.params, q ∈ script.params) {run : Run}
    {ids : List NodeId} (hrun : resolveHandlers env state seen ds p.run = .ok (ids, run)) :
    PassesSort script library p run .handler ids.reverse := by
  induction ds generalizing seen p ids run with
  | nil =>
    obtain ⟨rfl, rfl⟩ := CheckBody.pure_ok hrun
    exact ⟨.refl hp, by simp⟩
  | cons d rest ih =>
    simp only [resolveHandlers] at hrun
    obtain ⟨id, run₁, hone, hrun⟩ := CheckBody.bind_ok hrun
    have hhandler : PassesSort script library p _ _ _ :=
      resolveHandler_passes hp hk (hd d List.mem_cons_self) (hq d List.mem_cons_self) hone
    obtain ⟨run₂, hfault, hrun⟩ : ∃ run₂, (∀ labels, Pushes script library
          (p.between run₁ [id] [] labels) run₂ [])
        ∧ (resolveHandlers env state (d.name :: seen) rest >>= fun more =>
          (pure (id :: more) : CheckBody (List NodeId))) run₂ = .ok (ids, run) := by
      by_cases hs : seen.contains d.name = true
      · simp only [hs, ↓reduceIte] at hrun
        exact ⟨_, fun labels => (Pushes.refl _).faultAt List.mem_cons_self (by simp) d.span, hrun⟩
      · simp only [hs, Bool.false_eq_true, ↓reduceIte] at hrun
        exact ⟨run₁, fun labels => .refl _, hrun⟩
    obtain ⟨more, run₃, hmore, hrun⟩ := CheckBody.bind_ok hrun
    obtain ⟨rfl, rfl⟩ := CheckBody.pure_ok hrun
    have hpass := hhandler.passes.push hfault
    have hsort : ∀ i ∈ [id], run₂.tree.sort? i = some .handler :=
      fun i hi => (hfault []).grows.sort? (hhandler.sorts i hi)
    rw [List.reverse_cons]
    exact PassesSort.snoc ⟨hpass, hsort⟩ fun labels => ih (d.name :: seen) _
      (hpass.idle labels) (hk.grows hpass.grows)
      (fun d hmem => hd d (List.mem_cons_of_mem _ hmem))
      (fun d hmem => hq d (List.mem_cons_of_mem _ hmem)) hmore

/-- Resolving a state fills it with its handlers. -/
theorem resolveState_passes {d : StateDecl} (hp : p.Idle) (hk : env.Known library p.run.tree {})
    (hid : id ∈ p.loose) (hopen : id ∉ p.filled) (hd : ∀ v ∈ d.locals, v ∈ script.locals)
    (hq : ∀ q ∈ d.params, q ∈ script.params)
    (hrun : resolveState env d id p.run = .ok ((), run)) : Passes script library p run [] [id] := by
  unfold resolveState at hrun
  obtain ⟨handlers, run₁, hhandlers, hrun⟩ := CheckBody.bind_ok hrun
  have h : PassesSort script library p _ _ _ :=
    resolveHandlers_passes d.name d.handlers [] p hp hk
      (fun h hmem v hv => hd v (List.mem_flatMap.mpr ⟨h, hmem, hv⟩))
      (fun h hmem q hmem' => hq q (List.mem_flatMap.mpr ⟨h, hmem, hmem'⟩)) hhandlers
  obtain ⟨r₀, r₁, hget, hrun⟩ := CheckBody.bind_ok hrun
  obtain ⟨rfl, rfl⟩ := CheckBody.pure_ok (b := r₀) hget
  rcases hs : run₁.tree.kind? id with _ | kind
  · rw [hs] at hrun
    cases hrun
  · rw [hs] at hrun
    cases kind with
    | state s =>
      obtain rfl : { run₁ with tree := (run₁.tree.fill id (.state { s with handlers })).1 } = run :=
        congrArg Prod.snd (Except.ok.inj hrun)
      obtain ⟨labels, hacts⟩ := h.passes.acts
      have hshuffle := hacts.tail
        (.shuffle _ (handlers ++ p.loose) ((List.reverse_perm handlers).append_right _))
      exact ⟨⟨labels, hshuffle.tail (.fillState _ id s handlers p.loose rfl hid hopen hs fun i hi =>
        h.sorts i (List.mem_reverse.mpr hi))⟩, h.passes.labels⟩
    | _ => cases hrun

/-! ### The whole script -/

theorem warnUnusedGlobals_pushes (globals functions : List NodeId) (p : Progress) :
    Pushes script library p (warnUnusedGlobals globals functions p.run).2 [] :=
  ((Pushes.refl p).forM fun id _ run h => warnUnused_pushes h (run.tree.var? id)
    (·.references.isEmpty) (.globalNeverUsed ·.name) _).forM fun id _ run h =>
      warnUnused_pushes h (run.tree.function? id) (·.references.isEmpty)
        (.functionNeverUsed ·.name) _

theorem CheckBody.forM_cons_ok {α : Type} {x : α} {xs : List α} {f : α → CheckBody Unit}
    (h : (x :: xs).forM f run = .ok ((), run')) :
    ∃ r, f x run = .ok ((), r) ∧ xs.forM f r = .ok ((), run') := by
  obtain ⟨⟨⟩, r, hx, hxs⟩ := CheckBody.bind_ok h
  exact ⟨r, hx, hxs⟩

theorem resolveFunctions_passes {ds : List FunctionDecl} {ids : List NodeId} {p : Progress}
    {run : Run} (hp : p.Idle) (hk : env.Known library p.run.tree {})
    (hdecl : List.Forall₂ p.run.tree.Declares ds ids) (hids : ∀ id ∈ ids, id ∈ p.loose)
    (hopen : ∀ id ∈ ids, id ∉ p.filled) (hdistinct : ids.Nodup)
    (hd : ∀ d ∈ ds, ∀ v ∈ localsOfStmts d.body.stmts, v ∈ script.locals)
    (hrun : ((ds.zip ids).forM fun (d, id) => resolveFunction env d id : CheckBody Unit) p.run
      = .ok ((), run)) :
    Passes script library p run [] ids.reverse
      ∧ ∀ id ∈ ids, ∃ f, run.tree.function? id = some f ∧ f.body.isSome = true := by
  induction ds generalizing ids p with
  | nil =>
    obtain rfl := List.forall₂_nil_left_iff.mp hdecl
    obtain ⟨-, rfl⟩ := CheckBody.pure_ok hrun
    exact ⟨.refl hp, by simp⟩
  | cons d ds ih =>
    obtain ⟨id, rest, hone, hrest, rfl⟩ := List.forall₂_cons_left_iff.mp hdecl
    obtain ⟨run₁, h₁, hrun⟩ := CheckBody.forM_cons_ok hrun
    obtain ⟨hpass, f, hf, hbody⟩ : Passes script library p _ _ _ ∧ _ :=
      resolveFunction_passes hp hk hone (hids id List.mem_cons_self) (hopen id List.mem_cons_self)
        (hd d List.mem_cons_self) h₁
    obtain ⟨hnew, hdistinct⟩ := List.nodup_cons.mp hdistinct
    have hnext : ∀ labels, Passes script library (p.between run₁ [] [id] labels) run [] rest.reverse
          ∧ ∀ id ∈ rest, ∃ f, run.tree.function? id = some f ∧ f.body.isSome = true :=
      fun labels => ih (hpass.idle labels) (hk.grows hpass.grows)
        (hrest.imp fun _ _ h => h.grows hpass.grows)
        (fun i hi => hids i (List.mem_cons_of_mem _ hi))
        (fun i hi hmem => (List.mem_cons.mp hmem).elim (fun he => hnew (he ▸ hi))
          (hopen i (List.mem_cons_of_mem _ hi))) hdistinct
        (fun d hmem => hd d (List.mem_cons_of_mem _ hmem)) hrun
    rw [List.reverse_cons]
    refine ⟨hpass.trans fun labels => (hnext labels).1, fun i hi => ?_⟩
    rcases List.mem_cons.mp hi with rfl | hi
    · obtain ⟨f', hf', -, -, -, hbody'⟩ := (hnext []).1.grows.function? hf
      exact ⟨f', hf', hbody' hbody⟩
    · exact (hnext []).2 i hi

theorem resolveStates_passes {pairs : List (StateDecl × NodeId)} {p : Progress} {run : Run}
    (hp : p.Idle) (hk : env.Known library p.run.tree {}) (hids : ∀ x ∈ pairs, x.2 ∈ p.loose)
    (hopen : ∀ x ∈ pairs, x.2 ∉ p.filled) (hdistinct : (pairs.map (·.2)).Nodup)
    (hd : ∀ x ∈ pairs, ∀ v ∈ x.1.locals, v ∈ script.locals)
    (hq : ∀ x ∈ pairs, ∀ q ∈ x.1.params, q ∈ script.params)
    (hrun : (pairs.forM fun (d, id) => resolveState env d id : CheckBody Unit) p.run = .ok ((), run)) :
    Passes script library p run [] (pairs.map (·.2)).reverse := by
  induction pairs generalizing p with
  | nil =>
    obtain ⟨-, rfl⟩ := CheckBody.pure_ok hrun
    exact .refl hp
  | cons x rest ih =>
    obtain ⟨run₁, h₁, hrun⟩ := CheckBody.forM_cons_ok hrun
    have hpass : Passes script library p _ _ _ :=
      resolveState_passes hp hk (hids x List.mem_cons_self) (hopen x List.mem_cons_self)
        (hd x List.mem_cons_self) (hq x List.mem_cons_self) h₁
    obtain ⟨hnew, hdistinct⟩ := List.nodup_cons.mp hdistinct
    rw [List.map_cons, List.reverse_cons]
    exact hpass.trans fun labels => ih (hpass.idle labels) (hk.grows hpass.grows)
      (fun y hy => hids y (List.mem_cons_of_mem _ hy))
      (fun y hy hmem => (List.mem_cons.mp hmem).elim
        (fun he => hnew (List.mem_map.mpr ⟨y, hy, he⟩)) (hopen y (List.mem_cons_of_mem _ hy)))
      hdistinct
      (fun y hy => hd y (List.mem_cons_of_mem _ hy))
      (fun y hy => hq y (List.mem_cons_of_mem _ hy)) hrun

/-- Where the checker ends: the script is all that is loose. -/
structure Finished (script : Script) (library : Catalog) (p : Progress) (root : NodeId)
    (n : ScriptNode) : Prop where
  acts : Acts script library {} p
  loose : p.loose = [root]
  stack : p.stack = []
  labels : p.run.labels = []
  kind : p.run.tree.kind? root = some (.script n)
  bodies : ∀ f ∈ n.functions, ∃ g, p.run.tree.function? f = some g ∧ g.body.isSome = true
  missing : n.defaultState = none → .fault .missingDefaultState script.span ∈ p.run.notices

theorem locals_of_function {d : FunctionDecl} (hd : d ∈ script.functions) {v : VarDecl}
    (hv : v ∈ localsOfStmts d.body.stmts) : v ∈ script.locals :=
  List.mem_append_left _ (List.mem_append_left _ (List.mem_flatMap.mpr ⟨d, hd, hv⟩))

theorem locals_of_defaultState {d : StateDecl} (hd : d ∈ script.defaultState.toList) {v : VarDecl}
    (hv : v ∈ d.locals) : v ∈ script.locals :=
  List.mem_append_left _ (List.mem_append_right _ (List.mem_flatMap.mpr ⟨d, hd, hv⟩))

theorem locals_of_state {d : StateDecl} (hd : d ∈ script.states) {v : VarDecl}
    (hv : v ∈ d.locals) : v ∈ script.locals :=
  List.mem_append_right _ (List.mem_flatMap.mpr ⟨d, hd, hv⟩)

theorem params_of_function {d : FunctionDecl} (hd : d ∈ script.functions) {q : Param}
    (hq : q ∈ d.params) : q ∈ script.params :=
  List.mem_append_left _ (List.mem_append_left _ (List.mem_flatMap.mpr ⟨d, hd, hq⟩))

theorem params_of_defaultState {d : StateDecl} (hd : d ∈ script.defaultState.toList) {q : Param}
    (hq : q ∈ d.params) : q ∈ script.params :=
  List.mem_append_left _ (List.mem_append_right _ (List.mem_flatMap.mpr ⟨d, hd, hq⟩))

theorem params_of_state {d : StateDecl} (hd : d ∈ script.states) {q : Param}
    (hq : q ∈ d.params) : q ∈ script.params :=
  List.mem_append_right _ (List.mem_flatMap.mpr ⟨d, hd, hq⟩)

/-- What the declarations of a script leave behind, before the bodies. -/
structure Opened (script : Script) (library : Catalog) (env : Env) (run : Run) (n : ScriptNode) :
    Prop where
  pushes : Pushes script library {} run
    (n.globals.reverse ++ n.states.reverse ++ n.defaultState.toList ++ n.functions.reverse)
  known : env.Known library run.tree {}
  functions : List.Forall₂ run.tree.Declares script.functions n.functions
  formed : run.tree.Formed script library (.script n)
  missing : n.defaultState = none → .fault .missingDefaultState script.span ∈ run.notices

/-- Resolves the bodies of a script, given its declarations. -/
def resolveBodies (env : Env) (script : Script) (n : ScriptNode) : CheckBody NodeId := do
  (script.functions.zip n.functions).forM fun (d, id) => resolveFunction env d id
  (script.defaultState.toList.zip n.defaultState.toList).forM fun (d, id) => resolveState env d id
  (script.states.zip n.states).forM fun (d, id) => resolveState env d id
  if env.warnUnused then warnUnusedGlobals n.globals n.functions
  Check.alloc (.script n) script.span

/-- Everything before the bodies: the declarations and the globals. -/
def openScript (library : Catalog) (warnUnused : Bool) (script : Script) :
    Check (Env × ScriptNode) := do
  let (functionNames, functions) ← declareFunctions library [] script.functions
  let (stateNames, defaultState) ← declareDefaultState script
  let (stateNames, states) ← declareStates stateNames script.states
  let env : Env := { library, warnUnused, functions := functionNames, states := stateNames }
  let (globalNames, globals) ← resolveGlobals env script.globals
  return ({ env with globals := globalNames }, { globals, functions, defaultState, states })

theorem resolveScript_run {warnUnused : Bool} {env : Env} {n : ScriptNode}
    (h : openScript library warnUnused script {} = ((env, n), run)) :
    resolveScript library warnUnused script {} = resolveBodies env script n run := by
  have hresolve : resolveScript library warnUnused script {}
      = resolveBodies (openScript library warnUnused script {}).1.1 script
        (openScript library warnUnused script {}).1.2 (openScript library warnUnused script {}).2 :=
    rfl
  rw [hresolve, h]

theorem openScript_opened {warnUnused : Bool} {n : ScriptNode}
    (h : openScript library warnUnused script {} = ((env, n), run)) :
    Opened script library env run n := by
  unfold openScript at h
  have hf : Pushes script library {} _ _ ∧ _ :=
    declareFunctions_pushes script.functions (fun _ hd _ hq => params_of_function hd hq) [] {}
      fun x hx => by simp at hx
  rw [Check.bind_run] at h
  obtain ⟨⟨⟨functionNames, functions⟩, run₁⟩, hr₁⟩ :
    ∃ r, declareFunctions library [] script.functions {} = r := ⟨_, rfl⟩
  simp only [hr₁] at hf h
  obtain ⟨hf, hfnames, hfdecl⟩ := hf
  let p₁ : Progress := { run := run₁, loose := functions.reverse ++ [] }
  have hd : PushesSort script library p₁ _ _ _ ∧ _ := declareDefaultState_pushes p₁
  rw [Check.bind_run] at h
  obtain ⟨⟨⟨stateNames, defaultState⟩, run₂⟩, hr₂⟩ : ∃ r, declareDefaultState script run₁ = r :=
    ⟨_, rfl⟩
  simp only [p₁, hr₂] at hd h
  obtain ⟨hd, hmissing⟩ := hd
  have h₂ := hf.trans hd.pushes
  let p₂ : Progress := { run := run₂, loose := defaultState.toList ++ functions.reverse ++ [] }
  have hs : PushesSort script library p₂ _ _ _ := declareStates_pushes script.states stateNames p₂
  rw [Check.bind_run] at h
  obtain ⟨⟨⟨stateNames', states⟩, run₃⟩, hr₃⟩ :
    ∃ r, declareStates stateNames script.states run₂ = r := ⟨_, rfl⟩
  simp only [p₂, hr₃] at hs h
  have h₃ := h₂.trans hs.pushes
  let p₃ : Progress := { run := run₃,
                         loose := states.reverse ++ (defaultState.toList ++ functions.reverse) ++ [] }
  let outer : Env := { library, warnUnused, functions := functionNames, states := stateNames' }
  have hg₃ := hd.pushes.grows.idem hs.pushes.grows
  have hk : outer.Known library run₃.tree run₃.scopes := by
    refine ⟨rfl, fun x hx => hg₃.sort? (hfnames x hx), by simp [outer], by simp [outer],
      by simp [outer], fun f hf => ?_⟩
    rw [show run₃.scopes = {} from h₃.scopes] at hf
    simp at hf
  have hg : PushesSort script library p₃ _ _ _ ∧ _ :=
    resolveGlobals_pushes script.globals (fun _ h => h) outer p₃ hk
  rw [Check.bind_run] at h
  obtain ⟨⟨⟨globalNames, globals⟩, run₄⟩, hr₄⟩ :
    ∃ r, resolveGlobals outer script.globals run₃ = r := ⟨_, rfl⟩
  simp only [p₃, hr₄] at hg
  simp only [outer] at hr₄
  simp only [hr₄] at h
  obtain ⟨hvalue, rfl⟩ := Prod.mk.inj h
  obtain ⟨rfl, rfl⟩ := Prod.mk.inj hvalue
  obtain ⟨hg, hgnames⟩ := hg
  have hg₄ := hg.pushes.grows
  have hall := h₃.trans hg.pushes
  refine ⟨?_, ⟨rfl, fun x hx => hg₄.sort? (hk.functions x hx), hgnames, by simp, by simp,
      by simp⟩, ?_, ⟨?_, ?_, ?_, ?_⟩, ?_⟩
  · simpa using hall
  · exact hfdecl.imp fun _ _ hx => hx.grows (hg₃.idem hg₄)
  · exact fun g hmem => hg.sorts g (List.mem_reverse.mpr hmem)
  · intro f hmem
    obtain ⟨i, hi, rfl⟩ := List.mem_iff_getElem.mp hmem
    obtain ⟨f, hf', -⟩ := List.forall₂_iff_get.mp hfdecl |>.2 i (hfdecl.length_eq ▸ hi) hi
    exact (hg₃.idem hg₄).sort? (Tree.sort?_of_kind? (Tree.function?_eq_some.mp hf'))
  · intro s hmem
    exact (hs.pushes.grows.idem hg₄).sort? (hd.sorts s (Option.mem_toList.mpr hmem))
  · exact fun s hmem => hg₄.sort? (hs.sorts s (List.mem_reverse.mpr hmem))
  · intro hnone
    exact hg.pushes.acts.notices (hs.pushes.acts.notices (hmissing hnone))

theorem resolveScript_opened {warnUnused : Bool} {root : NodeId}
    (h : resolveScript library warnUnused script {} = .ok (root, run')) :
    ∃ env run n, Opened script library env run n ∧ resolveBodies env script n run
      = .ok (root, run') := by
  obtain ⟨⟨⟨env, n⟩, run⟩, hopen⟩ : ∃ r, openScript library warnUnused script {} = r := ⟨_, rfl⟩
  exact ⟨env, run, n, openScript_opened hopen, resolveScript_run hopen ▸ h⟩

theorem zip_snd_nodup {α β : Type} {as : List α} {bs : List β} (h : bs.Nodup) :
    ((as.zip bs).map (·.2)).Nodup := by
  induction as generalizing bs with
  | nil => exact List.nodup_nil
  | cons a as ih =>
    cases bs with
    | nil => exact List.nodup_nil
    | cons b bs =>
      obtain ⟨hb, h⟩ := List.nodup_cons.mp h
      refine List.nodup_cons.mpr ⟨fun hmem => hb ?_, ih h⟩
      obtain ⟨x, hx, rfl⟩ := List.mem_map.mp hmem
      exact (List.of_mem_zip hx).2

/-- What the declarations leave loose are the children of the script. -/
theorem ScriptNode.declared_perm (n : ScriptNode) :
    (n.globals.reverse ++ n.states.reverse ++ n.defaultState.toList ++ n.functions.reverse).Perm
      (NodeKind.script n).children := by
  rw [List.perm_iff_count]
  intro x
  simp only [NodeKind.children, List.count_append, List.count_reverse]
  omega

/-- No node is declared twice. -/
theorem Opened.distinct {n : ScriptNode} (h : Opened script library env run n) :
    (NodeKind.script n).children.Nodup := by
  have hpass : Passes script library {} run _ [] := h.pushes.passes ⟨rfl, rfl⟩
  obtain ⟨labels, hacts⟩ := hpass.acts
  have hroots := (Acts.shaped hacts).distinct
  simp only [Progress.roots, Progress.between, List.append_nil, hpass.labels, List.flatMap_nil]
    at hroots
  exact n.declared_perm.nodup_iff.mp hroots

/-- The bodies of a script leave it as the only loose node. -/
theorem resolveBodies_finished {n : ScriptNode} {root : NodeId}
    (h : Opened script library env run n)
    (hrun : resolveBodies env script n run = .ok (root, run')) :
    ∃ labels filled, Finished script library { run := run', loose := [root], labels, filled } root n := by
  unfold resolveBodies at hrun
  let loose := n.globals.reverse ++ n.states.reverse ++ n.defaultState.toList ++ n.functions.reverse
  have h₀ : Passes script library {} run loose [] := h.pushes.passes ⟨rfl, rfl⟩
  have hperm : loose.Perm (NodeKind.script n).children := n.declared_perm
  have hloose : ∀ x, ((x ∈ n.globals ∨ x ∈ n.functions) ∨ x ∈ n.defaultState.toList) ∨ x ∈ n.states →
      x ∈ loose ++ [] := fun x hx => by
    rw [List.append_nil]
    exact hperm.mem_iff.mpr (by simpa only [NodeKind.children, List.mem_append] using hx)
  have hdistinct := h.distinct
  -- the functions, the default state and the other states are filled one after the other
  simp only [NodeKind.children, List.nodup_append, List.mem_append] at hdistinct
  obtain ⟨⟨⟨-, hfdistinct, -⟩, hddistinct, hfd⟩, hsdistinct, hfs⟩ := hdistinct
  obtain ⟨⟨⟩, run₁, hfunctions, hrun⟩ := CheckBody.bind_ok hrun
  have hf : ∀ labels, Passes script library (Progress.between {} run loose [] labels) run₁ []
        n.functions.reverse
      ∧ ∀ id ∈ n.functions, ∃ f, run₁.tree.function? id = some f ∧ f.body.isSome = true :=
    fun labels => resolveFunctions_passes (h₀.idle labels) h.known h.functions
      (fun i hi => hloose i (.inl (.inl (.inr hi)))) (fun i hi hmem => by cases hmem)
      hfdistinct (fun d hd v => locals_of_function hd) hfunctions
  have h₁ : Passes script library {} run₁ loose n.functions.reverse :=
    List.append_nil n.functions.reverse ▸ h₀.trans fun labels => (hf labels).1
  have hg₁ := (hf []).1.grows
  obtain ⟨⟨⟩, run₂, hdefault, hrun⟩ := CheckBody.bind_ok hrun
  let first := (script.defaultState.toList.zip n.defaultState.toList).map (·.2)
  have hd : ∀ labels, Passes script library
      (Progress.between {} run₁ loose n.functions.reverse labels) run₂ [] first.reverse :=
    fun labels => resolveStates_passes (h₁.idle labels) (h.known.grows hg₁)
      (fun x hx => hloose x.2 (.inl (.inr (List.of_mem_zip hx).2)))
      (fun x hx hmem => hfd x.2 (.inr (by simpa [Progress.between] using hmem)) x.2
        (List.of_mem_zip hx).2 rfl) (zip_snd_nodup hddistinct)
      (fun x hx v => locals_of_defaultState (List.of_mem_zip hx).1)
      (fun x hx q => params_of_defaultState (List.of_mem_zip hx).1) hdefault
  have h₂ : Passes script library {} run₂ loose (first.reverse ++ n.functions.reverse) := h₁.trans hd
  have hg₂ := (hd []).grows
  obtain ⟨⟨⟩, run₃, hstates, hrun⟩ := CheckBody.bind_ok hrun
  have hfirst : ∀ x ∈ first, x ∈ n.defaultState.toList := by
    intro x hx
    obtain ⟨y, hy, rfl⟩ := List.mem_map.mp hx
    exact (List.of_mem_zip hy).2
  let others := (script.states.zip n.states).map (·.2)
  have hs : ∀ labels, Passes script library
      (Progress.between {} run₂ loose (first.reverse ++ n.functions.reverse) labels) run₃ []
      others.reverse :=
    fun labels => resolveStates_passes (h₂.idle labels) ((h.known.grows hg₁).grows hg₂)
      (fun x hx => hloose x.2 (.inr (List.of_mem_zip hx).2))
      (fun x hx hmem => by
        have hmem : x.2 ∈ first ∨ x.2 ∈ n.functions := by
          simpa only [Progress.between, List.append_nil, List.mem_append, List.mem_reverse] using hmem
        exact hfs x.2 (hmem.elim (fun h => .inr (hfirst _ h)) fun h => .inl (.inr h)) x.2
          (List.of_mem_zip hx).2 rfl) (zip_snd_nodup hsdistinct)
      (fun x hx v => locals_of_state (List.of_mem_zip hx).1)
      (fun x hx q => params_of_state (List.of_mem_zip hx).1) hstates
  have h₃ : Passes script library {} run₃ loose
      (others.reverse ++ (first.reverse ++ n.functions.reverse)) := h₂.trans hs
  have hg₃ := (hs []).grows
  obtain ⟨run₄, hwarn, hrun⟩ : ∃ run₄, (∀ labels, Pushes script library (Progress.between {} run₃ loose
        (others.reverse ++ (first.reverse ++ n.functions.reverse)) labels) run₄ [])
      ∧ (liftM (Check.alloc (.script n) script.span) : CheckBody NodeId) run₄ = .ok (root, run') := by
    by_cases hw : env.warnUnused = true
    · simp only [hw, ↓reduceIte] at hrun
      exact ⟨_, fun labels => warnUnusedGlobals_pushes n.globals n.functions _, hrun⟩
    · simp only [hw, Bool.false_eq_true, ↓reduceIte] at hrun
      exact ⟨run₃, fun labels => .refl _, hrun⟩
  obtain ⟨rfl, rfl⟩ : run₄.tree.size = root
      ∧ { run₄ with tree := (run₄.tree.alloc (.script n) script.span).1 } = run' :=
    Prod.mk.inj (Except.ok.inj hrun)
  have hg₄ := (hwarn []).grows
  have hg : run.tree.Grows (fun _ => True) run₄.tree := ((hg₁.idem hg₂).idem hg₃).idem hg₄
  obtain ⟨hglobals, hfunctions', hdefault', hstates'⟩ := h.formed
  have hpass := (h₃.push hwarn).declare (.script n) script.span rfl hperm rfl
    ⟨fun x hx => hg.sort? (hglobals x hx), fun x hx => hg.sort? (hfunctions' x hx),
      fun x hx => hg.sort? (hdefault' x hx), fun x hx => hg.sort? (hstates' x hx)⟩
  obtain ⟨labels, hacts⟩ := hpass.acts
  refine ⟨labels, _, hacts, rfl, rfl, hpass.labels, Tree.kind?_alloc_self _ _, fun f hmem => ?_,
    fun hnone => ?_⟩
  · obtain ⟨g, hg', hbody⟩ := (hf []).2 f hmem
    obtain ⟨g', hg'', -, -, -, hbody'⟩ := (((hg₂.idem hg₃).idem hg₄).idem
      (Tree.grows_alloc (.script n) script.span)).function? hg'
    exact ⟨g', hg'', hbody' hbody⟩
  · exact (hwarn []).acts.notices ((hs []).notices ((hd []).notices ((hf []).1.notices
      (h.missing hnone))))

/-- **A checked script comes about by acts**, which leave no node but the script
without a parent. -/
theorem Script.check_acts {options : CheckOptions} {c : CheckedScript}
    (h : script.check library options = .ok c) :
    ∃ p n, Finished script library p c.root n ∧ p.run.tree = c.tree
      ∧ c.hasErrors = (p.run.notices.any (·.isFault) || c.tree.hasErrors c.root)
      ∧ c.notices.Perm p.run.notices := by
  unfold Script.check at h
  cases hr : (resolveScript library options.warnUnused script).run {} with
  | error e =>
    rw [hr] at h
    cases h
  | ok r =>
    rw [hr] at h
    cases h
    obtain ⟨env, run, n, hopen, hrun⟩ := resolveScript_opened hr
    obtain ⟨labels, filled, hfinished⟩ := resolveBodies_finished hopen hrun
    refine ⟨_, n, hfinished, rfl, rfl, ?_⟩
    change (if options.sortNotices = true then Notice.sort r.2.notices else r.2.notices).Perm _
    split
    · exact List.mergeSort_perm _ _
    · exact .refl _

end Lsl
