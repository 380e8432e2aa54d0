/- # Names of declarations

Functions, states, parameters and labels are declared in the order they are
written, so that their nodes are numbered as expected. Names stand for the
first declaration that is not refused. Globals are resolved one after the
other, and each knows those before it.

Key definitions: `Tree.HasVars`, `Tree.HasFunction`, `Tree.HasGlobals`, `Run.ReadsAll`.
Key theorems: `declareName_takes`, `declareFunctions_takes`, `resolveGlobals_reads`.
-/
import Lsl.Proofs.Check.ScriptActs
import Lsl.Proofs.Scoping.Bodies

namespace Lsl

variable {library : Catalog} {rules : Rules} {o : Surroundings} {env : Env} {t t' : Tree} {P : Nat → Prop}
  {run run' run'' : Run}

/-! ### Taking names up -/

/-- The first declaration of a name counts; a further one is refused. -/
theorem declareName_takes (known : Names) (name : String) (id : NodeId) (span : Span)
    (redefined : Span → Fault) (hr : ∀ s, (redefined s).isLookup = false) (run : Run) :
    let r := declareName known name id span redefined run
    run.Takes library o 0 [] r.2
      ∧ (∀ other, r.1.lookup other = (known.lookup other).or (List.lookup other [(name, id)]))
      ∧ ((known.lookup name).isSome = true → r.2.Wrong) := by
  unfold declareName
  cases hk : known.lookup name with
  | some previous =>
    refine ⟨(Run.Takes.refl run).fault id (hr _), fun other => ?_, fun _ => ?_⟩
    · change known.lookup other = _
      by_cases ho : other = name
      · rw [ho, hk, Option.some_or]
      · rw [lookup_singleton_of_ne ho, Option.or_none]
    · exact ⟨_, List.mem_append_right _ List.mem_cons_self, rfl⟩
  | none => exact ⟨.refl run, fun other => List.lookup_append, by simp⟩

/-- The nodes are variables with these names. -/
def Tree.HasVars (t : Tree) (vars : List (String × NodeId)) : Prop :=
  ∀ x ∈ vars, ∃ v, t.var? x.2 = some v ∧ v.name = x.1

theorem Tree.HasVars.grows {vars : List (String × NodeId)} (h : t.HasVars vars)
    (hg : t.Grows P t') : t'.HasVars vars := by
  intro x hx
  obtain ⟨v, hv, hname⟩ := h x hx
  obtain ⟨v', hv', ho⟩ := hg.var? hv
  exact ⟨v', hv', (Variable.names_of_outline ho).1.trans hname⟩

@[simp] theorem numberParams_nil (node : NodeId) : numberParams node [] = [] := rfl

theorem numberParams_cons (node : NodeId) (p : Param) (rest : List Param) :
    numberParams node (p :: rest) = (p.name, node) :: numberParams (node + 1) rest := rfl

/-- Parameters are made one after the other. -/
theorem declareParams_takes (params : List Param) (seen : List String) (run : Run) :
    let r := declareParams library seen params run
    run.Takes library o params.length [] r.2
      ∧ r.1 = (numberParams run.tree.size params).map (·.2)
      ∧ r.2.tree.HasVars (numberParams run.tree.size params) := by
  induction params generalizing seen run with
  | nil => exact ⟨.refl run, rfl, by simp [Tree.HasVars]⟩
  | cons d rest ih =>
    let kind : NodeKind := .param { name := d.name, ty := d.ty, scope := .parameter }
    let run₁ : Run := { run with tree := (run.tree.alloc kind d.span).1 }
    have hmade : run.Takes library o 1 [] run₁ :=
      .silent (Tree.grows_alloc kind d.span) (Tree.size_alloc kind d.span) rfl (by simp)
    obtain ⟨run₂, hfault, hrun⟩ : ∃ run₂, run₁.Takes library o 0 [] run₂
        ∧ declareParams library seen (d :: rest) run
          = (run.tree.size :: (declareParams library (d.name :: seen) rest run₂).1,
              (declareParams library (d.name :: seen) rest run₂).2) := by
      simp only [declareParams]
      by_cases hseen : seen.contains d.name = true
      · simp only [hseen, ↓reduceIte]
        exact ⟨_, (Run.Takes.refl run₁).fault run.tree.size rfl, rfl⟩
      · simp only [hseen, Bool.false_eq_true, ↓reduceIte]
        by_cases hc : library.hasConstant d.name = true
        · simp only [hc, ↓reduceIte]
          exact ⟨_, (Run.Takes.refl run₁).fault run.tree.size rfl, rfl⟩
        · simp only [hc, Bool.false_eq_true, ↓reduceIte]
          exact ⟨_, .refl run₁, rfl⟩
    obtain ⟨hrest, hids, hvars⟩ := ih (d.name :: seen) run₂
    have hsize : run₂.tree.size = run.tree.size + 1 := (hmade.trans hfault).size
    have hself : run₁.tree.HasVars [(d.name, run.tree.size)] := by
      intro x hx
      rw [List.mem_singleton.mp hx]
      exact ⟨_, by simp [run₁, Tree.var?, Tree.kind?_alloc_self, kind, NodeKind.var?]; rfl, rfl⟩
    simp only [hrun]
    refine ⟨?_, ?_, ?_⟩
    · have := (hmade.trans hfault).trans hrest
      rwa [show 1 + 0 + rest.length = (d :: rest).length by simp [Nat.add_comm]] at this
    · rw [hids, hsize, numberParams_cons, List.map_cons]
    · intro x hx
      rw [numberParams_cons] at hx
      rcases List.mem_cons.mp hx with rfl | hx
      · exact hself.grows (hfault.grows.trans hrest.grows) _ List.mem_cons_self
      · exact hvars x (hsize ▸ hx)

/-! ### Functions and states -/

/-- The node is the function, with the parameters before it and no body yet. -/
def Tree.HasFunction (t : Tree) (d : FunctionDecl) (id : NodeId) : Prop :=
  ∃ f, t.function? id = some f ∧ f.name = d.name ∧ f.returnType = d.returnType
    ∧ f.params = (numberParams (id - d.params.length) d.params).map (·.2)
    ∧ t.HasVars (numberParams (id - d.params.length) d.params)
    ∧ f.body = none ∧ t.Exact id

theorem Tree.Fills.function? {ids : List NodeId} {id : NodeId} {f : FunctionNode}
    (hg : t.Fills ids t') (hid : id ∉ ids) (hf : t.function? id = some f) :
    ∃ f', t'.function? id = some f' ∧ f'.name = f.name ∧ f'.returnType = f.returnType
      ∧ f'.params = f.params ∧ f'.body = f.body ∧ (t.Exact id → t'.Exact id) := by
  obtain ⟨f', hf', hname, hret, hparams, -⟩ := Grows.function? hg hf
  have hkind := Tree.function?_eq_some.mp hf
  have hkept : ¬ (id ∈ ids ∨ (t.sort? id ≠ some .function ∧ t.sort? id ≠ some .state)) := by
    simp [hid, Tree.sort?_of_kind? hkind, NodeKind.sort]
  have hsame := Grows.filling hg hkept hkind (Tree.function?_eq_some.mp hf')
  refine ⟨f', hf', hname, hret, hparams, ?_, fun ho => ho.grows hkind hg hkept⟩
  simpa [NodeKind.filling] using congrArg List.head? hsame

theorem Tree.HasFunction.fills {d : FunctionDecl} {id : NodeId} {ids : List NodeId}
    (h : t.HasFunction d id) (hg : t.Fills ids t') (hid : id ∉ ids) : t'.HasFunction d id := by
  obtain ⟨f, hf, hname, hret, hparams, hvars, hbody, hexact⟩ := h
  obtain ⟨f', hf', hname', hret', hparams', hbody', hexact'⟩ := hg.function? hid hf
  exact ⟨f', hf', hname'.trans hname, hret'.trans hret, hparams'.trans hparams, hvars.grows hg,
    hbody'.trans hbody, hexact' hexact⟩

theorem Tree.HasFunction.extends {d : FunctionDecl} {id : NodeId} (h : t.HasFunction d id)
    (hg : t.Extends t') : t'.HasFunction d id := h.fills hg.fills List.not_mem_nil

/-- Functions by name. -/
def namesOfFunctions (functions : List (FunctionDecl × NodeId)) : List (String × NodeId) :=
  functions.map fun x => (x.1.name, x.2)

theorem declareFunctions_takes (ds : List FunctionDecl) (known : Names) (run : Run)
    (hroot : run.tree.Rooted) :
    let r := declareFunctions library known ds run
    let numbered := numberFunctions run.tree.size ds
    run.Takes library o (nodesOfFunctions ds) [] r.2
      ∧ r.1.2 = numbered.map (·.2)
      ∧ (∀ name, r.1.1.lookup name = (known.lookup name).or
        (if library.hasFunction name then none else (namesOfFunctions numbered).lookup name))
      ∧ ∀ x ∈ numbered, r.2.tree.HasFunction x.1 x.2 := by
  induction ds generalizing known run with
  | nil =>
    refine ⟨.refl run, rfl, fun name => ?_, by simp [numberFunctions]⟩
    change known.lookup name = _
    simp [numberFunctions, namesOfFunctions]
  | cons d rest ih =>
    obtain ⟨hparams, hids, hvars⟩ : run.Takes library o _ _ _ ∧ _ ∧ _ :=
      declareParams_takes d.params [] run
    obtain ⟨⟨params, run₁⟩, hr⟩ : ∃ r, declareParams library [] d.params run = r := ⟨_, rfl⟩
    rw [hr] at hparams hids hvars
    simp only at hids
    let kind : NodeKind := .function { name := d.name, returnType := d.returnType, params }
    let run₂ : Run := { run₁ with tree := (run₁.tree.alloc kind d.span).1 }
    have hmade : run₁.Takes library o 1 [] run₂ :=
      .silent (Tree.grows_alloc kind d.span) (Tree.size_alloc kind d.span) rfl (by simp)
    obtain ⟨known₃, run₃, hname, hknown, hrun⟩ : ∃ known₃ run₃, run₂.Takes library o 0 [] run₃
        ∧ (∀ other, known₃.lookup other = (known.lookup other).or
          (if library.hasFunction d.name then none
            else List.lookup other [(d.name, run₁.tree.size)]))
        ∧ declareFunctions library known (d :: rest) run
          = (((declareFunctions library known₃ rest run₃).1.1,
              run₁.tree.size :: (declareFunctions library known₃ rest run₃).1.2),
              (declareFunctions library known₃ rest run₃).2) := by
      simp only [declareFunctions]
      rw [Check.bind_run, hr]
      by_cases hf : library.hasFunction d.name = true
      · simp only [hf, ↓reduceIte]
        exact ⟨known, _, (Run.Takes.refl run₂).fault run₁.tree.size rfl, by simp, rfl⟩
      · simp only [hf, Bool.false_eq_true, ↓reduceIte]
        obtain ⟨hn, hlook, -⟩ : run₂.Takes library o _ _ _ ∧ _ ∧ _ :=
          declareName_takes known d.name run₁.tree.size d.span
            (.functionRedefined d.name) (fun _ => rfl) run₂
        exact ⟨_, _, hn, hlook, rfl⟩
    have hbefore := (hparams.trans hmade).trans hname
    have hid : run₁.tree.size = run.tree.size + d.params.length := hparams.size
    have hsize : run₃.tree.size = run.tree.size + d.params.length + 1 := hbefore.size
    have hself : run₃.tree.HasFunction d run₁.tree.size := by
      refine Tree.HasFunction.extends ⟨_, Tree.function?_eq_some.mpr
        (Tree.kind?_alloc_self (t := run₁.tree) kind d.span), rfl, rfl, ?_, ?_, rfl,
        Tree.exact_alloc (hparams.grows.rooted hroot) kind d.span⟩ hname.grows
      · rw [hid, Nat.add_sub_cancel]
        exact hids
      · rw [hid, Nat.add_sub_cancel]
        exact hvars.grows hmade.grows
    obtain ⟨hrest, hids', hlook, hfuns⟩ : run₃.Takes library o _ _ _ ∧ _ ∧ _ ∧ _ :=
      ih known₃ run₃ (hbefore.grows.rooted hroot)
    have hnumbered : numberFunctions run.tree.size (d :: rest)
        = (d, run₁.tree.size) :: numberFunctions run₃.tree.size rest := by
      rw [numberFunctions, hid, hsize]
    simp only [hrun]
    refine ⟨?_, ?_, fun name => ?_, fun x hx => ?_⟩
    · have := hbefore.trans hrest
      rwa [Nat.add_zero] at this
    · rw [hnumbered, List.map_cons, hids']
    · rw [hlook, hknown, Option.or_assoc, hnumbered, ← accepted_single, ← accepted_append]
      rfl
    · rw [hnumbered] at hx
      rcases List.mem_cons.mp hx with rfl | hx
      · exact hself.extends hrest.grows
      · exact hfuns x hx

/-- The node is the state, without event handlers yet. -/
def Tree.HasState (t : Tree) (d : StateDecl) (id : NodeId) : Prop :=
  ∃ s, t.kind? id = some (.state s) ∧ s.name = d.name ∧ s.handlers = [] ∧ t.Exact id

theorem Tree.Fills.state? {ids : List NodeId} {id : NodeId} {s : StateNode}
    (hg : t.Fills ids t') (hid : id ∉ ids) (hs : t.kind? id = some (.state s)) :
    ∃ s', t'.kind? id = some (.state s') ∧ s'.name = s.name ∧ s'.handlers = s.handlers
      ∧ (t.Exact id → t'.Exact id) := by
  obtain ⟨k', hk', ho⟩ := Grows.kind? hg hs
  obtain ⟨s', rfl, hname⟩ : ∃ s', k' = .state s' ∧ s'.name = s.name := by
    cases k' <;> simp_all [NodeKind.outline]
  have hkept : ¬ (id ∈ ids ∨ (t.sort? id ≠ some .function ∧ t.sort? id ≠ some .state)) := by
    simp [hid, Tree.sort?_of_kind? hs, NodeKind.sort]
  exact ⟨s', hk', hname, Grows.filling hg hkept hs hk', fun ho => ho.grows hs hg hkept⟩

theorem Tree.HasState.fills {d : StateDecl} {id : NodeId} {ids : List NodeId}
    (h : t.HasState d id) (hg : t.Fills ids t') (hid : id ∉ ids) : t'.HasState d id := by
  obtain ⟨s, hs, hname, hnone, hexact⟩ := h
  obtain ⟨s', hs', hname', hhandlers, hexact'⟩ := hg.state? hid hs
  exact ⟨s', hs', hname'.trans hname, hhandlers.trans hnone, hexact' hexact⟩

theorem Tree.HasState.extends {d : StateDecl} {id : NodeId} (h : t.HasState d id)
    (hg : t.Extends t') : t'.HasState d id := h.fills hg.fills List.not_mem_nil

theorem declareState_takes (d : StateDecl) (isDefault : Bool) (run : Run)
    (hroot : run.tree.Rooted) :
    let r := declareState d isDefault run
    run.Takes library o 1 [] r.2 ∧ r.1 = run.tree.size ∧ r.2.tree.HasState d r.1 := by
  let kind : NodeKind := .state { name := d.name, isDefault }
  let run₁ : Run := { run with tree := (run.tree.alloc kind d.span).1 }
  have hmade : run.Takes library o 1 [] run₁ :=
    .silent (Tree.grows_alloc kind d.span) (Tree.size_alloc kind d.span) rfl (by simp)
  have hself : run₁.tree.HasState d run.tree.size :=
    ⟨_, Tree.kind?_alloc_self (t := run.tree) kind d.span, rfl, rfl,
      Tree.exact_alloc hroot kind d.span⟩
  unfold declareState
  by_cases he : d.handlers.isEmpty = true
  · simp only [he, ↓reduceIte]
    exact ⟨hmade.fault run.tree.size rfl, rfl,
      hself.extends Tree.grows_markError⟩
  · simp only [he, Bool.false_eq_true, ↓reduceIte]
    exact ⟨hmade, rfl, hself⟩

theorem declareDefaultState_takes (script : Script) (run : Run) (hroot : run.tree.Rooted) :
    let r := declareDefaultState script run
    run.Takes library o script.defaultState.toList.length [] r.2
      ∧ r.1.2.toList = List.range' run.tree.size script.defaultState.toList.length
      ∧ List.Forall₂ r.2.tree.HasState script.defaultState.toList r.1.2.toList := by
  unfold declareDefaultState
  cases script.defaultState with
  | some d =>
    obtain ⟨htakes, hid, hstate⟩ : run.Takes library o _ _ _ ∧ _ ∧ _ :=
      declareState_takes d true run hroot
    exact ⟨htakes, congrArg (fun id => [id]) hid, .cons hstate .nil⟩
  | none => exact ⟨(Run.Takes.refl run).say rfl, rfl, .nil⟩

theorem declareStates_takes (ds : List StateDecl) (known : Names) (run : Run)
    (hroot : run.tree.Rooted) :
    let r := declareStates known ds run
    run.Takes library o ds.length [] r.2 ∧ r.1.2 = List.range' run.tree.size ds.length
      ∧ List.Forall₂ r.2.tree.HasState ds r.1.2 := by
  induction ds generalizing known run with
  | nil => exact ⟨.refl run, rfl, .nil⟩
  | cons d rest ih =>
    obtain ⟨hone, hid, hstate⟩ : run.Takes library o _ _ _ ∧ _ ∧ _ :=
      declareState_takes d false run hroot
    obtain ⟨⟨id, run₁⟩, hr⟩ : ∃ r, declareState d false run = r := ⟨_, rfl⟩
    rw [hr] at hone hid hstate
    obtain ⟨known₂, run₂, hname, hrun⟩ : ∃ known₂ run₂, run₁.Takes library o 0 [] run₂
        ∧ declareStates known (d :: rest) run
          = (((declareStates known₂ rest run₂).1.1, id :: (declareStates known₂ rest run₂).1.2),
              (declareStates known₂ rest run₂).2) := by
      simp only [declareStates]
      rw [Check.bind_run, hr]
      by_cases hd : d.name = defaultStateName
      · simp only [hd, ↓reduceIte]
        exact ⟨known, _, (Run.Takes.refl run₁).fault id rfl, rfl⟩
      · simp only [hd, ↓reduceIte]
        obtain ⟨hn, -⟩ : run₁.Takes library o _ _ _ ∧ _ :=
          declareName_takes known d.name id d.span (.stateRedefined d.name)
            (fun _ => rfl) run₁
        exact ⟨_, _, hn, rfl⟩
    obtain ⟨hrest, hids, hstates⟩ := ih known₂ run₂ ((hone.trans hname).grows.rooted hroot)
    have hsize : run₂.tree.size = run.tree.size + 1 := (hone.trans hname).size
    simp only [hrun]
    refine ⟨?_, ?_, .cons (hstate.extends (hname.grows.trans hrest.grows)) hstates⟩
    · have := (hone.trans hname).trans hrest
      rwa [show 1 + 0 + rest.length = (d :: rest).length by simp [Nat.add_comm]] at this
    · rw [hids, hsize, show id = run.tree.size from hid]
      rfl

/-! ### Globals -/

theorem Tree.Grows.global? {id : NodeId} {v : Variable} (hg : t.Grows P t')
    (h : t.kind? id = some (.global v)) :
    ∃ v', t'.kind? id = some (.global v') ∧ v'.name = v.name ∧ v'.ty = v.ty ∧ v'.init = v.init := by
  obtain ⟨k', hk', ho⟩ := hg.kind? h
  cases k' <;> simp_all [NodeKind.outline, Variable.outline]

/-- The node is the global, and its initial value sees what is declared around and
fits, unless the global is wrong. -/
def Tree.HasGlobal (t : Tree) (rules : Rules) (o : Surroundings) (d : VarDecl) (id : NodeId) :
    Prop :=
  ∃ v, t.kind? id = some (.global v) ∧ v.name = d.name ∧ v.ty = d.ty
    ∧ (∀ c ∈ v.init, t.Sees rules o [] c)
    ∧ ∀ c ∈ v.init, t.Suits c (assignable v.ty · = true) ∨ t.hasErrors id = true

theorem Tree.HasGlobal.grows {d : VarDecl} {id : NodeId} (h : t.HasGlobal rules o d id)
    (hg : t.Grows P t') : t'.HasGlobal rules o d id := by
  obtain ⟨v, hv, hname, hty, hsees, hsuits⟩ := h
  obtain ⟨v', hv', hname', hty', hinit⟩ := hg.global? hv
  refine ⟨v', hv', hname'.trans hname, hty'.trans hty, ?_, ?_⟩
  · exact fun c hc => (hsees c (hinit ▸ hc)).grows hg
  · rw [hinit, hty']
    exact fun c hc => (hsuits c hc).imp (·.grows hg) hg.hasErrors

/-- One more global. -/
def Surroundings.withGlobal (o : Surroundings) (d : VarDecl) (id : NodeId) : Surroundings :=
  { o with globals := o.globals ++ [(d.name, id)] }

/-- The nodes are the globals, each of which sees those before it. -/
def Tree.HasGlobals (t : Tree) (rules : Rules) (o : Surroundings) :
    List (VarDecl × NodeId) → Prop
  | [] => True
  | (d, id) :: rest => t.HasGlobal rules o d id ∧ t.HasGlobals rules (o.withGlobal d id) rest

theorem Tree.HasGlobals.grows {xs : List (VarDecl × NodeId)} (h : t.HasGlobals rules o xs)
    (hg : t.Grows P t') : t'.HasGlobals rules o xs := by
  induction xs generalizing o with
  | nil => trivial
  | cons x rest ih => exact ⟨h.1.grows hg, ih h.2⟩

theorem Env.Names.withGlobal {d : VarDecl} {id : NodeId} (h : env.Names library o t)
    {globals : List (String × NodeId)}
    (hg : ∀ name, globals.lookup name = (env.globals.lookup name).or
      (if library.hasConstant d.name then none else List.lookup name [(d.name, id)])) :
    Env.Names library { env with globals } (o.withGlobal d id) t where
  library := h.library
  functions := h.functions
  declared := h.declared
  globals name := by
    rw [hg, h.globals, Surroundings.global?, Surroundings.global?, Surroundings.withGlobal,
      accepted_append, accepted_single]
  params := h.params
  labels := h.labels

theorem resolveGlobal_takes (hn : env.Names library o run.tree)
    (hs : run.scopes.Shows library []) (d : VarDecl) :
    let r := resolveGlobal env d run
    let id := run.tree.size + nodesOfExprs d.init.toList
    run.Takes library o (nodesOfExprs d.init.toList + 1)
        (sitesOfExprs [] run.tree.size d.init.toList) r.2
      ∧ r.1.2 = id ∧ Env.Names library { env with globals := r.1.1 } (o.withGlobal d id) r.2.tree
      ∧ r.2.tree.HasGlobal env.rules o d id := by
  have hinit := resolveOption_takes hn hs d.init
  obtain ⟨⟨init, run₁⟩, hr⟩ : ∃ r, resolveOption env d.init run = r := ⟨_, rfl⟩
  rw [hr] at hinit
  let kind : NodeKind := .global { name := d.name, ty := d.ty, scope := .global, init }
  let run₂ : Run := { run₁ with tree := (run₁.tree.alloc kind d.span).1 }
  have hmade : run₁.Takes library o 1 [] run₂ :=
    .silent (Tree.grows_alloc kind d.span) (Tree.size_alloc kind d.span) rfl (by simp)
  obtain ⟨globals, run₃, hname, hglobals, hrun⟩ : ∃ globals run₃, run₂.Takes library o 0 [] run₃
      ∧ (∀ name, globals.lookup name = (env.globals.lookup name).or
        (if library.hasConstant d.name then none
          else List.lookup name [(d.name, run₁.tree.size)]))
      ∧ resolveGlobal env d run = ((globals, run₁.tree.size),
          (init.forM (checkInitializer run₁.tree.size d.name d.ty) run₃).2) := by
    unfold resolveGlobal
    rw [Check.bind_run, hr, hn.library]
    by_cases hc : library.hasConstant d.name = true
    · simp only [hc, ↓reduceIte]
      exact ⟨env.globals, _, (Run.Takes.refl run₂).fault run₁.tree.size rfl, by simp, rfl⟩
    · simp only [hc, Bool.false_eq_true, ↓reduceIte]
      obtain ⟨h, hlook, -⟩ : run₂.Takes library o _ _ _ ∧ _ ∧ _ :=
        declareName_takes env.globals d.name run₁.tree.size d.span
          (.variableRedefined d.name) (fun _ => rfl) run₂
      exact ⟨_, _, h, hlook, rfl⟩
  have hcheck : run₃.Takes library o 0 [] _ :=
    checkInitializer_takes run₁.tree.size d.name d.ty init run₃
  have hself : run₂.tree.kind? run₁.tree.size = some kind := Tree.kind?_alloc_self kind d.span
  obtain ⟨k', hkept, -⟩ := hname.grows.kind? hself
  have hsuits := checkInitializer_suits d.name d.ty init (Tree.has_of_kind? hkept)
  have hafter := (hmade.trans hname).trans hcheck
  have hid : run₁.tree.size = run.tree.size + nodesOfExprs d.init.toList := hinit.takes.size
  simp only [hrun, ← hid]
  refine ⟨?_, trivial, ?_, ?_⟩
  · have := hinit.takes.trans hafter
    rwa [List.append_nil, List.append_nil, List.append_nil] at this
  · exact (hn.grows (hinit.takes.grows.trans hafter.grows)).withGlobal hglobals
  · obtain ⟨v, hv, hname', hty, hvalue⟩ :
        ∃ v : Variable, _ ∧ v.name = d.name ∧ v.ty = d.ty ∧ v.init = init :=
      (hname.grows.trans hcheck.grows).global? hself
    refine ⟨v, hv, hname', hty, ?_, ?_⟩
    · rw [hvalue]
      exact fun c hc => (hinit.sees c (Option.mem_toList.mpr hc)).grows hafter.grows
    · rw [hvalue, hty]
      exact fun c hc => (hsuits c hc).imp id (·.1)

/-- The names at places with different surroundings were looked up, and some
functions and states were filled. -/
structure Run.ReadsAll (library : Catalog) (ids : List NodeId)
    (sites : List (Surroundings × Site)) (run run' : Run) : Prop where
  grows : run.tree.Fills ids run'.tree
  notices : run.notices ⊆ run'.notices
  reports : run'.notices.filter (·.isLookup)
    = run.notices.filter (·.isLookup) ++ sites.filterMap fun x => x.2.report? library x.1
  bound : ∀ x ∈ sites, x.2.Bound library x.1 run'.tree

theorem Run.Reads.all {sites : List Site} (h : run.Reads library o sites run') :
    run.ReadsAll library [] (sites.map (o, ·)) run' where
  grows := h.grows.mono fun _ hi => .inr hi
  notices := h.notices
  reports := by
    rw [h.reports, List.filterMap_map]
    rfl
  bound x hx := by
    obtain ⟨s, hs, rfl⟩ := List.mem_map.mp hx
    exact h.bound s hs

theorem Run.ReadsAll.refl (run : Run) : run.ReadsAll library [] [] run :=
  (show run.Reads library {} [] run from .refl run).all

theorem Run.ReadsAll.trans {ids ids' : List NodeId} {sites sites' : List (Surroundings × Site)}
    (h : run.ReadsAll library ids sites run') (g : run'.ReadsAll library ids' sites' run'') :
    run.ReadsAll library (ids ++ ids') (sites ++ sites') run'' where
  grows := h.grows.trans g.grows
  notices := List.Subset.trans h.notices g.notices
  reports := by rw [g.reports, h.reports, List.filterMap_append, List.append_assoc]
  bound x hx := by
    rcases List.mem_append.mp hx with hx | hx
    · exact (h.bound x hx).grows g.grows
    · exact g.bound x hx

/-- Globals are resolved one after the other. -/
theorem resolveGlobals_reads (ds : List VarDecl) (env : Env) (o : Surroundings) (run : Run)
    (hn : env.Names library o run.tree) (hs : run.scopes.Shows library []) :
    let r := resolveGlobals env ds run
    let numbered := numberGlobals run.tree.size ds
    run.ReadsAll library [] (sitesOfGlobals o run.tree.size ds) r.2
      ∧ r.2.tree.size = run.tree.size + nodesOfGlobals ds
      ∧ r.1.2 = numbered.map (·.2)
      ∧ Env.Names library { env with globals := r.1.1 }
        { o with globals := o.globals ++ numbered.map fun x => (x.1.name, x.2) } r.2.tree
      ∧ r.2.tree.HasGlobals env.rules o numbered := by
  induction ds generalizing env o run with
  | nil =>
    refine ⟨.refl run, rfl, rfl, ?_, trivial⟩
    simp only [numberGlobals, List.map_nil, List.append_nil]
    exact hn
  | cons d rest ih =>
    obtain ⟨hone, hid, hnames, hglobal⟩ : run.Takes library o _ _ _ ∧ _ ∧ _ ∧ _ :=
      resolveGlobal_takes hn hs d
    obtain ⟨⟨⟨globals, id⟩, run₁⟩, hr⟩ : ∃ r, resolveGlobal env d run = r := ⟨_, rfl⟩
    rw [hr] at hone hid hnames hglobal
    simp only at hid
    subst hid
    obtain ⟨hrest, hsize, hids, hnames', hglobals⟩ := ih _ _ run₁ hnames (hone.shows hs)
    have hsize₁ : run₁.tree.size = run.tree.size + nodesOfExprs d.init.toList + 1 := hone.size
    rw [hsize₁] at hrest hids hnames' hglobals
    simp only [resolveGlobals_run rest hr]
    refine ⟨hone.toReads.all.trans hrest, ?_, ?_, ?_, ?_, hglobals⟩
    · rw [hsize, hsize₁, nodesOfGlobals]
      omega
    · rw [hids]
      rfl
    · simpa [Surroundings.withGlobal, numberGlobals] using hnames'
    · exact hglobal.grows hrest.grows

end Lsl
