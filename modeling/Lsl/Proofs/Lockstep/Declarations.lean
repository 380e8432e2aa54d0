/- # Declarations and bodies side by side

Both runs take up names alike, as long as names stand for nodes that belong
together. So they declare parameters, functions, states and globals alike, and
they enter a body with the same names, whatever was resolved before it.

Key definitions: `Pairing.Named`, `Names.add`.
Key theorems: `declareFunction_sim`, `resolveGlobals_sim`, `enterBody_sim`,
`resolveHandlers_sim`.
-/
import Lsl.Proofs.Lockstep.Stmts

namespace Lsl

variable {F : Pairing} {inside : Bool} {run run' : Run} {env env' : Env} {m n : Nat}
  {P Q : NodeId → Prop} {known known' : Names}

/-! ### Names -/

/-- Takes a name up, unless it is taken. -/
def Names.add (known : Names) (name : String) (id : NodeId) : Names :=
  if (known.lookup name).isSome then known else known ++ [(name, id)]

theorem Names.lookup_add (known : Names) (name other : String) (id : NodeId) :
    (Names.add known name id).lookup other
      = (known.lookup other).or (if other == name then some id else none) := by
  unfold Names.add
  split
  · rename_i hsome
    by_cases h : other = name
    · subst h
      obtain ⟨i, hi⟩ := Option.isSome_iff_exists.mp hsome
      simp [hi]
    · simp [h]
  · rw [List.lookup_append]
    simp [List.lookup_cons]
    split <;> simp_all

/-- Names that stand for nodes which belong together. -/
structure Pairing.Named (F : Pairing) (P : NodeId → Prop) (names names' : Names) : Prop where
  lookup : ∀ name, names'.lookup name = (names.lookup name).map F.map
  all : ∀ name, ∀ id ∈ names.lookup name, P id

namespace Pairing.Named

theorem mono (h : F.Named P known known') (hpq : ∀ i, P i → Q i) : F.Named Q known known' :=
  ⟨h.lookup, fun name id hid => hpq id (h.all name id hid)⟩

theorem add (h : F.Named P known known') (name : String) {id : NodeId} (hid : P id) :
    F.Named P (Names.add known name id) (Names.add known' name (F.map id)) := by
  refine ⟨fun other => ?_, fun other i hi => ?_⟩
  · rw [Names.lookup_add, Names.lookup_add, h.lookup]
    cases known.lookup other <;> cases other == name <;> rfl
  · rw [Names.lookup_add, Option.mem_def, Option.or_eq_some_iff] at hi
    rcases hi with hi | ⟨-, hi⟩
    · exact h.all other i hi
    · split at hi
      · exact Option.some.inj hi ▸ hid
      · cases hi

end Pairing.Named

/-- Both runs take a name up or refuse it. -/
theorem declareName_sim (h : run.Twin F inside run') {name : String} {id : NodeId}
    (hl : known'.lookup name = (known.lookup name).map F.map)
    (hp : ∀ i ∈ known.lookup name, F.own i ∨ F.known i) (hid : F.At run.tree.size id) (span : Span)
    (redefined : Span → Fault) :
    Check.Sim F inside run run' (declareName known name id span redefined)
      (declareName known' name (F.map id) span redefined) fun _ k k' =>
        k = Names.add known name id ∧ k' = Names.add known' name (F.map id) := by
  unfold declareName
  rw [hl]
  rcases hprev : known.lookup name with _ | previous
  · refine .pure h ⟨?_, ?_⟩
    · rw [Names.add, hprev]
      rfl
    · rw [Names.add, hl, hprev]
      rfl
  · simp only [Option.map_some]
    refine .tree ?_
    rw [h.tree.spanOf (hp previous hprev)]
    refine .bind (.faultAt h hid _ _) fun _ _ r r' hr _ _ => .pure hr ⟨?_, ?_⟩
    · rw [Names.add, hprev]
      rfl
    · rw [Names.add, hl, hprev]
      rfl

/-! ### Parameters, functions and states -/

theorem declareParams_sim (h : run.Twin F inside run') (library : Catalog) (seen : List String)
    (params : List Param) :
    Check.Sim F inside run run' (declareParams library seen params)
      (declareParams library seen params) F.MadeAll := by
  induction params generalizing seen run run' with
  | nil => exact .pure h ⟨rfl, by simp⟩
  | cons p rest ih =>
    unfold declareParams
    refine .bind (.alloc h (.param _) p.span
      (by simp [NodeKind.mentions, NodeKind.children])) fun id id' r r' hr _ hid => ?_
    obtain ⟨rfl, hid⟩ := hid
    have hend : ∀ r₁ r₁', r₁.Twin F inside r₁' → r.tree.size ≤ r₁.tree.size →
        Check.Sim F inside r₁ r₁' (declareParams library (p.name :: seen) rest >>= fun ids =>
          (pure (id :: ids) : Check (List NodeId)))
          (declareParams library (p.name :: seen) rest >>= fun ids => pure (F.map id :: ids))
          F.MadeAll := fun r₁ r₁' hr₁ hle₁ => by
      refine .bind (ih hr₁ (p.name :: seen)) fun ids ids' r₂ r₂' hr₂ hle₂ hids => ?_
      obtain ⟨rfl, hids⟩ := hids
      refine .pure hr₂ ⟨rfl, ?_⟩
      rw [List.forall_mem_cons]
      exact ⟨hid.mono (Nat.le_trans hle₁ hle₂), hids⟩
    refine .ite Iff.rfl (fun _ => ?_) fun _ => ?_
    · exact .bind (.faultAt hr hid _ _) fun _ _ r₁ r₁' hr₁ hle₁ _ => hend r₁ r₁' hr₁ hle₁
    · exact .when Iff.rfl hr (fun _ => .faultAt hr hid _ _) hend

/-- Declares one function. -/
def declareFunction (library : Catalog) (known : Names) (d : FunctionDecl) :
    Check (Names × NodeId) := do
  let params ← declareParams library [] d.params
  let id ← Check.alloc (.function { name := d.name, returnType := d.returnType, params }) d.span
  let known ←
    if library.hasFunction d.name then do
      Check.faultAt id (.libraryFunctionRedefined d.name) d.span
      pure known
    else declareName known d.name id d.span (.functionRedefined d.name)
  return (known, id)

theorem declareFunctions_cons (library : Catalog) (known : Names) (d : FunctionDecl)
    (rest : List FunctionDecl) :
    declareFunctions library known (d :: rest) = do
      let (known, id) ← declareFunction library known d
      let (known, ids) ← declareFunctions library known rest
      return (known, id :: ids) := by
  rw [declareFunctions, declareFunction]
  simp only [bind_assoc]
  refine bind_congr fun params => bind_congr fun id => ?_
  split <;> simp only [bind_assoc, pure_bind]

/-- The names that functions are called by, with one more function. -/
def FunctionDecl.nameIn (library : Catalog) (known : Names) (d : FunctionDecl) (id : NodeId) :
    Names :=
  if library.hasFunction d.name then known else Names.add known d.name id

/-- Both runs declare a function alike, if its name is free on both sides or on none. -/
theorem declareFunction_sim (h : run.Twin F inside run') (library : Catalog) (known known' : Names)
    (d : FunctionDecl)
    (hl : library.hasFunction d.name = false →
      known'.lookup d.name = (known.lookup d.name).map F.map)
    (hp : ∀ i ∈ known.lookup d.name, F.own i ∨ F.known i) :
    Check.Sim F inside run run' (declareFunction library known d)
      (declareFunction library known' d) fun n x x' => F.Made n x.2 x'.2
        ∧ x.1 = d.nameIn library known x.2 ∧ x'.1 = d.nameIn library known' x'.2 := by
  unfold declareFunction
  refine .bind (declareParams_sim h library [] d.params) fun params params' r r' hr _ hparams => ?_
  obtain ⟨rfl, hparams⟩ := hparams
  refine .bind (.alloc hr (.function { name := d.name, returnType := d.returnType, params })
    d.span fun c hc => hparams c (by simpa [NodeKind.mentions, NodeKind.children] using hc))
    fun id id' r₁ r₁' hr₁ _ hid => ?_
  obtain ⟨rfl, hid⟩ := hid
  refine .ite Iff.rfl (fun hc => ?_) fun hc => ?_
  · exact .bind (.faultAt hr₁ hid _ _) fun _ _ r₂ r₂' hr₂ hle _ =>
      .pure hr₂ ⟨⟨rfl, hid.mono hle⟩, (if_pos hc).symm, (if_pos hc).symm⟩
  · refine .bind (declareName_sim hr₁ (hl (by simpa using hc)) hp hid _ _)
      fun k k' r₂ r₂' hr₂ hle hk => ?_
    obtain ⟨rfl, rfl⟩ := hk
    exact .pure hr₂ ⟨⟨rfl, hid.mono hle⟩, (if_neg hc).symm, (if_neg hc).symm⟩

theorem declareState_sim (h : run.Twin F inside run') (d : StateDecl) (isDefault : Bool) :
    Check.Sim F inside run run' (declareState d isDefault) (declareState d isDefault) F.Made := by
  unfold declareState
  refine .bind (.alloc h (.state { name := d.name, isDefault }) d.span
    (by simp [NodeKind.mentions, NodeKind.children])) fun id id' r r' hr _ hid => ?_
  obtain ⟨rfl, hid⟩ := hid
  exact .when Iff.rfl hr (fun _ => .faultAt hr hid _ _) fun r₁ r₁' hr₁ hle =>
    .pure hr₁ ⟨rfl, hid.mono hle⟩

/-- Declares one state beside the default state. -/
def declareNamedState (known : Names) (d : StateDecl) : Check (Names × NodeId) := do
  let id ← declareState d false
  let known ←
    if d.name = defaultStateName then do
      Check.faultAt id .defaultStateRedefined d.span
      pure known
    else declareName known d.name id d.span (.stateRedefined d.name)
  return (known, id)

theorem declareStates_cons (known : Names) (d : StateDecl) (rest : List StateDecl) :
    declareStates known (d :: rest) = do
      let (known, id) ← declareNamedState known d
      let (known, ids) ← declareStates known rest
      return (known, id :: ids) := by
  rw [declareStates, declareNamedState]
  simp only [bind_assoc]
  refine bind_congr fun id => ?_
  split <;> simp only [bind_assoc, pure_bind]

/-- The names of states, with one more state. -/
def StateDecl.nameIn (known : Names) (d : StateDecl) (id : NodeId) : Names :=
  if d.name = defaultStateName then known else Names.add known d.name id

theorem declareNamedState_sim (h : run.Twin F inside run') (known known' : Names) (d : StateDecl)
    (hl : d.name ≠ defaultStateName → known'.lookup d.name = (known.lookup d.name).map F.map)
    (hp : ∀ i ∈ known.lookup d.name, F.own i ∨ F.known i) :
    Check.Sim F inside run run' (declareNamedState known d) (declareNamedState known' d)
      fun n x x' => F.Made n x.2 x'.2 ∧ x.1 = d.nameIn known x.2 ∧ x'.1 = d.nameIn known' x'.2 := by
  unfold declareNamedState
  refine .bind (declareState_sim h d false) fun id id' r r' hr _ hid => ?_
  obtain ⟨rfl, hid⟩ := hid
  refine .ite Iff.rfl (fun hc => ?_) fun hc => ?_
  · exact .bind (.faultAt hr hid _ _) fun _ _ r₁ r₁' hr₁ hle _ =>
      .pure hr₁ ⟨⟨rfl, hid.mono hle⟩, (if_pos hc).symm, (if_pos hc).symm⟩
  · refine .bind (declareName_sim hr (hl hc) hp hid _ _) fun k k' r₁ r₁' hr₁ hle hk => ?_
    obtain ⟨rfl, rfl⟩ := hk
    exact .pure hr₁ ⟨⟨rfl, hid.mono hle⟩, (if_neg hc).symm, (if_neg hc).symm⟩

/-! ### Globals -/

/-- The same names with other globals. -/
theorem Env.Twin.withGlobals (h : env.Twin F m env') {globals globals' : Names}
    (hn : F.Named (fun i => F.own i ∨ F.notable i) globals globals') :
    Env.Twin F m { env with globals } { env' with globals := globals' } :=
  { h with globals := hn.lookup, global := hn.all }

theorem resolveGlobal_sim (henv : env.Twin F m env') (h : run.Twin F true run') (d : VarDecl) :
    Check.Sim F true run run' (resolveGlobal env d) (resolveGlobal env' d) fun n x x' =>
      F.Named (fun i => F.own i ∨ F.notable i) x.1 x'.1 ∧ F.Made n x.2 x'.2 := by
  have hglobals : F.Named (fun i => F.own i ∨ F.notable i) env.globals env'.globals :=
    ⟨henv.globals, henv.global⟩
  unfold resolveGlobal
  refine .bind (resolveOption_sim henv h d.init) fun init init' r r' hr _ hinit => ?_
  obtain ⟨rfl, hinit⟩ := hinit
  refine .bind (.alloc hr (.global { name := d.name, ty := d.ty, scope := .global, init })
    d.span fun c hc => hinit c (Option.mem_toList.mp hc)) fun id id' r₁ r₁' hr₁ _ hid => ?_
  obtain ⟨rfl, hid⟩ := hid
  rw [henv.library]
  -- the initializer is checked once the name is taken up
  have hend : ∀ (k k' : Names) (r₂ r₂' : Run), r₂.Twin F true r₂' → r₁.tree.size ≤ r₂.tree.size →
      F.Named (fun i => F.own i ∨ F.notable i) k k' →
      Check.Sim F true r₂ r₂'
        (init.forM (checkInitializer id d.name d.ty) >>= fun _ =>
          (pure (k, id) : Check (Names × NodeId)))
        ((init.map F.map).forM (checkInitializer (F.map id) d.name d.ty) >>= fun _ =>
          pure (k', F.map id)) fun n x x' =>
        F.Named (fun i => F.own i ∨ F.notable i) x.1 x'.1 ∧ F.Made n x.2 x'.2 :=
    fun k k' r₂ r₂' hr₂ hle₂ hk =>
      .bind (.optionForM hr₂ fun x hx => checkInitializer_sim hr₂ (hid.mono hle₂) (hinit x hx).1 _ _)
        fun _ _ r₃ r₃' hr₃ hle₃ _ => .pure hr₃ ⟨hk, rfl, hid.mono (Nat.le_trans hle₂ hle₃)⟩
  refine .ite Iff.rfl (fun _ => ?_) fun _ => ?_
  · exact .bind (.faultAt hr₁ hid _ _) fun _ _ r₂ r₂' hr₂ hle₂ _ => hend _ _ r₂ r₂' hr₂ hle₂ hglobals
  · refine .bind (declareName_sim hr₁ (hglobals.lookup d.name)
      (fun i hi => (hglobals.all d.name i hi).imp_right (F.known_of_notable i)) hid _ _)
      fun k k' r₂ r₂' hr₂ hle₂ hk => hend k k' r₂ r₂' hr₂ hle₂ ?_
    obtain ⟨rfl, rfl⟩ := hk
    exact hglobals.add d.name (.inl hid.1)

/-- Both runs resolve globals alike. -/
theorem resolveGlobals_sim (henv : env.Twin F m env') (h : run.Twin F true run')
    (ds : List VarDecl) :
    Check.Sim F true run run' (resolveGlobals env ds) (resolveGlobals env' ds) fun n x x' =>
      F.Named (fun i => F.own i ∨ F.notable i) x.1 x'.1 ∧ F.MadeAll n x.2 x'.2 := by
  induction ds generalizing env env' run run' with
  | nil => exact .pure h ⟨⟨henv.globals, henv.global⟩, rfl, by simp⟩
  | cons d rest ih =>
    unfold resolveGlobals
    refine .bind (resolveGlobal_sim henv h d) fun x x' r r' hr _ hx => ?_
    obtain ⟨hnames, hid, hat⟩ := hx
    refine .bind (ih (henv.withGlobals hnames) hr) fun y y' r₁ r₁' hr₁ hle hy => ?_
    obtain ⟨hnames₁, hids, hall⟩ := hy
    refine .pure hr₁ ⟨hnames₁, ?_, ?_⟩
    · rw [List.map_cons, hid, hids]
    · rw [List.forall_mem_cons]
      exact ⟨hat.mono hle, hall⟩

/-! ### Bodies -/

theorem declareLabels_sim (h : run.Twin F inside run') (hn : F.Named (F.At run.tree.size) known known')
    (sites : List LabelSite) :
    Check.Sim F inside run run' (declareLabels known sites) (declareLabels known' sites)
      fun n x x' => F.Named (F.At n) x.1 x'.1 ∧ F.MadeAll n x.2 x'.2 := by
  induction sites generalizing known known' run run' with
  | nil => exact .pure h ⟨hn, rfl, by simp⟩
  | cons site rest ih =>
    unfold declareLabels
    refine .bind (.alloc h (.stmt ⟨.label site.name [], _⟩) site.span
      (by simp [NodeKind.mentions])) fun id id' r r' hr hle hid => ?_
    obtain ⟨rfl, hid⟩ := hid
    refine .bind (declareName_sim hr (hn.lookup site.name) (fun i hi => .inl (hn.all _ i hi).1) hid _ _)
      fun k k' r₁ r₁' hr₁ hle₁ hk => ?_
    obtain ⟨rfl, rfl⟩ := hk
    refine .bind (ih hr₁ ((hn.mono fun i hi => hi.mono (Nat.le_trans hle hle₁)).add site.name
      (hid.mono hle₁))) fun x x' r₂ r₂' hr₂ hle₂ hx => ?_
    obtain ⟨hnames, hids, hall⟩ := hx
    refine .pure hr₂ ⟨hnames, ?_, ?_⟩
    · rw [List.map_cons, hids]
    · rw [List.forall_mem_cons]
      exact ⟨hid.mono (Nat.le_trans hle₁ hle₂), hall⟩

theorem bindParams_sim (h : run.Twin F inside run') {globals globals' : Names}
    (hg : ∀ name, globals'.lookup name = (globals.lookup name).map F.map)
    (hn : F.Named (fun i => F.own i ∨ F.notable i) known known') {ids : List NodeId}
    (hids : ∀ i ∈ ids, F.own i ∨ F.notable i) :
    Check.Sim F inside run run' (bindParams globals known ids)
      (bindParams globals' known' (ids.map F.map)) fun _ k k' =>
        F.Named (fun i => F.own i ∨ F.notable i) k k' := by
  induction ids generalizing known known' run run' with
  | nil => exact .pure h hn
  | cons id rest ih =>
    have hid := hids id List.mem_cons_self
    have hidk := hid.imp_right (F.known_of_notable id)
    have hrest := fun i hi => hids i (List.mem_cons_of_mem _ hi)
    unfold bindParams
    refine .tree ?_
    have hvar := h.tree.varNameTy hidk
    rcases hv : run.tree.var? id with _ | v <;> rcases hv' : run'.tree.var? (F.map id) with _ | v' <;>
      rw [hv, hv'] at hvar
    · exact ih h hn hrest
    · cases hvar
    · cases hvar
    · have hname : v'.name = v.name := congrArg Prod.fst (Option.some.inj hvar)
      simp only [hname, hg, Option.isSome_map, h.tree.spanOf hidk]
      refine .when Iff.rfl h (fun _ => .warn h _ _) fun r r' hr _ => ih hr ?_ hrest
      have hadd := hn.add v.name hid
      rw [Names.add, Names.add] at hadd
      exact hadd

/-- Both runs enter a body with the same names. They need not have been at the
same place before. -/
theorem enterBody_sim (henv : env.Twin F m env') (h : run.Twin F inside run') (name : String)
    (returnType : Ty) (isEvent : Bool) (params : List NodeId)
    (hp : ∀ i ∈ params, F.own i ∨ F.notable i) (body : Block) :
    Check.Sim F true run run' (enterBody env name returnType isEvent params body)
      (enterBody env' name returnType isEvent (params.map F.map) body) fun n e e' =>
        e.Twin F n e' := by
  unfold enterBody
  refine .bind (bindParams_sim h henv.globals ⟨fun _ => rfl, by simp⟩ hp)
    fun names names' r r' hr _ hnames => ?_
  refine .bind (declareLabels_sim hr ⟨fun _ => rfl, by simp⟩ body.labelSites)
    fun x x' r₁ r₁' hr₁ _ hx => ?_
  obtain ⟨hlabels, hids, hall⟩ := hx
  refine ⟨⟨hr₁.tree, hr₁.told, fun _ => ⟨rfl, fun fr (hfr : fr ∈ []) => absurd hfr List.not_mem_nil,
    hids, hall, rfl⟩⟩, Nat.le_refl _, ?_⟩
  exact { henv with
    body := rfl
    params := hnames.lookup
    param := hnames.all
    labels := hlabels.lookup
    label := hlabels.all }

theorem exitBody_sim (h : run.Twin F true run') :
    Check.Sim F true run run' exitBody exitBody fun _ _ _ => True := by
  have ha := h.around rfl
  exact ⟨⟨h.tree, h.told, fun _ => ⟨rfl, fun fr (hfr : fr ∈ []) => absurd hfr List.not_mem_nil, rfl,
    fun l (hl : l ∈ []) => absurd hl List.not_mem_nil, ha.lastScope⟩⟩, Nat.le_refl _, trivial⟩

theorem resolveBlock_sim (henv : env.Twin F run.tree.size env') (h : run.Twin F true run')
    (kind : ScopeKind) (body : Block) :
    CheckBody.Sim F true run run' (resolveBlock env kind body) (resolveBlock env' kind body)
      F.Made := by
  unfold resolveBlock
  exact inScope_sim henv h _ _ _ fun r r' tr tr' hr hle htr =>
    resolveStmts_sim body.stmts (henv.mono hle) hr htr

theorem Run.Twin.outside (h : run.Twin F inside run') : run.Twin F false run' :=
  ⟨h.tree, h.told, fun hi => by cases hi⟩

theorem resolveHandler_sim (henv : env.Twin F m env') (h : run.Twin F false run') (d : HandlerDecl) :
    CheckBody.Sim F false run run' (resolveHandler env d) (resolveHandler env' d) F.Made := by
  unfold resolveHandler
  rw [henv.library]
  refine .bind (.lift (declareParams_sim h _ [] d.params)) fun params params' r r' hr _ hparams => ?_
  obtain ⟨rfl, hparams⟩ := hparams
  refine .when Iff.rfl hr (fun _ => .warn hr _ _) fun r₁ r₁' hr₁ hle₁ => ?_
  refine .bind (.lift (enterBody_sim henv hr₁ d.name .void true _ (fun i hi => .inl (hparams i hi).1)
    d.body)) fun inner inner' r₂ r₂' hr₂ hle₂ hinner => ?_
  refine .bind (resolveBlock_sim hinner hr₂ .eventBody d.body) fun body body' r₃ r₃' hr₃ hle₃ hbody => ?_
  obtain ⟨rfl, hbody⟩ := hbody
  refine .bind (.lift (exitBody_sim hr₃)) fun _ _ r₄ r₄' hr₄ hle₄ _ => ?_
  refine .bind (.lift (.alloc hr₄ (.handler { name := d.name, params, body }) d.span
    fun c hc => ?_)) fun id id' r₅ r₅' hr₅ _ hid => ?_
  · rcases List.mem_append.mp hc with hc | hc
    · exact (hparams c hc).mono (Nat.le_trans hle₁ (Nat.le_trans hle₂ (Nat.le_trans hle₃ hle₄)))
    · exact List.mem_singleton.mp hc ▸ hbody.mono hle₄
  · obtain ⟨rfl, hid⟩ := hid
    refine .bind (.optionForMSame hr₅ fun kind _ => .lift (.faultAt hr₅ hid kind d.span))
      fun _ _ r₆ r₆' hr₆ hle₆ _ => .pure hr₆.outside ⟨rfl, hid.mono hle₆⟩

/-- Both runs resolve the handlers of a state alike. -/
theorem resolveHandlers_sim (henv : env.Twin F m env') (h : run.Twin F false run') (state : String)
    (seen : List String) (ds : List HandlerDecl) :
    CheckBody.Sim F false run run' (resolveHandlers env state seen ds)
      (resolveHandlers env' state seen ds) F.MadeAll := by
  induction ds generalizing seen run run' with
  | nil => exact .pure h ⟨rfl, by simp⟩
  | cons d rest ih =>
    unfold resolveHandlers
    refine .bind (resolveHandler_sim henv h d) fun id id' r r' hr _ hid => ?_
    obtain ⟨rfl, hid⟩ := hid
    refine .when Iff.rfl hr (fun _ => .faultAt hr hid _ _) fun r₁ r₁' hr₁ hle₁ => ?_
    refine .bind (ih hr₁ (d.name :: seen)) fun ids ids' r₂ r₂' hr₂ hle₂ hids => ?_
    obtain ⟨rfl, hids⟩ := hids
    refine .pure hr₂ ⟨rfl, ?_⟩
    rw [List.forall_mem_cons]
    exact ⟨hid.mono (Nat.le_trans hle₁ hle₂), hids⟩

end Lsl
