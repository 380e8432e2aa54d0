/- # Names that are declared once

A function, a state and the handler of an event in a state are declared once, and
what is declared a second time is reported. So the functions of a script without
errors have different names, and so do its named states, none of which is called
like the default state, and the handlers of each state.

Key definitions: `Script.Apart`.
Key theorems: `declareAll_apart`, `resolveHandlers_apart`, `Script.apart_of_check`.
-/
import Lsl.Proofs.Lockstep.Opening
import Lsl.Proofs.Scoping.Scripts

namespace Lsl

variable {library : Catalog} {o : Surroundings} {env : Env} {script : Script} {run : Run}

open CheckBody

/-! ### Declarations -/

theorem Run.wrong_fault (run : Run) (id : NodeId) {kind : Fault} {span : Span} :
    (Check.faultAt id kind span run).2.Wrong :=
  ⟨_, List.mem_append_right _ List.mem_cons_self, rfl⟩

section Declare

variable {δ : Type} {name : δ → String} {step : Names → δ → Check (Names × NodeId)}
  {all : Names → List δ → Check (Names × List NodeId)}

/-- The name was free and is taken now, unless something is wrong. -/
def Declares (known : Names) (name : String) (run : Run) (r : (Names × NodeId) × Run) : Prop :=
  run.notices ⊆ r.2.notices ∧ r.2.tree.Rooted
    ∧ (known.lookup name = none
        ∧ (∀ other, r.1.1.lookup other = none → known.lookup other = none ∧ other ≠ name)
      ∨ r.2.Wrong)

/-- What is declared one after the other has different names, which were free,
unless something is wrong. -/
theorem declareAll_apart (hnil : ∀ known, all known [] = pure (known, []))
    (hcons : ∀ known d rest, all known (d :: rest) = do
      let (known, id) ← step known d
      let (known, ids) ← all known rest
      return (known, id :: ids))
    (hstep : ∀ known d run, run.tree.Rooted → Declares known (name d) run (step known d run))
    (ds : List δ) (known : Names) (run : Run) (hroot : run.tree.Rooted) :
    run.notices ⊆ (all known ds run).2.notices ∧ (all known ds run).2.tree.Rooted
      ∧ ((∀ d ∈ ds, known.lookup (name d) = none) ∧ (ds.map name).Nodup
        ∨ (all known ds run).2.Wrong) := by
  induction ds generalizing known run with
  | nil =>
    rw [hnil]
    exact ⟨List.Subset.refl _, hroot, .inl (by simp)⟩
  | cons d rest ih =>
    obtain ⟨hmore, hroot₁, hone⟩ := hstep known d run hroot
    obtain ⟨⟨⟨known₁, id⟩, run₁⟩, hr⟩ : ∃ r, step known d run = r := ⟨_, rfl⟩
    rw [hr] at hmore hroot₁ hone
    obtain ⟨hmore', hroot', hrest⟩ := ih known₁ run₁ hroot₁
    have hrun : (all known (d :: rest) run).2 = (all known₁ rest run₁).2 := by
      rw [hcons, Check.bind_run, hr]
      rfl
    rw [hrun]
    refine ⟨List.Subset.trans hmore hmore', hroot', ?_⟩
    rcases hone with ⟨hfree, hnames⟩ | hwrong
    · rcases hrest with ⟨hothers, hnodup⟩ | hwrong
      · refine .inl ⟨List.forall_mem_cons.mpr ⟨hfree, fun e he => (hnames _ (hothers e he)).1⟩, ?_⟩
        refine List.nodup_cons.mpr ⟨fun hmem => ?_, hnodup⟩
        obtain ⟨e, he, heq⟩ := List.mem_map.mp hmem
        exact (hnames _ (hothers e he)).2 heq
      · exact .inr hwrong
    · exact .inr (hwrong.mono hmore')

end Declare

theorem declareName_declares {known : Names} {name : String} {id : NodeId} {span : Span}
    {redefined : Span → Fault} (run : Run) :
    (known.lookup name = none ∧ (∀ other,
        (declareName known name id span redefined run).1.lookup other = none →
          known.lookup other = none ∧ other ≠ name))
      ∨ (declareName known name id span redefined run).2.Wrong := by
  unfold declareName
  cases hk : known.lookup name with
  | some previous => exact .inr (run.wrong_fault id)
  | none =>
    refine .inl ⟨rfl, fun other hnone => ?_⟩
    obtain ⟨hbefore, hnew⟩ := Option.or_eq_none_iff.mp (List.lookup_append.symm.trans hnone)
    refine ⟨hbefore, ?_⟩
    rintro rfl
    simp at hnew

theorem declareFunction_declares (known : Names) (d : FunctionDecl) (run : Run)
    (hroot : run.tree.Rooted) :
    Declares known d.name run (declareFunction library known d run) := by
  obtain ⟨htakes, -⟩ : run.Takes library {} _ _ _ ∧ _ := declareFunction_takes known d hroot
  refine ⟨htakes.notices, htakes.grows.rooted hroot, ?_⟩
  unfold declareFunction
  rw [Check.bind_run, Check.bind_run]
  split
  · exact .inr (Run.wrong_fault _ _)
  · exact declareName_declares _

theorem declareNamedState_declares (known : Names) (d : StateDecl) (run : Run)
    (hroot : run.tree.Rooted) :
    Declares known d.name run (declareNamedState known d run) := by
  obtain ⟨htakes, -⟩ : run.Takes .empty {} _ _ _ ∧ _ := declareNamedState_takes known d hroot
  refine ⟨htakes.notices, htakes.grows.rooted hroot, ?_⟩
  unfold declareNamedState
  rw [Check.bind_run]
  split
  · exact .inr (Run.wrong_fault _ _)
  · exact declareName_declares _

/-! ### Event handlers -/

theorem CheckBody.Gives.and {α : Type} {x : CheckBody α} {Q R : α → Run → Prop}
    (h : x.Gives run Q) (h' : x.Gives run R) : x.Gives run fun a run' => Q a run' ∧ R a run' := by
  obtain ⟨a, run', hx, hq⟩ := h
  obtain ⟨a', run'', hx', hr⟩ := h'
  obtain ⟨rfl, rfl⟩ := Prod.mk.inj (Except.ok.inj (hx.symm.trans hx'))
  exact ⟨a, run', hx, hq, hr⟩

/-- Handlers that are resolved one after the other have different names, unless
something is wrong. -/
theorem resolveHandlers_apart (state : String) (ds : List HandlerDecl) (seen : List String)
    (hn : env.Names library o run.tree) :
    (resolveHandlers env state seen ds).Gives run fun _ run' =>
      (∀ d ∈ ds, d.name ∉ seen) ∧ (ds.map (·.name)).Nodup ∨ run'.Wrong := by
  induction ds generalizing seen run with
  | nil => exact .pure (.inl (by simp))
  | cons d rest ih =>
    unfold resolveHandlers
    refine (resolveHandler_gives d hn).bind fun id run₁ hone => ?_
    have hn₁ := hn.grows hone.1.grows
    by_cases hseen : seen.contains d.name = true
    · rw [if_pos hseen]
      refine .lift_bind ?_
      have htakes : run₁.Takes library o 0 [] _ := (Run.Takes.refl run₁).fault id
        (show (Notice.fault (.handlerRedefined d.name state) d.span).isLookup = false from rfl)
      refine (resolveHandlers_gives state rest (d.name :: seen) (hn₁.grows htakes.grows)).bind
        fun ids run' hrest => .pure (.inr ?_)
      exact (run₁.wrong_fault id).mono hrest.1.notices
    · rw [if_neg hseen]
      refine (ih (d.name :: seen) hn₁).bind fun ids run' hrest => .pure ?_
      obtain ⟨hothers, hnodup⟩ | hwrong := hrest
      on_goal 2 => exact .inr hwrong
      refine .inl ⟨?_, ?_⟩
      · refine List.forall_mem_cons.mpr ⟨by simpa using hseen, fun e he hmem => ?_⟩
        exact hothers e he (List.mem_cons_of_mem _ hmem)
      · refine List.nodup_cons.mpr ⟨fun hmem => ?_, hnodup⟩
        obtain ⟨e, he, heq⟩ := List.mem_map.mp hmem
        exact hothers e he (heq ▸ List.mem_cons_self)

theorem resolveState_apart {d : StateDecl} {id : NodeId} (hn : env.Names library o run.tree)
    (hs : run.tree.HasState d id) :
    (resolveState env d id).Gives run fun _ run' => (d.handlers.map (·.name)).Nodup ∨ run'.Wrong := by
  unfold resolveState
  refine ((resolveHandlers_apart d.name d.handlers [] hn).and
    (resolveHandlers_gives d.name d.handlers [] hn)).bind fun handlers run₁ hmade => ?_
  obtain ⟨hapart, hreads, -⟩ := hmade
  obtain ⟨s, hkind, -⟩ := hs.fills hreads.grows List.not_mem_nil
  refine .get_bind ?_
  rw [hkind]
  exact ⟨(), _, rfl, hapart.imp_left And.right⟩

theorem resolveStates_apart (xs : List (StateDecl × NodeId)) (hn : env.Names library o run.tree)
    (hxs : ∀ x ∈ xs, run.tree.HasState x.1 x.2) (hd : (xs.map (·.2)).Nodup) :
    (xs.forM fun x => resolveState env x.1 x.2).Gives run fun _ run' =>
      (∀ x ∈ xs, (x.1.handlers.map (·.name)).Nodup) ∨ run'.Wrong := by
  induction xs generalizing run with
  | nil => exact .pure (.inl (by simp))
  | cons x rest ih =>
    rw [List.map_cons, List.nodup_cons] at hd
    have hx := hxs x List.mem_cons_self
    refine Gives.bind ((resolveState_apart hn hx).and (resolveState_gives hn hx)) fun _ run₁ hone => ?_
    obtain ⟨hapart, hreads, -⟩ := hone
    have hrest : ∀ y ∈ rest, run₁.tree.HasState y.1 y.2 := fun y hy => by
      refine (hxs y (List.mem_cons_of_mem _ hy)).fills hreads.grows fun heq => hd.1 ?_
      exact List.mem_map.mpr ⟨y, hy, List.mem_singleton.mp heq⟩
    have hn₁ := hn.grows hreads.grows
    refine ((ih hn₁ hrest hd.2).and (resolveStates_gives rest hn₁ hrest hd.2)).mono
      fun _ run' hlater => ?_
    obtain ⟨hothers, hreads', -⟩ := hlater
    rcases hapart with hone | hwrong
    · exact hothers.imp_left fun h => List.forall_mem_cons.mpr ⟨hone, h⟩
    · exact .inr (hwrong.mono hreads'.notices)

/-! ### The whole script -/

/-- Nothing is declared twice. -/
structure Script.Apart (script : Script) : Prop where
  functions : (script.functions.map (·.name)).Nodup
  states : (script.states.map (·.name)).Nodup
  /-- No named state is called like the default state. -/
  named : defaultStateName ∉ script.states.map (·.name)
  handlers : ∀ d ∈ script.allStates, (d.handlers.map (·.name)).Nodup

/-- The default state has its fixed name. -/
theorem declareDefaultState_names (script : Script) (run : Run) :
    ((declareDefaultState script run).1.1.lookup defaultStateName).isSome = true
      ∨ (declareDefaultState script run).2.Wrong := by
  unfold declareDefaultState
  cases script.defaultState with
  | some d => exact .inl (by simp [Check.bind_run, Check.pure_run])
  | none => exact .inr ⟨_, List.mem_append_right _ List.mem_cons_self, rfl⟩

/-- The names of what is declared before the bodies. -/
theorem openScript_apart {warnUnused : Bool} {n : ScriptNode}
    (h : openScript library warnUnused script {} = ((env, n), run)) :
    (script.functions.map (·.name)).Nodup ∧ (script.states.map (·.name)).Nodup
      ∧ defaultStateName ∉ script.states.map (·.name) ∨ run.Wrong := by
  unfold openScript at h
  obtain ⟨hfun, -, hfunNames, hdeclared⟩ : ({} : Run).Takes library script.outermost _ _ _
      ∧ _ ∧ _ ∧ _ := declareFunctions_takes script.functions [] {} Run.rooted_empty
  obtain ⟨-, hroot₁, hfunctions⟩ := declareAll_apart (fun _ => rfl)
    (declareFunctions_cons library) declareFunction_declares script.functions [] {} Run.rooted_empty
  rw [Check.bind_run] at h
  obtain ⟨⟨⟨functionNames, functions⟩, run₁⟩, hr₁⟩ :
    ∃ r, declareFunctions library [] script.functions {} = r := ⟨_, rfl⟩
  rw [hr₁] at hfun hfunNames hdeclared hroot₁ hfunctions
  simp only [hr₁] at h
  obtain ⟨hdef, -⟩ : run₁.Takes library script.outermost _ _ _ ∧ _ :=
    declareDefaultState_takes script run₁ hroot₁
  have hdefault := declareDefaultState_names script run₁
  rw [Check.bind_run] at h
  obtain ⟨⟨⟨stateNames, defaultState⟩, run₂⟩, hr₂⟩ : ∃ r, declareDefaultState script run₁ = r :=
    ⟨_, rfl⟩
  rw [hr₂] at hdef hdefault
  simp only [hr₂] at h
  have hroot₂ := hdef.grows.rooted hroot₁
  obtain ⟨hst, -⟩ : run₂.Takes library script.outermost _ _ _ ∧ _ :=
    declareStates_takes script.states stateNames run₂ hroot₂
  obtain ⟨-, -, hstates⟩ := declareAll_apart (fun _ => rfl) declareStates_cons
    declareNamedState_declares script.states stateNames run₂ hroot₂
  rw [Check.bind_run] at h
  obtain ⟨⟨⟨stateNames', states⟩, run₃⟩, hr₃⟩ :
    ∃ r, declareStates stateNames script.states run₂ = r := ⟨_, rfl⟩
  rw [hr₃] at hst hstates
  simp only [hr₃] at h
  let outer : Env := { library, warnUnused, functions := functionNames, states := stateNames' }
  have hlater := hdef.trans hst
  have hnames : outer.Names library script.outermost run₃.tree := by
    refine ⟨hfunNames, fun x hx => ?_, fun name => ?_, fun _ => rfl, fun _ => rfl, rfl⟩
    · obtain ⟨y, hy, rfl⟩ := List.mem_map.mp hx
      obtain ⟨f, hf, -⟩ := (hdeclared y hy).extends hlater.grows
      exact ⟨f, hf⟩
    · simp [outer, Surroundings.global?, Script.outermost]
  obtain ⟨hreads, -⟩ : run₃.ReadsAll library _ _ _ ∧ _ :=
    resolveGlobals_reads script.globals outer script.outermost run₃ hnames
      ((hfun.trans hlater).scopes ▸ .nil)
  have hend : run = (resolveGlobals outer script.globals run₃).2 := (congrArg Prod.snd h).symm
  rw [← hend] at hreads
  rcases hfunctions with ⟨-, hfunctions⟩ | hwrong
  · rcases hdefault with hdefault | hwrong
    · rcases hstates with ⟨hfree, hstates⟩ | hwrong
      · refine .inl ⟨hfunctions, hstates, fun hmem => ?_⟩
        obtain ⟨d, hd, hname⟩ := List.mem_map.mp hmem
        rw [← hname, hfree d hd] at hdefault
        cases hdefault
      · exact .inr (hwrong.mono hreads.notices)
    · exact .inr ((hwrong.mono hst.notices).mono hreads.notices)
  · exact .inr ((hwrong.mono hlater.notices).mono hreads.notices)

/-- The handlers of each state. -/
theorem resolveBodies_apart {n : ScriptNode} (h : env.Opens library script n run) :
    (resolveBodies env script n).Gives run fun _ run' => run.notices ⊆ run'.notices
      ∧ ((∀ d ∈ script.allStates, (d.handlers.map (·.name)).Nodup) ∨ run'.Wrong) := by
  obtain ⟨hnodup, hnodup', hapart⟩ := List.nodup_append.mp h.distinct
  obtain ⟨hdefault, hids, -⟩ := forall₂_states h.defaultState
  obtain ⟨hstates, hids', -⟩ := forall₂_states h.states
  have hother : ∀ s ∈ n.defaultState.toList ++ n.states, s ∉ script.functionNodes.map (·.2) := by
    intro s hs hf
    obtain ⟨x, hx, rfl⟩ := List.mem_map.mp hf
    exact h.function_ne_state hx hs
  unfold resolveBodies
  rw [h.functions, show script.functions.zip (script.functionNodes.map (·.2)) = script.functionNodes
    from zip_numberFunctions 0 script.functions]
  refine Gives.bind (resolveFunctions_gives script.functionNodes h.names h.declared
    (((numberFunctions_pairwise 0 script.functions).2.imp Nat.ne_of_lt).map _ fun _ _ h => h))
    fun _ run₁ hf => ?_
  obtain ⟨hreads₁, -⟩ := hf
  have hn₁ := h.names.grows hreads₁.grows
  have hdefault₁ : ∀ x ∈ script.defaultState.toList.zip n.defaultState.toList,
      run₁.tree.HasState x.1 x.2 := fun x hx =>
    (hdefault x hx).fills hreads₁.grows (hother _ (List.mem_append_left _ (List.of_mem_zip hx).2))
  refine Gives.bind ((resolveStates_apart _ hn₁ hdefault₁ (by rwa [hids])).and
    (resolveStates_gives _ hn₁ hdefault₁ (by rwa [hids]))) fun _ run₂ hd => ?_
  obtain ⟨hfirst, hreads₂, -⟩ := hd
  have hn₂ := hn₁.grows hreads₂.grows
  have hstates₂ : ∀ x ∈ script.states.zip n.states, run₂.tree.HasState x.1 x.2 := fun x hx => by
    refine ((hstates x hx).fills hreads₁.grows
      (hother _ (List.mem_append_right _ (List.of_mem_zip hx).2))).fills hreads₂.grows ?_
    rw [hids]
    exact fun hmem => hapart _ hmem _ (List.of_mem_zip hx).2 rfl
  refine Gives.bind ((resolveStates_apart _ hn₂ hstates₂ (by rwa [hids'])).and
    (resolveStates_gives _ hn₂ hstates₂ (by rwa [hids']))) fun _ run₃ hs => ?_
  obtain ⟨hothers, hreads₃, -⟩ := hs
  have hend : ∀ run₄, run₃.Takes library script.aroundBodies 0 [] run₄ →
      Gives (liftM (Check.alloc (.script n) script.span) : CheckBody NodeId) run₄ fun _ run' =>
        run.notices ⊆ run'.notices
          ∧ ((∀ d ∈ script.allStates, (d.handlers.map (·.name)).Nodup) ∨ run'.Wrong) := by
    intro run₄ htakes
    have hmore := htakes.notices
    refine .lift ⟨List.Subset.trans hreads₁.notices (List.Subset.trans hreads₂.notices
      (List.Subset.trans hreads₃.notices hmore)), ?_⟩
    rcases hfirst with hfirst | hwrong
    · rcases hothers with hothers | hwrong
      · refine .inl (List.forall_mem_append.mpr ⟨fun d hd => ?_, fun d hd => ?_⟩)
        · rw [← List.map_fst_zip (Nat.le_of_eq h.defaultState.length_eq)] at hd
          obtain ⟨x, hx, rfl⟩ := List.mem_map.mp hd
          exact hfirst x hx
        · rw [← List.map_fst_zip (Nat.le_of_eq h.states.length_eq)] at hd
          obtain ⟨x, hx, rfl⟩ := List.mem_map.mp hd
          exact hothers x hx
      · exact .inr (hwrong.mono hmore)
    · exact .inr (hwrong.mono (List.Subset.trans hreads₃.notices hmore))
  split
  · exact .lift_bind (hend _ (warnUnusedGlobals_takes _ _ run₃))
  · exact hend run₃ (.refl run₃)

/-- **Nothing is declared twice in a script without errors.** -/
theorem Script.apart_of_check {options : CheckOptions} {c : CheckedScript}
    (h : script.check library options = .ok c) (hok : c.hasErrors = false) : script.Apart := by
  obtain ⟨⟨⟨env, n⟩, run⟩, hopen⟩ : ∃ r, openScript library options.warnUnused script {} = r :=
    ⟨_, rfl⟩
  have hnames := openScript_apart hopen
  obtain ⟨root, run', hrun, hmore, hhandlers⟩ := resolveBodies_apart (openScript_opens hopen).opens
  have hresolve := (resolveScript_run hopen).trans hrun
  have hright : ¬ run'.Wrong := by
    rintro ⟨m, hm, hf⟩
    have hc : c.hasErrors = (run'.notices.any (·.isFault) || run'.tree.hasErrors root) := by
      unfold Script.check at h
      change ((resolveScript library options.warnUnused script) {} >>= fun r => _) = _ at h
      rw [hresolve] at h
      exact (Except.ok.inj h) ▸ rfl
    rw [hok, eq_comm, Bool.or_eq_false_iff, List.any_eq_false] at hc
    exact hc.1 m hm hf
  obtain ⟨hfunctions, hstates, hnamed⟩ := hnames.resolve_right fun hw => hright (hw.mono hmore)
  exact ⟨hfunctions, hstates, hnamed, hhandlers.resolve_right hright⟩

end Lsl
