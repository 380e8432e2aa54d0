/- # Where methods come from

The methods of a generated unit are the functions of the script that are called
and its event handlers. Each has the code of a body that was resolved, so what is
known of the places in the code of a body is known of the places in a method.

Key definitions: `Run.Emitted`.
Key theorems: `Run.Clean.emitted`, `Run.Emitted.stands`.
-/
import Lsl.Proofs.Generate.Emission
import Lsl.Proofs.Scoping.Clean

namespace Lsl

variable {script : Script} {library : Catalog} {run : Run} {root : NodeId} {n : ScriptNode}
  {checkpoints : Bool} {u : HostUnit} {m : HostMethod}

open Generator

/-! ### The members of a unit -/

/-- Where the members of a unit come from. -/
structure HostUnit.MembersOf (t : Tree) (checkpoints : Bool) (n : ScriptNode) (u : HostUnit) :
    Prop where
  globals : (hostFields t n.globals).Gives u.globals
  functions : (hostFunctions t checkpoints n.functions).Gives u.functions
  states : ∀ m ∈ u.states.flatten ++ u.defaultState, ∃ s ∈ n.allStates, ∃ ms,
    (hostState t checkpoints s).Gives ms ∧ m ∈ ms

theorem hostUnit_members {t : Tree} (h : (hostUnit t checkpoints n).Gives u) :
    u.MembersOf t checkpoints n := by
  obtain ⟨globals, hglobals, h⟩ := h.bind
  obtain ⟨functions, hfunctions, h⟩ := h.bind
  obtain ⟨states, hstates, h⟩ := h.bind
  rcases hd : n.defaultState with _ | d
  · rw [hd] at h
    exact absurd h not_gives_throw
  · rw [hd] at h
    obtain ⟨ms, hms, h⟩ := h.bind
    obtain ⟨operations, -, h⟩ := h.bind
    obtain rfl := h.pure
    refine ⟨hglobals, hfunctions, fun m hm => ?_⟩
    rcases List.mem_append.mp hm with hm | hm
    · obtain ⟨handlers, hmem, hm⟩ := List.mem_flatten.mp hm
      obtain ⟨s, hs, hhandlers⟩ := hstates.mem_mapM handlers hmem
      exact ⟨s, List.mem_append_right _ hs, handlers, hhandlers, hm⟩
    · exact ⟨d, List.mem_append_left _ (by simp [hd]), ms, hms, hm⟩

/-- The method has the code of a body, which is a part of the script. -/
structure Run.Emitted (script : Script) (root : NodeId) (checkpoints : Bool) (m : HostMethod)
    (rules : Rules) (o : Surroundings) (block : Block) (body : NodeId) (run : Run) : Prop where
  code : (hostBody run.tree checkpoints body).Gives m.body
  callable : run.tree.IsScope (·.isCallableBody) body
  holds : run.HoldsBody rules o block body
  functions : o.functions = script.aroundBodies.functions
  globals : o.globals = script.aroundBodies.globals
  params : ∀ x ∈ o.params, ∃ ty, (ty, x.1) ∈ m.params
  within : run.tree.Within body root
  outermost : ∃ q, run.tree.parent? body = some q ∧ ¬ run.tree.InBody q

/-- The parameters of a method have their names. -/
theorem mem_hostParams {t : Tree} {vars : List (String × NodeId)} {params : List (Ty × String)}
    (hv : t.HasVars vars) (h : ((vars.map (·.2)).mapM (hostParam t)).Gives params) :
    ∀ x ∈ vars, ∃ ty, (ty, x.1) ∈ params := by
  intro x hx
  obtain ⟨b, hb, hparam⟩ := exists_of_forall₂_left h.mapM (List.mem_map_of_mem hx)
  obtain ⟨v, hvar, hparam⟩ := hparam.bind
  obtain rfl := hparam.pure
  obtain ⟨v', hv', hname⟩ := hv x hx
  obtain rfl := Option.some.inj (hvar.expect.symm.trans hv')
  exact ⟨v.ty, hname ▸ hb⟩

namespace Run.Clean

theorem emitted_function (h : run.Clean library script root n) {f : FunctionNode}
    (hf : f ∈ n.functions.filterMap run.tree.function?)
    (hm : (hostFunction run.tree checkpoints f).Gives m) :
    ∃ rules o block body, run.Emitted script root checkpoints m rules o block body := by
  obtain ⟨roots, hshape⟩ := h.shaped
  obtain ⟨id, hid, hf⟩ := List.mem_filterMap.mp hf
  obtain ⟨x, hx, rfl⟩ := List.mem_map.mp (h.functionIds ▸ hid)
  obtain ⟨f', body, hf', -, -, hparams, hvars, hbody, hholds, -⟩ := h.functions x hx
  obtain rfl := Option.some.inj (hf.symm.trans hf')
  have hparent : run.tree.parent? body = some x.2 := by
    refine hshape.links x.2 body ?_
    rw [Tree.children_of_kind? (Tree.function?_eq_some.mp hf)]
    simp [NodeKind.children, hbody]
  have hroot : run.tree.parent? x.2 = some root := by
    refine hshape.links root x.2 ?_
    rw [Tree.children_of_kind? h.kind]
    simp [NodeKind.children, hid]
  obtain ⟨params, hps, hm⟩ := hm.bind
  rw [hparams] at hps
  rw [hbody] at hm
  obtain ⟨code, hcode, hm⟩ := hm.bind
  obtain rfl := hm.pure
  refine ⟨_, _, _, body, hcode, (hshape.formed x.2 _ (Tree.function?_eq_some.mp hf)).2 body hbody,
    hholds, rfl, rfl, mem_hostParams hvars hps,
    .head hparent (.of_parent hroot), x.2, hparent, ?_⟩
  rintro ⟨sort, hsort, hin⟩
  rw [Tree.sort?_of_kind? (Tree.function?_eq_some.mp hf)] at hsort
  cases hsort
  cases hin

theorem emitted_handler (h : run.Clean library script root n) {s : NodeId} {ms : List HostMethod}
    (hs : s ∈ n.allStates) (hms : (hostState run.tree checkpoints s).Gives ms) (hm : m ∈ ms) :
    ∃ rules o block body, run.Emitted script root checkpoints m rules o block body := by
  obtain ⟨roots, hshape⟩ := h.shaped
  obtain ⟨d, -, node, hkind, -, hhandlers, -⟩ := exists_of_forall₂_right h.states hs
  rw [hostState, hkind] at hms
  obtain ⟨id, hid, hm⟩ := hms.mem_mapM m hm
  obtain ⟨d', -, first, e, hk, -, hparams, hvars, hholds⟩ := exists_of_forall₂_right hhandlers hid
  have hparent : run.tree.parent? e.body = some id := by
    refine hshape.links id e.body ?_
    rw [Tree.children_of_kind? hk]
    simp [NodeKind.children]
  have hin : run.tree.parent? id = some s := by
    refine hshape.links s id ?_
    rw [Tree.children_of_kind? hkind]
    exact hid
  have hroot : run.tree.parent? s = some root := by
    refine hshape.links root s ?_
    rw [Tree.children_of_kind? h.kind]
    rcases List.mem_append.mp hs with hs | hs
    · simp only [NodeKind.children, List.mem_append]
      exact .inl (.inr hs)
    · exact List.mem_append_right _ hs
  rw [hostHandler, hk] at hm
  obtain ⟨params, hps, hm⟩ := hm.bind
  rw [hparams] at hps
  obtain ⟨code, hcode, hm⟩ := hm.bind
  obtain rfl := hm.pure
  refine ⟨_, _, _, e.body, hcode, (hshape.formed id _ hk).2, hholds, rfl, rfl, mem_hostParams hvars hps,
    .head hparent (.head hin (.of_parent hroot)), id, hparent, ?_⟩
  rintro ⟨sort, hsort, hbody⟩
  rw [Tree.sort?_of_kind? hk] at hsort
  cases hsort
  cases hbody

/-- **Every method comes from a body.** -/
theorem emitted (h : run.Clean library script root n)
    (hu : (hostUnit run.tree checkpoints n).Gives u) (hm : m ∈ u.methods) :
    ∃ rules o block body, run.Emitted script root checkpoints m rules o block body := by
  have hmembers := hostUnit_members hu
  rw [HostUnit.methods, List.append_assoc] at hm
  rcases List.mem_append.mp hm with hm | hm
  · obtain ⟨f, hf, hm⟩ := hmembers.functions.mem_mapM m hm
    exact h.emitted_function (List.mem_of_mem_filter hf) hm
  · obtain ⟨s, hs, ms, hms, hm⟩ := hmembers.states m hm
    exact h.emitted_handler hs hms hm

end Run.Clean

namespace Run.Emitted

variable {rules : Rules} {o : Surroundings} {block : Block} {body : NodeId}

/-- The scope of a body lies in no other scope. -/
theorem eq_of_within (h : run.Emitted script root checkpoints m rules o block body) {roots : List NodeId}
    (hshape : run.tree.Shaped script library roots) {y : NodeId} {c : CodeScope}
    (hc : run.tree.scope? y = some c) (hin : run.tree.Within body y) : y = body := by
  obtain ⟨q, hq, hout⟩ := h.outermost
  rcases Relation.ReflTransGen.cases_head hin with rfl | ⟨q', hq', hrest⟩
  · rfl
  · obtain rfl := Option.some.inj (hq.symm.trans hq')
    exact absurd (hshape.inBody_of_within hrest (Tree.inBody_of_scope? hc)).1 hout

/-- The scope of the body, with its code, its layout and its labels. -/
theorem laysOut (h : run.Emitted script root checkpoints m rules o block body) :
    ∃ c scopes labels, run.tree.scope? body = some c ∧ run.tree.Emits c.statements m.body
      ∧ run.tree.Scoped rules o run.Wrong [{ scopeId := c.scopeId }] c.statements
      ∧ run.tree.Visits c.statements scopes labels ∧ (c.scopeId :: scopes).Nodup
      ∧ List.Forall₂ (fun l site => run.tree.labelSite? l = some site) labels block.labelSites := by
  obtain ⟨last, first, harms, hat, -⟩ := h.holds
  obtain ⟨c, hc, hscoped⟩ := harms.names body List.mem_cons_self
  obtain ⟨scopes, hscopes, hvisits⟩ := harms.visits.of_scope hc
  refine ⟨c, scopes, _, hc, hostBody_emits h.code hc, hscoped, hvisits, ?_, hat⟩
  rw [← hscopes]
  exact List.nodup_range'

/-- **Every place in a method is understood.** -/
theorem stands (h : run.Emitted script root checkpoints m rules o block body) {roots : List NodeId}
    (hshape : run.tree.Shaped script library roots) {spot : Spot} (hspot : spot ∈ m.spots) :
    spot.stmt = .checkpoint ∨ ∃ id s, run.tree.Stands rules o run.Wrong body spot id s := by
  obtain ⟨c, scopes, labels, hc, hemits, hscoped, -⟩ := h.laysOut
  refine hemits.stands hshape hscoped (x := body) (fun s hs => ?_) (.refl body)
    (fun x hx => by cases hx) (fun y d hd hin => ?_) spot hspot
  · refine hshape.links body s ?_
    rw [Tree.children_of_kind? (Tree.scope?_eq_some.mp hc)]
    exact hs
  · obtain rfl := h.eq_of_within hshape hd hin
    obtain rfl := Option.some.inj (hc.symm.trans hd)
    exact ⟨m.body, List.mem_cons_self, hemits⟩

end Run.Emitted

/-! ### Generating code -/

namespace CheckedScript

variable {c : CheckedScript} {settings : Settings}

/-- The unit behind the text that is generated for a script. -/
theorem generate_eq_ok {text : String} :
    c.generate settings = .ok text ↔ ∃ u, c.hostUnit settings = .ok u ∧ text = u.render settings := by
  unfold generate
  cases hu : c.hostUnit settings with
  | error e => simp [bind, Except.bind]
  | ok u => simp [bind, Except.bind, pure, Except.pure, eq_comm]

/-- Code is generated only for scripts without errors. -/
theorem hasErrors_of_hostUnit (h : c.hostUnit settings = .ok u) : c.hasErrors = false := by
  unfold CheckedScript.hostUnit at h
  split at h
  · cases h
  · rename_i herrors
    simpa using herrors

end CheckedScript

/-- What can be computed of the unit of a script shows that code is generated. -/
theorem Script.exists_hostUnit {options : CheckOptions} {settings : Settings}
    {P : HostUnit → Bool} (h : (script.check library options).toOption.any
      (fun c => (c.hostUnit settings).toOption.any P) = true) :
    ∃ c u, script.check library options = .ok c ∧ c.hostUnit settings = .ok u
      ∧ c.generate settings = .ok (u.render settings) ∧ P u = true := by
  obtain ⟨c, hc, hunit⟩ := exists_ok_of_any h
  obtain ⟨u, hu, hP⟩ := exists_ok_of_any hunit
  exact ⟨c, u, hc, hu, CheckedScript.generate_eq_ok.mpr ⟨u, hu, rfl⟩, hP⟩

namespace Run.Clean

variable {c : CheckedScript} {settings : Settings}

/-- The unit of a script is generated with no operation called before. -/
theorem hostUnit_eq_ok (h : run.Clean library script c.root n) (htree : run.tree = c.tree)
    (hu : c.hostUnit settings = .ok u) :
    ∃ called, hostUnit run.tree settings.coopTermination n [] = .ok (u, called) := by
  rw [CheckedScript.hostUnit, CheckedScript.hasErrors_of_hostUnit hu, ← htree, h.kind] at hu
  cases hunit : hostUnit run.tree settings.coopTermination n [] with
  | error e => simp [StateT.run', hunit] at hu
  | ok p =>
    obtain rfl : p.1 = u := by simpa [StateT.run', hunit] using hu
    exact ⟨p.2, rfl⟩

/-- The members of a unit are those of the script. -/
theorem gives_hostUnit (h : run.Clean library script c.root n) (htree : run.tree = c.tree)
    (hu : c.hostUnit settings = .ok u) :
    (hostUnit run.tree settings.coopTermination n).Gives u := by
  obtain ⟨called, hu⟩ := h.hostUnit_eq_ok htree hu
  exact ⟨[], called, hu⟩

end Run.Clean

end Lsl
