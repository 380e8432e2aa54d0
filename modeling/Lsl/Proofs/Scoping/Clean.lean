/- # Scripts without errors

Nothing is marked in the tree of a script without errors, and every node is a
part of the script: of the initial value of a global, or of the body of a
function or an event handler. So what holds of these from the top down holds of
every node.

Key definitions: `Tree.Governed`, `Run.Clean`.
Key theorems: `Tree.Governed.within`, `Script.check_clean`, `Run.Clean.governed`.
-/
import Lsl.Proofs.Check.Connected
import Lsl.Proofs.Check.Landing
import Lsl.Proofs.Check.Uses
import Lsl.Proofs.Scoping.Scripts

namespace Lsl

variable {script : Script} {library : Catalog} {run : Run} {root : NodeId} {n : ScriptNode}

/-! ### From the top down -/

/-- The parts of a statement are expressions and scopes. -/
theorem StmtKind.term_or_arm {k : StmtKind} {c : NodeId} (h : c ∈ k.children) :
    c ∈ k.terms ∨ c ∈ k.arms := by
  cases k <;> simp_all [children, terms, arms] <;> grind

theorem StmtKind.terms_subset {k : StmtKind} : k.terms ⊆ k.children := by
  intro c hc
  cases k <;> simp_all [children, terms] <;> grind

namespace Tree

variable {rules : Rules} {o : Surroundings} {wrong : Prop} {t : Tree} {roots : List NodeId}
  {blocks : List BlockView} {visible : List (String × NodeId)} {i j : NodeId}

/-- What holds of a node of a body: of a scope, of a statement, and of an
expression. -/
structure Governed (t : Tree) (rules : Rules) (o : Surroundings) (wrong : Prop) (i : NodeId) :
    Prop where
  scope : ∀ c, t.scope? i = some c → ∃ blocks, t.Scoped rules o wrong blocks c.statements
  stmt : ∀ s, t.stmt? i = some s → ∃ blocks rest, t.Scoped rules o wrong blocks (i :: rest)
  term : t.IsTerm i → ∃ visible, t.Sees rules o visible i

theorem Scoped.of_mem {ids : List NodeId} (h : t.Scoped rules o wrong blocks ids) (hi : i ∈ ids) :
    ∃ blocks rest, t.Scoped rules o wrong blocks (i :: rest) := by
  induction h with
  | nil => cases hi
  | cons h hterms harms hin hplace hrest _ ih =>
    rcases List.mem_cons.mp hi with rfl | hi
    · exact ⟨_, _, .cons h hterms harms hin hplace hrest⟩
    · exact ih hi

theorem Sees.has_sort (h : t.Sees rules o visible i) :
    t.scope? i = none ∧ t.stmt? i = none := by
  cases h with
  | error h => simp [scope?, stmt?, h, NodeKind.scope?, NodeKind.stmt?]
  | expr e h => simp [scope?, stmt?, expr?_eq_some.mp h, NodeKind.scope?, NodeKind.stmt?]

theorem Sees.governed (h : t.Sees rules o visible i) : t.Governed rules o wrong i where
  scope c hc := by simp [h.has_sort.1] at hc
  stmt s hs := by simp [h.has_sort.2] at hs
  term _ := ⟨visible, h⟩

/-- What holds of a node holds of its parts. -/
theorem Governed.part (h : t.Governed rules o wrong j) (hshape : t.Shaped script library roots)
    (hj : t.InBody j) (hp : t.parent? i = some j) : t.Governed rules o wrong i := by
  obtain ⟨k, hk, -, hmem⟩ := hshape.owned i j hp
  obtain ⟨sort, hsort, hin⟩ := hj
  obtain rfl : k.sort = sort := Option.some.inj ((sort?_of_kind? hk).symm.trans hsort)
  have hi : i ∈ k.children :=
    hmem (fun hs => by simp [hs, NodeSort.inBody] at hin)
      (fun hs => by simp [hs, NodeSort.inBody] at hin)
  cases k with
  | scope c =>
    obtain ⟨blocks, hscoped⟩ := h.scope c (scope?_eq_some.mpr hk)
    obtain ⟨blocks, rest, hscoped⟩ := hscoped.of_mem hi
    cases hscoped with
    | cons hs hterms harms hin hplace hrest =>
      refine ⟨fun c hc => ?_, fun _ _ => ⟨_, _, .cons hs hterms harms hin hplace hrest⟩, fun ht => ?_⟩
      · simp [scope?, stmt?_eq_some.mp hs, NodeKind.scope?] at hc
      · simp [IsTerm, sort?_of_kind? (stmt?_eq_some.mp hs), NodeKind.sort] at ht
  | stmt s =>
    obtain ⟨blocks, rest, hscoped⟩ := h.stmt s (stmt?_eq_some.mpr hk)
    cases hscoped with
    | cons hs hterms harms hin hplace hrest =>
      obtain rfl := Option.some.inj ((stmt?_eq_some.mpr hk).symm.trans hs)
      rcases StmtKind.term_or_arm hi with hi | hi
      · exact (hterms i hi).governed
      · obtain ⟨c, hc⟩ := harms i hi
        refine ⟨fun c' hc' => ⟨_, hin i hi c' hc'⟩, fun s' hs' => ?_, fun ht => ?_⟩
        · simp [stmt?, scope?_eq_some.mp hc, NodeKind.stmt?] at hs'
        · simp [IsTerm, sort?_of_kind? (scope?_eq_some.mp hc), NodeKind.sort] at ht
  | expr e =>
    obtain ⟨visible, hsees⟩ := h.term (.inl (sort?_of_kind? hk))
    cases hsees with
    | error he => simp [hk] at he
    | expr e' he _ _ hparts =>
      obtain rfl := Option.some.inj ((expr?_eq_some.mpr hk).symm.trans he)
      exact (hparts i hi).governed
  | error => cases hi
  | _ => cases hin

theorem Governed.within (h : t.Governed rules o wrong j) (hshape : t.Shaped script library roots)
    (hj : t.InBody j) (hin : t.Within i j) : t.Governed rules o wrong i := by
  induction hin using Relation.ReflTransGen.head_induction_on with
  | refl => exact h
  | head hp hrest ih => exact ih.part hshape (hshape.inBody_of_within hrest hj).1 hp

end Tree

/-! ### Scripts without errors -/

/-- The script is resolved, and nothing is wrong with it. -/
structure Run.Clean (library : Catalog) (script : Script) (root : NodeId) (n : ScriptNode)
    (run : Run) : Prop extends run.HoldsScript library script root n where
  right : ¬ run.Wrong
  unmarked : ∀ i, run.tree.hasErrors i = false
  finished : ∃ p, Finished script library p root n ∧ p.run.tree = run.tree

/-- Without a fault nothing is marked, the whole script included. -/
theorem Script.hasErrors_eq_false {options : CheckOptions} {c : CheckedScript}
    (h : script.check library options = .ok c) (hok : ∀ m ∈ c.notices, m.isFault = false) :
    c.hasErrors = false := by
  obtain ⟨p, n, hfinished, htree, herrors, hperm⟩ := Script.check_acts h
  have hnone : ∀ m ∈ p.run.notices, m.isFault = false := fun m hm => hok m (hperm.mem_iff.mpr hm)
  rw [herrors, Bool.or_eq_false_iff]
  refine ⟨List.any_eq_false.mpr fun m hm => by simp [hnone m hm], ?_⟩
  by_contra hmarked
  rw [← htree] at hmarked
  obtain ⟨m, hm, hmark⟩ := (Acts.flagged hfinished.acts).told c.root (by simpa using hmarked)
  simp [Notice.marks_of_isFault (hnone m hm)] at hmark

/-- What a script without errors is resolved to. -/
theorem Script.check_clean {options : CheckOptions} {c : CheckedScript}
    (h : script.check library options = .ok c) (hok : c.hasErrors = false) :
    ∃ (run : Run) (n : ScriptNode), run.Clean library script c.root n ∧ run.tree = c.tree := by
  obtain ⟨c', run, n, hc', hholds, htree, -, herrors⟩ := script.check_holds library options
  obtain rfl : c' = c := Except.ok.inj (hc'.symm.trans h)
  obtain ⟨p, n', hfinished, htree', herrors', -⟩ := Script.check_acts h
  rw [hok, eq_comm, Bool.or_eq_false_iff, List.any_eq_false] at herrors herrors'
  obtain rfl : n' = n := by
    have hkind := hfinished.kind
    rw [htree', ← htree, hholds.kind] at hkind
    cases hkind
    rfl
  have hunmarked : ∀ i, run.tree.hasErrors i = false := by
    intro i
    rw [htree, ← htree']
    by_contra hi
    obtain ⟨m, hm, hmark⟩ := (Acts.flagged hfinished.acts).told i (by simpa using hi)
    simp [Notice.marks_of_isFault (by simpa using herrors'.1 m hm)] at hmark
  exact ⟨run, n', ⟨hholds, fun ⟨m, hm, hf⟩ => herrors.1 m hm hf, hunmarked, p, hfinished,
    htree'.trans htree.symm⟩, htree⟩

namespace Run.Clean

variable (h : run.Clean library script root n)

include h

theorem shaped : ∃ roots, run.tree.Shaped script library roots := by
  obtain ⟨p, hfinished, htree⟩ := h.finished
  exact ⟨p.roots, htree ▸ Acts.shaped hfinished.acts⟩

theorem notesUses : run.tree.NotesUses := by
  obtain ⟨p, hfinished, htree⟩ := h.finished
  exact htree ▸ Acts.notesUses hfinished.acts

/-- Every node is a part of the script. -/
theorem within_root {i : NodeId} (hi : run.tree.Has i) : run.tree.Within i root := by
  obtain ⟨p, hfinished, htree⟩ := h.finished
  have hfine : ¬ p.run.Faulty := fun hf => by
    obtain ⟨r, -, hr⟩ := (Acts.flagged hfinished.acts).kept hf
    rw [htree, h.unmarked] at hr
    cases hr
  rw [← htree] at hi ⊢
  exact hfinished.within_root hfine hi

theorem lands {j l : NodeId} (hjump : run.tree.Jumps j l) : run.tree.Lands j l := by
  have hj := h.within_root hjump.has
  obtain ⟨p, hfinished, htree⟩ := h.finished
  rw [← htree] at hj hjump ⊢
  exact hfinished.lands hj hjump

/-- A part of the script that is none of its declarations is a part of one of them. -/
theorem within_declaration {i : NodeId} (hi : run.tree.InBody i) :
    ∃ j ∈ (NodeKind.script n).children, ∃ c, run.tree.Within i c ∧ run.tree.parent? c = some j := by
  obtain ⟨sort, hsort, hin⟩ := hi
  obtain ⟨roots, hshape⟩ := h.shaped
  rcases (h.within_root (Tree.has_of_sort? hsort)).cases_tail with rfl | ⟨j, hij, hj⟩
  · rw [Tree.sort?_of_kind? h.kind] at hsort
    cases hsort
    cases hin
  obtain ⟨k, hk, ⟨sort', hsort', hholds⟩, hmem⟩ := hshape.owned j root hj
  obtain rfl := Option.some.inj (hk.symm.trans h.kind)
  refine ⟨j, hmem (by simp [NodeKind.sort]) (by simp [NodeKind.sort]), ?_⟩
  rcases hij.cases_tail with rfl | hrest
  · obtain rfl := Option.some.inj (hsort.symm.trans hsort')
    cases sort <;> simp_all [NodeSort.inBody, NodeSort.holds, NodeKind.sort]
  · exact hrest

end Run.Clean

theorem Tree.HasGlobals.mem {t : Tree} {rules : Rules} {o : Surroundings}
    {xs : List (VarDecl × NodeId)} (h : t.HasGlobals rules o xs) {x : VarDecl × NodeId}
    (hx : x ∈ xs) : ∃ o', t.HasGlobal rules o' x.1 x.2 := by
  induction xs generalizing o with
  | nil => cases hx
  | cons y rest ih =>
    rcases List.mem_cons.mp hx with rfl | hx
    · exact ⟨o, h.1⟩
    · exact ih h.2 hx

/-- Nothing lies within a parameter. -/
theorem Tree.Shaped.eq_of_within_param {t : Tree} {roots : List NodeId} {i p : NodeId}
    (h : t.Shaped script library roots) (hp : t.sort? p = some .param) (hin : t.Within i p) :
    i = p := by
  rcases hin.cases_tail with rfl | ⟨q, -, hq⟩
  · rfl
  · obtain ⟨k, hk, ⟨s, -, hholds⟩, -⟩ := h.owned q p hq
    have hk : k.sort = .param := Option.some.inj ((Tree.sort?_of_kind? hk).symm.trans hp)
    rw [hk] at hholds
    cases s <;> cases hholds

theorem Run.HoldsBody.governed {rules : Rules} {o : Surroundings} {block : Block} {body : NodeId}
    (h : run.HoldsBody rules o block body) :
    run.tree.InBody body ∧ run.tree.Governed rules o run.Wrong body := by
  obtain ⟨last, first, harms, -⟩ := h
  obtain ⟨c, hc, hscoped⟩ := harms.names body List.mem_cons_self
  refine ⟨Tree.inBody_of_scope? hc, fun c' hc' => ?_, fun s hs => ?_, fun ht => ?_⟩
  · obtain rfl := Option.some.inj (hc.symm.trans hc')
    exact ⟨_, hscoped⟩
  · simp [Tree.stmt?, Tree.scope?_eq_some.mp hc, NodeKind.stmt?] at hs
  · simp [Tree.IsTerm, Tree.sort?_of_kind? (Tree.scope?_eq_some.mp hc), NodeKind.sort] at ht

/-- The rules are those at the place of the node: values are returned only from
within functions. -/
structure Run.Ruled (library : Catalog) (run : Run) (i : NodeId) (rules : Rules) : Prop where
  library : rules.library = library
  returns : ∀ r ∈ rules.returns, ∃ f decl, run.tree.function? f = some decl
    ∧ decl.returnType = r ∧ run.tree.Within i f

namespace Run.Clean

variable {i c : NodeId} {roots : List NodeId}

/-- A part of the initial value of a global. -/
theorem governed_global (h : run.Clean library script root n)
    (hshape : run.tree.Shaped script library roots) {g : NodeId} (hg : g ∈ n.globals)
    (hic : run.tree.Within i c) (hc : run.tree.parent? c = some g) :
    ∃ o, run.tree.Governed (.ofGlobal library) o run.Wrong i := by
  obtain ⟨x, hx, rfl⟩ := List.mem_map.mp (h.globalIds ▸ hg)
  obtain ⟨o, v, hv, -, -, hsees, -⟩ := h.globals.mem hx
  obtain ⟨k, hk, hhold, hmem⟩ := hshape.owned c x.2 hc
  obtain rfl := Option.some.inj (hv.symm.trans hk)
  have hinit : c ∈ v.init :=
    Option.mem_toList.mp (hmem (by simp [NodeKind.sort]) (by simp [NodeKind.sort]))
  have hbody : run.tree.InBody c := by
    obtain ⟨sort, hsort, hholds⟩ := hhold
    refine ⟨sort, hsort, ?_⟩
    cases sort <;> simp_all [NodeSort.holds, NodeKind.sort, NodeSort.inBody]
  exact ⟨o, (hsees c hinit).governed.within hshape hbody hic⟩

/-- A part of a parameter or a body. -/
theorem governed_part (hshape : run.tree.Shaped script library roots)
    {rules : Rules} {o : Surroundings} {block : Block} {body : NodeId} {params : List NodeId}
    (hi : run.tree.InBody i) (hparams : ∀ q ∈ params, run.tree.sort? q = some .param)
    (hbody : run.HoldsBody rules o block body) (hc : c ∈ params ++ [body])
    (hic : run.tree.Within i c) : run.tree.Governed rules o run.Wrong i := by
  rcases List.mem_append.mp hc with hc | hc
  · obtain rfl := hshape.eq_of_within_param (hparams c hc) hic
    obtain ⟨sort, hsort, hin⟩ := hi
    rw [hparams i hc] at hsort
    cases hsort
    cases hin
  · rw [List.mem_singleton.mp hc] at hic
    exact hbody.governed.2.within hshape hbody.governed.1 hic

theorem governed_function (h : run.Clean library script root n)
    (hshape : run.tree.Shaped script library roots) {f : NodeId} (hf : f ∈ n.functions)
    (hi : run.tree.InBody i) (hic : run.tree.Within i c) (hc : run.tree.parent? c = some f) :
    ∃ rules o, run.tree.Governed rules o run.Wrong i ∧ run.Ruled library i rules := by
  obtain ⟨x, hx, rfl⟩ := List.mem_map.mp (h.functionIds ▸ hf)
  obtain ⟨decl, body, hdecl, -, hret, -, -, hbody, hholds, hexact⟩ := h.functions x hx
  have hkind := Tree.function?_eq_some.mp hdecl
  have hmem := hexact c hc
  rw [Tree.children_of_kind? hkind, NodeKind.children, hbody] at hmem
  refine ⟨_, _, governed_part hshape hi (hshape.formed _ _ hkind).1 hholds hmem hic, rfl, ?_⟩
  rintro r hr
  obtain rfl := Option.some.inj hr
  exact ⟨x.2, decl, hdecl, hret, hic.trans (.of_parent hc)⟩

theorem governed_state (h : run.Clean library script root n)
    (hshape : run.tree.Shaped script library roots) {s : NodeId} (hs : s ∈ n.allStates)
    (hi : run.tree.InBody i) (hic : run.tree.Within i c) (hc : run.tree.parent? c = some s) :
    ∃ rules o, run.tree.Governed rules o run.Wrong i ∧ run.Ruled library i rules := by
  obtain ⟨d, -, state, hkind, -, hhandlers, hexact⟩ := exists_of_forall₂_right h.states hs
  have hmem := hexact c hc
  rw [Tree.children_of_kind? hkind] at hmem
  obtain ⟨d', -, first, handler, hk, -, -, -, hholds⟩ := exists_of_forall₂_right hhandlers hmem
  obtain ⟨sort, hsort, hin⟩ := id hi
  rcases hic.cases_tail with rfl | ⟨q, hiq, hq⟩
  · rw [Tree.sort?_of_kind? hk] at hsort
    cases hsort
    cases hin
  obtain ⟨k, hk', -, hpart⟩ := hshape.owned q c hq
  obtain rfl := Option.some.inj (hk.symm.trans hk')
  refine ⟨_, _, governed_part hshape hi (hshape.formed _ _ hk).1 hholds
    (hpart (by simp [NodeKind.sort]) (by simp [NodeKind.sort])) hiq, rfl, ?_⟩
  rintro r hr
  cases hr

/-- **What holds from the top down holds of every node.** -/
theorem governed (h : run.Clean library script root n) (hi : run.tree.InBody i) :
    ∃ rules o, run.tree.Governed rules o run.Wrong i ∧ run.Ruled library i rules := by
  obtain ⟨roots, hshape⟩ := h.shaped
  obtain ⟨j, hj, c, hic, hc⟩ := h.within_declaration hi
  simp only [NodeKind.children, List.append_assoc, List.mem_append] at hj
  rcases hj with hj | hj | hj
  · obtain ⟨o, hgoverned⟩ := h.governed_global hshape hj hic hc
    refine ⟨_, o, hgoverned, rfl, ?_⟩
    rintro r hr
    cases hr
  · exact h.governed_function hshape hj hi hic hc
  · exact h.governed_state hshape (List.mem_append.mpr hj) hi hic hc

end Run.Clean

end Lsl
