/- # Generating code succeeds

The generator gives up on a tree that is out of shape: where an expression, a
scope or a declaration is missing, where a node is a part of itself, where
something is of type `void` that has to have a value. None of this happens on
the tree of a script without errors, since every node was made out of the parts
it asks for, before which they were made.

Key definitions: `Tree.Ready`.
Key theorems: `hostExprWithin_succeeds`, `hostBodyWithin_succeeds`,
`Script.generate_succeeds`.
-/
import Lsl.Generate.Script
import Lsl.Proofs.Check.ErrorFlags
import Lsl.Proofs.Generate.Steps
import Lsl.Proofs.Library.Constructed
import Lsl.Script.Build

namespace Lsl

variable {script : Script} {library : Catalog} {t : Tree} {roots : List NodeId}

open Generator

/-! ### Trees to generate from -/

/-- The tree is in shape, nothing in it is wrong, and what needs a value has a
type that has values. -/
structure Tree.Ready (script : Script) (library : Catalog) (t : Tree) (roots : List NodeId) : Prop
    extends t.Shaped script library roots where
  right : ∀ i, t.hasErrors i = false
  globals : ∀ d ∈ script.globals, d.ty ≠ .void
  locals : ∀ d ∈ script.locals, d.ty ≠ .void
  constants : library.Valued

namespace Tree.Ready

variable {id : Nat}

/-- A term is an expression, made after its parts, which are terms. -/
theorem expr? (h : t.Ready script library roots) (hid : t.IsTerm id) :
    ∃ e, t.expr? id = some e ∧ t.Bound library e
      ∧ ∀ c ∈ e.kind.children, t.IsTerm c ∧ c < id := by
  rcases hid with hs | hs
  · obtain ⟨k, hk, hsort⟩ := Option.map_eq_some_iff.mp hs
    cases k with
    | expr e =>
      obtain ⟨hterms, hbound⟩ := h.formed id _ hk
      refine ⟨e, expr?_eq_some.mpr hk, hbound, fun c hc => ⟨hterms c hc, ?_⟩⟩
      exact h.below id _ hk (by simp [NodeKind.sort]) (by simp [NodeKind.sort]) c hc
    | _ => cases hsort
  · obtain ⟨k, hk, hsort⟩ := Option.map_eq_some_iff.mp hs
    cases k with
    | error =>
      have := h.errors id hk
      rw [h.right] at this
      cases this
    | _ => cases hsort

theorem scope? (h : t.Ready script library roots) (hid : t.sort? id = some .scope) :
    ∃ c, t.scope? id = some c ∧ ∀ s ∈ c.statements, t.sort? s = some .stmt ∧ s < id := by
  obtain ⟨k, hk, hsort⟩ := Option.map_eq_some_iff.mp hid
  cases k with
  | scope c =>
    refine ⟨c, scope?_eq_some.mpr hk, fun s hs => ⟨h.formed id _ hk s hs, ?_⟩⟩
    exact h.below id _ hk (by simp [NodeKind.sort]) (by simp [NodeKind.sort]) s hs
  | _ => cases hsort

theorem stmt? (h : t.Ready script library roots) (hid : t.sort? id = some .stmt) :
    ∃ s, t.stmt? id = some s ∧ t.FormedStmt script s.kind ∧ ∀ c ∈ s.kind.children, c < id := by
  obtain ⟨k, hk, hsort⟩ := Option.map_eq_some_iff.mp hid
  cases k with
  | stmt s =>
    refine ⟨s, stmt?_eq_some.mpr hk, h.formed id _ hk, fun c hc => ?_⟩
    exact h.below id _ hk (by simp [NodeKind.sort]) (by simp [NodeKind.sort]) c hc
  | _ => cases hsort

/-- A local variable has a value. -/
theorem localType (h : t.Ready script library roots) {v : Variable}
    (hs : t.sort? id = some .stmt) (hv : t.var? id = some v) : v.ty ≠ .void := by
  obtain ⟨s, hs, hf, -⟩ := h.stmt? hs
  rw [Tree.var?, stmt?_eq_some.mp hs] at hv
  simp only [Option.bind_some, NodeKind.var?] at hv
  split at hv
  · rename_i w hk
    obtain rfl := Option.some.inj hv
    rw [hk] at hf
    obtain ⟨⟨d, hd, hty⟩, -⟩ := hf
    rw [← hty]
    exact h.locals d hd
  · cases hv

/-- A global variable has a value, and its initial value is a term. -/
theorem global? (h : t.Ready script library roots) (hid : t.sort? id = some .global) :
    ∃ v, t.var? id = some v ∧ v.ty ≠ .void ∧ ∀ c ∈ v.init, t.IsTerm c := by
  obtain ⟨k, hk, hsort⟩ := Option.map_eq_some_iff.mp hid
  cases k with
  | global v =>
    obtain ⟨⟨d, hd, hty⟩, hinit⟩ := h.formed id _ hk
    exact ⟨v, by simp [Tree.var?, hk, NodeKind.var?], hty ▸ h.globals d hd, hinit⟩
  | _ => cases hsort

end Tree.Ready

/-! ### Expressions -/

theorem absentValue_succeeds {ty : Ty} (h : ty ≠ .void) : (absentValue ty).Succeeds := by
  cases ty <;> first | exact absurd rfl h | exact .pure _

theorem expanded?_isSome {k : LibraryConstant} (h : k.ty ≠ .void) : ∃ e, k.expanded? = some e := by
  unfold LibraryConstant.expanded?
  cases hty : k.ty with
  | void => exact absurd hty h
  | _ => exact ⟨_, rfl⟩

/-- A name stands for something that has a value. -/
theorem referenceCode_succeeds (h : t.Ready script library roots) (inContainer : Bool)
    {name : String} {binding : Binding} {e : ExprNode} (hk : e.kind = .ref name binding)
    (hb : t.Bound library e) : (referenceCode t inContainer name e.ty binding).Succeeds := by
  simp only [Tree.Bound, hk] at hb
  cases binding with
  | global d | param d => exact .pure _
  | inner d =>
    obtain ⟨hs, v, hv, hty⟩ := hb
    simp only [referenceCode]
    split
    · exact absentValue_succeeds (hty ▸ h.localType hs hv)
    · exact (Succeeds.expect hv _ _).then fun var => .pure _
  | constant k =>
    simp only at hb
    obtain ⟨code, hcode⟩ := expanded?_isSome (h.constants k hb)
    simp only [referenceCode, hcode]
    split <;> exact .pure _

section Operands

variable {operand : OperandCode}

theorem callCode_succeeds {args : List NodeId} (ha : ∀ a ∈ args, ∀ pos, (operand pos a).Succeeds)
    (name : String) (ty : Ty) (target : CallTarget) :
    (callCode t operand name args ty target).Succeeds := by
  unfold callCode
  split
  · refine (Succeeds.mapM fun a hmem => ?_).then fun _ => .pure _
    exact (ha a hmem .value).then fun _ => .pure _
  · exact (Succeeds.mapM fun a hmem => ha a hmem .value).then fun _ => .pure _
  · exact (Succeeds.mapM fun a hmem => ha a hmem .nativeArgument).then fun _ => .pure _

theorem binaryCode_succeeds {left right : NodeId} (hl : ∀ pos, (operand pos left).Succeeds)
    (hr : ∀ pos, (operand pos right).Succeeds) (op : BinaryOp) (ty : Ty) (pos : Position) :
    (binaryCode t operand op left right ty pos).Succeeds := by
  unfold binaryCode
  simp only
  split
  · exact (hr .value).then fun _ => (hl .value).then fun _ => .pure _
  split
  · exact (hl .value).then fun _ => (hr .value).then fun _ => .pure _
  split
  · split
    · -- the old value is read only where the new one is used
      refine (hr .value).then fun _ => ?_
      split
      · split
        · exact .pure _
        · exact (Succeeds.call _).then fun _ => (hl .value).then fun _ => .pure _
      · exact .pure _
    · exact (hl .value).then fun _ => (hr .value).then fun _ => .pure _
  · exact (Succeeds.call _).then fun _ => (hr .value).then fun _ =>
      (hl .value).then fun _ => .pure _

end Operands

/-- **Terms have code.** The parts of an expression have smaller numbers, so its
number bounds its depth. -/
theorem hostExprWithin_succeeds (h : t.Ready script library roots) (inContainer : Bool) :
    ∀ (depth : Nat) (pos : Position) (id : NodeId), t.IsTerm id → id < depth →
      (hostExprWithin t inContainer depth pos id).Succeeds
  | 0, _, _, _, hlt => absurd hlt (Nat.not_lt_zero _)
  | depth + 1, pos, id, hid, hlt => by
    obtain ⟨e, he, hbound, hparts⟩ := h.expr? hid
    have operand : ∀ c ∈ e.kind.children, ∀ pos,
        (hostExprWithin t inContainer depth pos c).Succeeds := fun c hc pos =>
      hostExprWithin_succeeds h inContainer depth pos c (hparts c hc).1
        (Nat.lt_of_lt_of_le (hparts c hc).2 (Nat.le_of_lt_succ hlt))
    rw [hostExprWithin, he]
    refine (Succeeds.expect rfl _ _).bind fun e' he' => ?_
    obtain rfl := Option.some.inj (he'.expect)
    rcases e with ⟨kind, ty, constant⟩
    cases kind with
    | integer | hex | float | string => exact .pure _
    | vector x y z => exact (Succeeds.mapM fun c hc => operand c hc .component).then fun _ => .pure _
    | rotation x y z s =>
      exact (Succeeds.mapM fun c hc => operand c hc .component).then fun _ => .pure _
    | list items => exact (Succeeds.mapM fun c hc => operand c hc .value).then fun _ => .pure _
    | ref name binding => exact referenceCode_succeeds h inContainer rfl hbound
    | call name args target => exact callCode_succeeds operand name ty target
    | binary op left right =>
      exact binaryCode_succeeds (operand left (by simp [ExprKind.children]))
        (operand right (by simp [ExprKind.children])) op ty pos
    | component inner | prefixed _ inner | postfixed _ inner | cast _ inner | paren inner =>
      exact (operand inner (by simp [ExprKind.children]) .value).then fun _ => .pure _

theorem hostExpr_succeeds (h : t.Ready script library roots) (inContainer : Bool) (pos : Position)
    {id : NodeId} (hid : t.IsTerm id) : (hostExpr t inContainer pos id).Succeeds :=
  hostExprWithin_succeeds h inContainer _ pos id hid (Nat.lt_succ_of_lt hid.has)

theorem hostStatement_succeeds (h : t.Ready script library roots) {id : NodeId}
    (hid : t.IsTerm id) : (hostStatement t id).Succeeds := by
  obtain ⟨e, he, -⟩ := h.expr? hid
  refine (Succeeds.expect he _ _).then fun e => ?_
  split
  · exact hostExpr_succeeds h false .statement hid
  · exact (hostExpr_succeeds h false .value hid).then fun _ => .pure _

theorem hostCondition_succeeds (h : t.Ready script library roots) {id : NodeId}
    (hid : t.IsTerm id) : (hostCondition t id).Succeeds :=
  (hostExpr_succeeds h false .value hid).then fun _ => .pure _

/-! ### Bodies -/

theorem defaultValue_succeeds {ty : Ty} (h : ty ≠ .void) : (defaultValue ty).Succeeds := by
  cases ty <;> first | exact absurd rfl h | exact .pure _

theorem initialValue_succeeds (h : t.Ready script library roots) (inContainer : Bool)
    {v : Variable} (hty : v.ty ≠ .void) (hinit : ∀ c ∈ v.init, t.IsTerm c) :
    (initialValue t inContainer v).Succeeds := by
  unfold initialValue
  split
  · rename_i init hi
    exact hostExpr_succeeds h inContainer .value (hinit init hi)
  · exact defaultValue_succeeds hty

theorem hostOption_succeeds {code : NodeId → Generator HostExpr} {value : Option NodeId}
    (hc : ∀ c ∈ value, (code c).Succeeds) : (hostOption code value).Succeeds := by
  cases value with
  | none => exact .pure _
  | some c => exact (hc c rfl).then fun _ => .pure _

/-- A well-formed statement has code if the scopes in it have. -/
theorem stmtCode_succeeds (h : t.Ready script library roots) (checkpoints : Bool) {body : BodyCode}
    {k : StmtKind} (hf : t.FormedStmt script k)
    (hbody : ∀ c ∈ k.children, t.sort? c = some .scope → (body c).Succeeds) :
    (stmtCode t checkpoints body k).Succeeds := by
  have statements : ∀ l : List NodeId, (∀ c ∈ l, t.IsTerm c) → (l.mapM (hostStatement t)).Succeeds :=
    fun l hl => Succeeds.mapM fun c hc => hostStatement_succeeds h (hl c hc)
  cases k with
  | empty | jump | label | stateChange => exact .pure _
  | expr value =>
    simp only [stmtCode]
    split
    · exact (hostStatement_succeeds h hf).then fun _ => .pure _
    · exact .pure _
  | declare v =>
    obtain ⟨⟨d, hd, hty⟩, hinit⟩ := hf
    exact (initialValue_succeeds h false (hty ▸ h.locals d hd) hinit).then fun _ => .pure _
  | ret value =>
    refine (hostOption_succeeds fun c hc => ?_).then fun _ => .pure _
    exact hostExpr_succeeds h false .value (hf c hc)
  | branch cond thenScope elseIfs elseScope =>
    obtain ⟨hcond, hthen, harms, helse⟩ := hf
    refine (hostCondition_succeeds h hcond).then fun _ => ?_
    refine (hbody thenScope (by simp [StmtKind.children]) hthen).then fun _ => ?_
    refine (Succeeds.mapM fun arm harm => ?_).then fun _ => ?_
    · refine (hostCondition_succeeds h (harms arm harm).1).then fun _ => ?_
      refine (hbody arm.2 ?_ (harms arm harm).2).then fun _ => .pure _
      simp only [StmtKind.children, List.cons_append, List.mem_cons, List.mem_append,
        List.mem_flatMap]
      exact .inr (.inr (.inl ⟨arm, harm, .inr (.inl rfl)⟩))
    · cases elseScope with
      | none => exact .pure _
      | some last =>
        exact (hbody last (by simp [StmtKind.children]) (helse last rfl)).then fun _ => .pure _
  | whileLoop cond scope =>
    refine (hostCondition_succeeds h hf.1).then fun _ => ?_
    exact (hbody scope (by simp [StmtKind.children]) hf.2.sort?).then fun _ => .pure _
  | doWhile scope cond =>
    refine (hbody scope (by simp [StmtKind.children]) hf.2.sort?).then fun _ => ?_
    exact (hostCondition_succeeds h hf.1).then fun _ => .pure _
  | forLoop init cond step scope =>
    obtain ⟨hinit, hcond, hstep, hscope⟩ := hf
    refine (statements init hinit).then fun _ => ?_
    refine (hostOption_succeeds fun c hc => hostCondition_succeeds h (hcond c hc)).then fun _ => ?_
    refine (statements step hstep).then fun _ => ?_
    exact (hbody scope (by simp [StmtKind.children]) hscope.sort?).then fun _ => .pure _
  | block scope => exact (hbody scope (by simp [StmtKind.children]) hf).then fun _ => .pure _

/-- **Scopes have code**, since a scope inside another has a smaller number. -/
theorem hostBodyWithin_succeeds (h : t.Ready script library roots) (checkpoints : Bool) :
    ∀ (depth : Nat) (id : NodeId), t.sort? id = some .scope → id < depth →
      (hostBodyWithin t checkpoints depth id).Succeeds
  | 0, _, _, hlt => absurd hlt (Nat.not_lt_zero _)
  | depth + 1, id, hid, hlt => by
    obtain ⟨scope, hscope, hstmts⟩ := h.scope? hid
    rw [hostBodyWithin, hscope]
    refine (Succeeds.expect rfl _ _).bind fun scope' hs' => ?_
    obtain rfl := Option.some.inj (hs'.expect)
    refine (Succeeds.mapM fun s hs => ?_).then fun _ => .pure _
    obtain ⟨hsort, hbelow⟩ := hstmts s hs
    obtain ⟨n, hn, hf, hparts⟩ := h.stmt? hsort
    rw [hostStmt, hn]
    refine (Succeeds.expect rfl _ _).bind fun n' hn' => ?_
    obtain rfl := Option.some.inj (hn'.expect)
    split
    · exact .pure _
    · refine stmtCode_succeeds h checkpoints hf fun c hc hsc => ?_
      have hlow : c < id := Nat.lt_trans (hparts c hc) hbelow
      exact hostBodyWithin_succeeds h checkpoints depth c hsc
        (Nat.lt_of_lt_of_le hlow (Nat.le_of_lt_succ hlt))

theorem hostBody_succeeds (h : t.Ready script library roots) (checkpoints : Bool) {id : NodeId}
    (hid : t.sort? id = some .scope) : (hostBody t checkpoints id).Succeeds :=
  hostBodyWithin_succeeds h checkpoints _ id hid (Nat.lt_succ_of_lt (Tree.has_of_sort? hid))

/-! ### Scripts -/

theorem hostFields_succeeds (h : t.Ready script library roots) {globals : List NodeId}
    (hg : ∀ g ∈ globals, t.sort? g = some .global) : (hostFields t globals).Succeeds := by
  refine Succeeds.bind (Succeeds.mapM fun g hmem => ?_) fun vars hvars => Succeeds.mapM fun v hv => ?_
  · obtain ⟨v, hv, -⟩ := h.global? (hg g hmem)
    exact Succeeds.expect hv _ _
  · obtain ⟨g, hmem, hgv⟩ := hvars.mem_mapM v (List.mem_of_mem_filter hv)
    obtain ⟨w, hw, hty, hinit⟩ := h.global? (hg g hmem)
    obtain rfl : w = v := Option.some.inj (hw.symm.trans hgv.expect)
    exact (initialValue_succeeds h true hty hinit).then fun _ => .pure _

theorem hostParams_succeeds {params : List NodeId} (hp : ∀ q ∈ params, t.sort? q = some .param) :
    (params.mapM (hostParam t)).Succeeds := by
  refine Succeeds.mapM fun q hq => ?_
  obtain ⟨v, hv⟩ := Tree.var?_of_declaration (.inr (hp q hq))
  exact (Succeeds.expect hv _ _).then fun _ => .pure _

theorem hostFunctions_succeeds (h : t.Ready script library roots) (checkpoints : Bool)
    {functions : List NodeId}
    (hf : ∀ f ∈ functions, ∃ g, t.function? f = some g ∧ g.body.isSome = true) :
    (hostFunctions t checkpoints functions).Succeeds := by
  refine Succeeds.mapM fun g hg => ?_
  obtain ⟨f, hmem, hfg⟩ := List.mem_filterMap.mp (List.mem_of_mem_filter hg)
  obtain ⟨g', hg', hbody⟩ := hf f hmem
  obtain rfl := Option.some.inj (hfg.symm.trans hg')
  obtain ⟨hparams, hscope⟩ := h.formed f _ (Tree.function?_eq_some.mp hfg)
  obtain ⟨body, hb⟩ := Option.isSome_iff_exists.mp hbody
  refine (hostParams_succeeds hparams).then fun _ => ?_
  rw [hb]
  exact (hostBody_succeeds h checkpoints (hscope body hb).sort?).then fun _ => .pure _

theorem hostState_succeeds (h : t.Ready script library roots) (checkpoints : Bool) {id : NodeId}
    (hid : t.sort? id = some .state) : (hostState t checkpoints id).Succeeds := by
  obtain ⟨k, hk, hsort⟩ := Option.map_eq_some_iff.mp hid
  cases k with
  | state s =>
    rw [hostState, hk]
    refine Succeeds.mapM fun x hx => ?_
    obtain ⟨k', hk', hsort'⟩ := Option.map_eq_some_iff.mp (h.formed id _ hk x hx)
    cases k' with
    | handler n =>
      obtain ⟨hparams, hscope⟩ := h.formed x _ hk'
      rw [hostHandler, hk']
      refine (hostParams_succeeds hparams).then fun _ => ?_
      exact (hostBody_succeeds h checkpoints hscope.sort?).then fun _ => .pure _
    | _ => cases hsort'
  | _ => cases hsort

variable {p : Progress} {root : NodeId} {n : ScriptNode}

/-- Where no error is reported there is code for every member. -/
theorem Finished.hostUnit_succeeds (h : Finished script library p root n)
    (hr : p.run.tree.Ready script library roots) (hn : ∀ m ∈ p.run.notices, m.isFault = false)
    (checkpoints : Bool) : (hostUnit p.run.tree checkpoints n).Succeeds := by
  obtain ⟨hglobals, -, hdefault, hstates⟩ := hr.formed root _ h.kind
  refine (hostFields_succeeds hr hglobals).then fun _ => ?_
  refine (hostFunctions_succeeds hr checkpoints h.bodies).then fun _ => ?_
  refine (Succeeds.mapM fun s hs => hostState_succeeds hr checkpoints (hstates s hs)).then fun _ => ?_
  cases hd : n.defaultState with
  | none => exact absurd (hn _ (h.missing hd)) (by simp [Notice.isFault])
  | some state =>
    exact (hostState_succeeds hr checkpoints (hdefault state hd)).then fun _ =>
      Succeeds.get.then fun _ => .pure _

/-- **A script without errors has code**, under all settings, as long as the
script declares no variable of type `void` and the library can be constructed. -/
theorem Script.generate_succeeds {options : CheckOptions} {c : CheckedScript}
    (hlibrary : library.Constructed) (hglobals : ∀ d ∈ script.globals, d.ty ≠ .void)
    (hlocals : ∀ d ∈ script.locals, d.ty ≠ .void) (h : script.check library options = .ok c)
    (hok : c.hasErrors = false) (settings : Settings) :
    ∃ text, c.generate settings = .ok text := by
  obtain ⟨p, n, hfinished, htree, herrors, -⟩ := Script.check_acts h
  rw [hok, eq_comm, Bool.or_eq_false_iff, List.any_eq_false] at herrors
  have hn : ∀ m ∈ p.run.notices, m.isFault = false := fun m hm => by simpa using herrors.1 m hm
  have hright : ∀ i, p.run.tree.hasErrors i = false := by
    intro i
    by_contra hi
    obtain ⟨m, hm, hmark⟩ := (Acts.flagged hfinished.acts).told i (by simpa using hi)
    simp [Notice.marks_of_isFault (hn m hm)] at hmark
  have hready : p.run.tree.Ready script library p.roots :=
    { Acts.shaped hfinished.acts with
      right := hright, globals := hglobals, locals := hlocals, constants := hlibrary.valued }
  obtain ⟨unit, called, hunit⟩ :=
    hfinished.hostUnit_succeeds hready hn settings.coopTermination []
  refine ⟨unit.render settings, ?_⟩
  have hmembers : c.hostUnit settings = .ok unit := by
    rw [CheckedScript.hostUnit, hok, ← htree, hfinished.kind]
    exact congrArg (Prod.fst <$> ·) hunit
  rw [CheckedScript.generate, hmembers]
  rfl

open Build in
/-- A script that jumps over the declaration of a variable and then reads it. -/
def skippedLocal : Script :=
  scriptWithEntry [jump "over", declare .integer "x" none, label "over",
    exprStmt (call "llOwnerSay" [cast .string (ident "x")])]

theorem Script.generate_skippedLocal :
    (∀ d ∈ skippedLocal.globals, d.ty ≠ .void) ∧ (∀ d ∈ skippedLocal.locals, d.ty ≠ .void)
      ∧ ∃ c, skippedLocal.check .standard {} = .ok c ∧ c.hasErrors = false
        ∧ ∃ text, c.generate {} = .ok text := by
  have hglobals : ∀ d ∈ skippedLocal.globals, d.ty ≠ .void := by decide
  have hlocals : ∀ d ∈ skippedLocal.locals, d.ty ≠ .void := by decide
  have hcheck : (skippedLocal.check .standard {}).toOption.any (!·.hasErrors) = true := by
    decide +kernel
  obtain ⟨c, hc, hok⟩ := exists_ok_of_any hcheck
  have hok : c.hasErrors = false := by simpa using hok
  exact ⟨hglobals, hlocals, c, hc, hok,
    Script.generate_succeeds .standard hglobals hlocals hc hok {}⟩

end Lsl
