/- # Type soundness

A script is accepted only if every node of its tree follows the rule of its
kind. A rule is not checked where an operand is wrong and its type unknown, and
an expression may lack a type for good reasons; but in the tree of a script
without errors no operand is wrong, so that no rule was passed over.

Key definitions: `Tree.Sound`.
Key theorems: `Run.Clean.lawful`, `Script.check_sound`.
-/
import Lsl.Proofs.Scoping.Clean
import Lsl.Script.Build

namespace Lsl

variable {script : Script} {library : Catalog} {run : Run} {root : NodeId} {n : ScriptNode}

/-- Every node of a tree follows the rule of its kind, given the types that its
operands are recorded with. -/
structure Tree.Sound (t : Tree) (library : Catalog) : Prop where
  /-- No rule was passed over. -/
  untyped : ∀ id, t.untyped id = false
  resolved : ∀ id, t.kind? id ≠ some .error
  operands : ∀ id e, t.expr? id = some e → ∀ c ∈ e.kind.children, ∃ n, t.expr? c = some n
  typed : ∀ id e, t.expr? id = some e → t.Typed library e
  /-- What is written to is a variable of the script or a component of one. -/
  places : ∀ id e, t.expr? id = some e → ∀ x ∈ e.kind.written?, t.IsPlace x
  /-- A name has the type of the variable it stands for. -/
  names : ∀ id e name binding d, t.expr? id = some e → e.kind = .ref name binding →
    binding.decl? = some d → ∃ v, t.var? d = some v ∧ v.ty = e.ty
  inits : ∀ id v, t.var? id = some v → ∀ c ∈ v.init, assignable v.ty (t.exprType c) = true
  /-- The initial value of a global computes nothing. -/
  statics : ∀ g v, t.kind? g = some (.global v) → ∀ id e, t.Within id g → t.expr? id = some e →
    e.kind.isStatic = true
  returns : ∀ id s value, t.stmt? id = some s → s.kind = .ret (some value) →
    ∃ f decl, t.function? f = some decl ∧ t.Within id f
      ∧ assignable decl.returnType (t.exprType value) = true
  tests : ∀ id s, t.stmt? id = some s → ∀ c ∈ s.kind.tests, t.exprType c ≠ .void

/-- What suits, and is not marked, is so. -/
theorem Tree.Suits.exprType {t : Tree} {id : NodeId} {Q : Ty → Prop} (h : t.Suits id Q)
    (hm : t.hasErrors id = false) : Q (t.exprType id) := by
  rcases h with ⟨e, he, hq⟩ | h
  · simpa [Tree.exprType, he] using hq
  · simp [hm] at h

namespace Run.Clean

variable {i : NodeId} {e : ExprNode} {s : StmtNode}

theorem inBody_of_expr? {t : Tree} (he : t.expr? i = some e) : t.InBody i :=
  ⟨.expr, Tree.sort?_of_kind? (Tree.expr?_eq_some.mp he), rfl⟩

/-- Every expression follows the rules. -/
theorem lawful (h : run.Clean library script root n) (he : run.tree.expr? i = some e) :
    ∃ rules, rules.library = library ∧ run.tree.Lawful rules e := by
  obtain ⟨rules, o, hgoverned, hruled⟩ := h.governed (inBody_of_expr? he)
  obtain ⟨visible, hsees⟩ := hgoverned.term (.inl (Tree.sort?_of_kind? (Tree.expr?_eq_some.mp he)))
  cases hsees with
  | error _ hw => simp [h.unmarked] at hw
  | expr e' he' _ hl =>
    obtain rfl := Option.some.inj (he.symm.trans he')
    exact ⟨rules, hruled.library, hl.resolve_right (by simp [h.unmarked])⟩

/-- Every statement is in its place. -/
theorem inPlace (h : run.Clean library script root n) (hs : run.tree.stmt? i = some s) :
    ∃ rules o b, run.tree.InPlace rules o run.Wrong b s.kind ∧ run.Ruled library i rules := by
  obtain ⟨rules, o, hgoverned, hruled⟩ := h.governed (Tree.inBody_of_stmt? hs)
  obtain ⟨blocks, rest, hscoped⟩ := hgoverned.stmt s hs
  cases hscoped with
  | cons hs' _ _ _ hplace _ =>
    obtain rfl := Option.some.inj (hs.symm.trans hs')
    exact ⟨rules, o, _, hplace, hruled⟩

/-- A global is one of those of the script. -/
theorem mem_globals (h : run.Clean library script root n) {v : Variable}
    (hv : run.tree.kind? i = some (.global v)) : i ∈ n.globals := by
  obtain ⟨roots, hshape⟩ := h.shaped
  have hsort := Tree.sort?_of_kind? hv
  have hother : ∀ q, run.tree.parent? i = some q → ∃ n', run.tree.kind? q = some (.script n') := by
    intro q hq
    obtain ⟨k, hk, ⟨s, hs, hholds⟩, -⟩ := hshape.owned i q hq
    obtain rfl := Option.some.inj (hsort.symm.trans hs)
    cases k <;> simp_all [NodeKind.sort, NodeSort.holds]
  have htop : ∀ q n', run.tree.kind? q = some (.script n') → run.tree.parent? q = none := by
    intro q n' hq
    by_contra hne
    obtain ⟨r, hr⟩ := Option.ne_none_iff_exists'.mp hne
    obtain ⟨k, -, ⟨s, hs, hholds⟩, -⟩ := hshape.owned q r hr
    obtain rfl := Option.some.inj ((Tree.sort?_of_kind? hq).symm.trans hs)
    cases k <;> simp_all [NodeKind.sort, NodeSort.holds]
  rcases Relation.ReflTransGen.cases_head (h.within_root (Tree.has_of_kind? hv)) with
    rfl | ⟨q, hq, hrest⟩
  · cases hv.symm.trans h.kind
  obtain ⟨n', hn'⟩ := hother q hq
  obtain rfl := Tree.Within.eq_of_root hrest (htop q n' hn')
  obtain ⟨k, hk, -, hmem⟩ := hshape.owned i q hq
  obtain rfl := Option.some.inj (h.kind.symm.trans hk)
  obtain ⟨-, hfunctions, hdefault, hstates⟩ := hshape.formed q _ h.kind
  have hi := hmem (by simp [NodeKind.sort]) (by simp [NodeKind.sort])
  simp only [NodeKind.children, List.mem_append, Option.mem_toList] at hi
  rcases hi with ((hi | hi) | hi) | hi
  · exact hi
  · cases hsort.symm.trans (hfunctions i hi)
  · cases hsort.symm.trans (hdefault i hi)
  · cases hsort.symm.trans (hstates i hi)

theorem assignable_init (h : run.Clean library script root n) {v : Variable}
    (hv : run.tree.var? i = some v) {c : NodeId} (hc : c ∈ v.init) :
    assignable v.ty (run.tree.exprType c) = true := by
  obtain ⟨k, hk, hkv⟩ := Option.bind_eq_some_iff.mp hv
  cases k with
  | global v' =>
    obtain rfl := Option.some.inj hkv
    obtain ⟨x, hx, rfl⟩ := List.mem_map.mp (h.globalIds ▸ h.mem_globals hk)
    obtain ⟨o, v'', hv'', -, -, -, hsuits⟩ := h.globals.mem hx
    cases hk.symm.trans hv''
    exact ((hsuits c hc).resolve_right (by simp [h.unmarked])).exprType (h.unmarked c)
  | param v' =>
    obtain rfl := Option.some.inj hkv
    obtain ⟨roots, hshape⟩ := h.shaped
    obtain ⟨-, hnone⟩ := hshape.formed i _ hk
    simp [hnone] at hc
  | stmt s =>
    rcases s with ⟨kind, info⟩
    cases kind with
    | declare v' =>
      obtain rfl := Option.some.inj hkv
      obtain ⟨rules, o, b, ⟨-, -, hsuits⟩, -⟩ := h.inPlace (Tree.stmt?_eq_some.mpr hk)
      exact ((hsuits c hc).resolve_right h.right).exprType (h.unmarked c)
    | _ => cases hkv
  | _ => cases hkv

theorem isStatic_of_within (h : run.Clean library script root n) {g : NodeId} {v : Variable}
    (hg : run.tree.kind? g = some (.global v)) (hin : run.tree.Within i g)
    (he : run.tree.expr? i = some e) : e.kind.isStatic = true := by
  obtain ⟨roots, hshape⟩ := h.shaped
  have hkind := Tree.expr?_eq_some.mp he
  rcases hin.cases_tail with rfl | ⟨c, hic, hc⟩
  · cases hg.symm.trans hkind
  obtain ⟨o, hgoverned⟩ := h.governed_global hshape (h.mem_globals hg) hic hc
  obtain ⟨visible, hsees⟩ := hgoverned.term (.inl (Tree.sort?_of_kind? hkind))
  cases hsees with
  | error _ hw => simp [h.unmarked] at hw
  | expr e' he' _ hl =>
    obtain rfl := Option.some.inj (he.symm.trans he')
    exact (hl.resolve_right (by simp [h.unmarked])).static rfl

theorem assignable_return (h : run.Clean library script root n) {value : NodeId}
    (hs : run.tree.stmt? i = some s) (hk : s.kind = .ret (some value)) :
    ∃ f decl, run.tree.function? f = some decl ∧ run.tree.Within i f
      ∧ assignable decl.returnType (run.tree.exprType value) = true := by
  obtain ⟨rules, o, b, hplace, hruled⟩ := h.inPlace hs
  rw [hk] at hplace
  obtain ⟨r, hr, hassign⟩ :=
    ((hplace value rfl).resolve_right h.right).exprType (h.unmarked value)
  obtain ⟨f, decl, hf, rfl, hin⟩ := hruled.returns r hr
  exact ⟨f, decl, hf, hin, hassign⟩

theorem nonvoid_test (h : run.Clean library script root n) (hs : run.tree.stmt? i = some s)
    {c : NodeId} (hc : c ∈ s.kind.tests) : run.tree.exprType c ≠ .void := by
  obtain ⟨rules, o, b, hplace, -⟩ := h.inPlace hs
  rcases s with ⟨kind, info⟩
  have hvalid : validCondition (run.tree.exprType c) = true := by
    cases kind with
    | declare | ret | jump => cases hc
    | _ => exact (hplace c hc).exprType (h.unmarked c)
  intro hvoid
  simp [hvoid, validCondition, Ty.isVoid] at hvalid

/-- **The tree of a script without errors is sound.** -/
theorem sound (h : run.Clean library script root n) : run.tree.Sound library where
  untyped id := by simp [Tree.untyped, h.unmarked]
  resolved id hid := by
    obtain ⟨roots, hshape⟩ := h.shaped
    simpa [h.unmarked] using hshape.errors id hid
  operands id e he c hc := by
    obtain ⟨rules, -, hlawful⟩ := h.lawful he
    exact hlawful.parts c hc
  typed id e he := by
    obtain ⟨rules, rfl, hlawful⟩ := h.lawful he
    exact hlawful.typed
  places id e he := by
    obtain ⟨rules, -, hlawful⟩ := h.lawful he
    exact hlawful.writes
  names id e name binding d he hk hd := by
    obtain ⟨roots, hshape⟩ := h.shaped
    obtain ⟨-, hbound⟩ := hshape.formed id _ (Tree.expr?_eq_some.mp he)
    simp only [Tree.Bound, hk] at hbound
    cases binding with
    | constant => cases hd
    | _ =>
      obtain rfl := Option.some.inj hd
      exact hbound.2
  inits id v hv c hc := h.assignable_init hv hc
  statics g v hg id e hin he := h.isStatic_of_within hg hin he
  returns id s value hs hk := h.assignable_return hs hk
  tests id s hs c hc := h.nonvoid_test hs hc

end Run.Clean

/-- **Type soundness.** If checking a script reports no error, every node of its
tree follows the rule of its kind. -/
theorem Script.check_sound {options : CheckOptions} {c : CheckedScript}
    (h : script.check library options = .ok c) (hok : ∀ m ∈ c.notices, m.isFault = false) :
    c.tree.Sound library := by
  obtain ⟨run, n, hclean, htree⟩ := Script.check_clean h (Script.hasErrors_eq_false h hok)
  exact htree ▸ hclean.sound

section

open Build

/-- A script that computes with a global vector, a function and a condition. -/
def Script.scaling : Script :=
  { globals := [varDecl .vector "v" (some (vector (float "1.0") (prefixed .negate (int 2)) (int 3)))]
    functions := [function .integer "twice" [param .integer "n"]
      [ret (some (binary .add (ident "n") (ident "n")))]]
    defaultState := some (state defaultStateName [handler "state_entry" []
      [declare .float "x" (some (call "twice" [int 2])),
        exprStmt (binary .addAssign (component (ident "v") .x) (ident "x")),
        branch (binary .lt (component (ident "v") .x) (ident "x"))
          (exprStmt (call "llOwnerSay" [cast .string (ident "v")])) [] none]]) }

theorem Script.scaling_sound : ∃ c, Script.scaling.check .standard { sortNotices := false } = .ok c
    ∧ (∀ m ∈ c.notices, m.isFault = false) ∧ c.tree.Sound .standard := by
  have hcheck : (Script.scaling.check .standard { sortNotices := false }).toOption.any
      (fun c => c.notices.all (!·.isFault)) = true := by decide +kernel
  obtain ⟨c, hc, hok⟩ := exists_ok_of_any hcheck
  have hok : ∀ m ∈ c.notices, m.isFault = false := by simpa using hok
  exact ⟨c, hc, hok, Script.check_sound hc hok⟩

end

end Lsl
