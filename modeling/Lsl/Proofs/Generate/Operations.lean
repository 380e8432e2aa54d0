/- # Operator methods

Generated code defines the methods for the operators it calls, behind all its
other members. They are collected by operand types, operator and result, but named
by operand types and operator alone. The names tell them apart all the same: what
an operator gives is settled by its operands, also where a compound assignment to a
component has nowhere to store and only its operator is left.

Key definitions: `HostExpr.Calls`, `HostUnit.CallsOn`, `Tree.DefinesOperators`.
Key theorems: `HostUnit.mem_called`, `Operation.name_inj`, `binaryResult_base`,
`Script.operations_exact`.
-/
import Lsl.Proofs.Generate.Collecting
import Lsl.Proofs.Generate.Definitions

namespace Lsl

open Generator

variable {library : Catalog} {script : Script} {t : Tree} {run : Run} {root id : NodeId}
  {n : ScriptNode} {checkpoints : Bool} {u : HostUnit} {o o' : Operation}

/-! ### The operations that code calls -/

namespace HostExpr

/-- The expression is written as a call of the operator method of this name. -/
def Calls (e : HostExpr) (name : String) : Prop :=
  ∃ o right left, (e = .operate o right left ∨ e = .unstored o right left) ∧ o.name = name
    ∧ e.render = name ++ "(" ++ right.render ++ ", " ++ left.render ++ ")"

theorem calls_iff {e : HostExpr} {name : String} :
    e.Calls name ↔ ∃ o, e.operation? = some o ∧ o.name = name := by
  constructor
  · rintro ⟨o, right, left, rfl | rfl, rfl, -⟩
    · exact ⟨o, rfl, rfl⟩
    · exact ⟨o, rfl, rfl⟩
  · rintro ⟨o, ho, rfl⟩
    cases e with
    | operate op right left =>
      obtain rfl := Option.some.inj ho
      exact ⟨op, right, left, .inl rfl, rfl, rfl⟩
    | unstored op right left =>
      obtain rfl := Option.some.inj ho
      exact ⟨op, right, left, .inr rfl, rfl, rfl⟩
    | _ => cases ho

end HostExpr

namespace Operation

variable {called more : List Operation}

theorem takeUp_eq (called : List Operation) (o : Operation) :
    takeUp called o = called ∨ o ∉ called ∧ takeUp called o = called ++ [o] := by
  unfold takeUp
  split
  · exact .inl rfl
  · exact .inr ⟨‹_›, rfl⟩

theorem mem_takeUp : o ∈ takeUp called o' ↔ o ∈ called ∨ o = o' := by
  unfold takeUp
  split
  · rename_i hin
    exact ⟨.inl, fun h => h.elim id fun he => he ▸ hin⟩
  · rw [List.mem_append, List.mem_singleton]

/-- What is taken up one by one, is there in the end. -/
theorem mem_foldl_takeUp : o ∈ more.foldl takeUp called ↔ o ∈ called ∨ o ∈ more := by
  induction more generalizing called with
  | nil => simp
  | cons first rest ih => rw [List.foldl_cons, ih, mem_takeUp, List.mem_cons, or_assoc]

/-- Nothing is taken up twice. -/
theorem nodup_foldl_takeUp (h : called.Nodup) : (more.foldl takeUp called).Nodup := by
  induction more generalizing called with
  | nil => exact h
  | cons first rest ih =>
    refine ih ?_
    rcases takeUp_eq called first with heq | ⟨hnew, heq⟩
    · rwa [heq]
    · rw [heq]
      exact List.concat_eq_append ▸ h.concat hnew

end Operation

namespace HostUnit

/-- **The operations that come up in a unit are those that its expressions call.** -/
theorem mem_called : o ∈ u.called ↔ ∃ e ∈ u.exprs, ∃ x ∈ e.parts, x.operation? = some o := by
  simp only [called, exprs, List.mem_append, List.mem_flatMap, List.mem_map, or_and_right,
    exists_or, exists_exists_and_eq_and, ← HostExpr.mem_operations]
  refine or_congr_right ⟨?_, ?_⟩
  · rintro ⟨m, hm, ho⟩
    obtain ⟨spot, hspot, e, he, ho⟩ := HostStmt.mem_operationsOfAll.mp ho
    exact ⟨e, ⟨m, hm, spot, hspot, he⟩, ho⟩
  · rintro ⟨e, ⟨m, hm, spot, hspot, he⟩, ho⟩
    exact ⟨m, hm, HostStmt.mem_operationsOfAll.mpr ⟨spot, hspot, e, he, ho⟩⟩

/-- A unit carries the operations that its expressions call, each once. -/
theorem operations_called {seen : List Operation}
    (hu : hostUnit t checkpoints n [] = .ok (u, seen)) : u.operations.Nodup
      ∧ ∀ o, o ∈ u.operations ↔ ∃ e ∈ u.exprs, ∃ x ∈ e.parts, x.operation? = some o := by
  rw [hostUnit_operations hu]
  refine ⟨Operation.nodup_foldl_takeUp List.nodup_nil, fun o => ?_⟩
  simp only [Operation.mem_foldl_takeUp, mem_called, List.not_mem_nil, false_or]

/-- The line shows an expression of the unit with a call of the operator method in it. -/
def CallsOn (u : HostUnit) (line : OutputLine) (name : String) : Prop :=
  ∃ depth, ∃ e ∈ u.exprs, line.Shows depth e ∧ ∃ x ∈ e.parts, x.Calls name

end HostUnit

/-! ### Names tell operations apart -/

theorem Ty.find?_title (ty : Ty) : Ty.all.find? (·.title == ty.title) = some ty := by
  cases ty <;> decide

theorem Ty.title_inj {a b : Ty} (h : a.title = b.title) : a = b :=
  Option.some.inj (by rw [← find?_title a, ← find?_title b, h])

theorem BinaryOp.find?_name (op : BinaryOp) :
    BinaryOp.all.find? (·.name == op.name) = some op := by
  cases op <;> decide

theorem BinaryOp.name_inj {a b : BinaryOp} (h : a.name = b.name) : a = b :=
  Option.some.inj (by rw [← find?_name a, ← find?_name b, h])

theorem Ty.underscore_notMem_title (ty : Ty) : '_' ∉ ty.title.toList := by
  cases ty <;> decide

theorem BinaryOp.underscore_notMem_name (op : BinaryOp) : '_' ∉ op.name.toList := by
  cases op <;> decide

/-- What stands before the first underscore, and what stands behind it. -/
theorem append_underscore_inj {a b rest rest' : List Char} (ha : '_' ∉ a) (hb : '_' ∉ b)
    (h : a ++ '_' :: rest = b ++ '_' :: rest') : a = b ∧ rest = rest' := by
  have hfirst : ∀ c : List Char, '_' ∉ c → ∀ r, (c ++ '_' :: r).takeWhile (· != '_') = c := by
    intro c hc r
    rw [List.takeWhile_append_of_pos, List.takeWhile_cons_of_neg (by simp), List.append_nil]
    intro x hx
    simpa using fun he : x = '_' => hc (he ▸ hx)
  have hab : a = b := by rw [← hfirst a ha rest, ← hfirst b hb rest', h]
  subst hab
  exact ⟨rfl, (List.cons.inj (List.append_cancel_left h)).2⟩

/-- **The name of an operation** gives away everything but its result. -/
theorem Operation.name_inj (h : o.name = o'.name) :
    o.left = o'.left ∧ o.op = o'.op ∧ o.right = o'.right := by
  have hlist := congrArg String.toList h
  simp only [name, String.toList_append, List.append_assoc, List.append_cancel_left_eq] at hlist
  obtain ⟨hleft, hlist⟩ := append_underscore_inj o.left.underscore_notMem_title
    o'.left.underscore_notMem_title hlist
  obtain ⟨hop, hright⟩ := append_underscore_inj o.op.underscore_notMem_name
    o'.op.underscore_notMem_name hlist
  exact ⟨Ty.title_inj (String.toList_inj.mp hleft), BinaryOp.name_inj (String.toList_inj.mp hop),
    Ty.title_inj (String.toList_inj.mp hright)⟩

/-! ### The operands settle the result -/

/-- A compound assignment to a float gives what its operator gives. -/
theorem binaryResult_base {op base : BinaryOp} {right ty : Ty} (hop : op.base? = some base)
    (h : binaryResult op .float right = some ty) : binaryResult base .float right = some ty := by
  cases op <;> cases hop <;> cases right <;> cases h <;> rfl

namespace Tree

/-- A component of a variable that never runs is a float. -/
theorem Sound.float_of_isDeadComponent (h : t.Sound library) (hid : t.isDeadComponent id = true) :
    t.exprType id = .float := by
  unfold isDeadComponent at hid
  split at hid
  · rename_i object c ty constant he
    have htyped := h.typed id _ he
    simp only [Typed] at htyped
    simp [exprType, he, htyped.1]
  · cases hid

/-- **The operands of an operation settle its result.** -/
theorem Sound.binaryResult_of_codesOperation (h : t.Sound library) {e : ExprNode}
    (he : t.expr? id = some e) (ho : t.CodesOperation e o) :
    binaryResult o.op o.left o.right = some o.result := by
  obtain ⟨op, left, right, hkind, heq, hop⟩ := ho
  have htyped : binaryResult op (t.exprType left) (t.exprType right) = some e.ty := by
    have htyped := h.typed id e he
    simpa only [Typed, hkind] using htyped
  rw [heq]
  rcases hop with rfl | ⟨hbase, hdead⟩
  · exact htyped
  · rw [h.float_of_isDeadComponent hdead] at htyped ⊢
    exact binaryResult_base hbase htyped

/-- The lines define the operator methods that they call: those and no others, each
once, and with the result that is expected where it is called. -/
structure DefinesOperators (t : Tree) (u : HostUnit) (lines : List OutputLine) : Prop where
  distinct : (u.operations.map (·.name)).Nodup
  /-- The definitions come last, when only braces are left to close, and above them
  stand the calls. -/
  called : ∃ above depth closing,
    lines = above ++ [OutputLine.gap].intercalate (u.operations.map (·.definition depth)) ++ closing
      ∧ (∀ line ∈ closing, ∃ d, line = .code d "\x7d")
      ∧ ∀ name, name ∈ u.operations.map (·.name) ↔ ∃ line ∈ above, u.CallsOn line name
  /-- What is called stands for an expression that has the type of the result. -/
  result : ∀ o ∈ u.operations, ∀ e ∈ u.exprs, ∀ x ∈ e.parts, x.Calls o.name →
    ∃ inContainer id node, t.expr? id = some node ∧ t.Brings inContainer node x
      ∧ node.ty = o.result

end Tree

namespace Run.Clean

/-- What a called operation stands for, and the types on which it does. -/
theorem operation_brought (h : run.Clean library script root n)
    (hu : (hostUnit run.tree checkpoints n).Gives u) {e x : HostExpr} (he : e ∈ u.exprs)
    (hx : x ∈ e.parts) (ho : x.operation? = some o) :
    ∃ inContainer id node, run.tree.expr? id = some node ∧ run.tree.Brings inContainer node x
      ∧ node.ty = o.result ∧ binaryResult o.op o.left o.right = some o.result := by
  have hglue : x.isGlue = false := by cases x <;> first | rfl | cases ho
  obtain ⟨-, -, -, inContainer, id, node, -, hnode, hbrings, -, -⟩ := h.brings hu he hx hglue
  have hcodes := hbrings.of_operation ho
  have hresult := h.sound.binaryResult_of_codesOperation hnode hcodes
  obtain ⟨op, left, right, -, heq, -⟩ := hcodes
  exact ⟨inContainer, id, node, hnode, hbrings, (congrArg Operation.result heq).symm, hresult⟩

variable {called : List Operation}

theorem binaryResult_of_mem (h : run.Clean library script root n)
    (hu : hostUnit run.tree checkpoints n [] = .ok (u, called)) (ho : o ∈ u.operations) :
    binaryResult o.op o.left o.right = some o.result := by
  obtain ⟨e, he, x, hx, hxo⟩ := ((HostUnit.operations_called hu).2 o).mp ho
  obtain ⟨-, -, -, -, -, -, hresult⟩ := h.operation_brought ⟨[], called, hu⟩ he hx hxo
  exact hresult

/-- Operations of one name are the same. -/
theorem operation_unique (h : run.Clean library script root n)
    (hu : hostUnit run.tree checkpoints n [] = .ok (u, called)) (ho : o ∈ u.operations)
    (ho' : o' ∈ u.operations) (hname : o.name = o'.name) : o = o' := by
  obtain ⟨hleft, hop, hright⟩ := Operation.name_inj hname
  have hresult := h.binaryResult_of_mem hu ho
  rw [hleft, hop, hright, h.binaryResult_of_mem hu ho'] at hresult
  rcases o with ⟨l, op, r, ty⟩
  rcases o' with ⟨l', op', r', ty'⟩
  simp_all

/-- **The lines define the operator methods that they call.** -/
theorem definesOperators (h : run.Clean library script root n)
    (hu : hostUnit run.tree checkpoints n [] = .ok (u, called)) (settings : Settings) :
    run.tree.DefinesOperators u (u.layout settings) := by
  obtain ⟨hnodup, hcalled⟩ := HostUnit.operations_called hu
  obtain ⟨above, depth, closing, hlines, hclosing, hstands⟩ := u.layout_eq settings
  refine ⟨?_, ⟨above, depth, closing, hlines, hclosing, fun name => ⟨fun hname => ?_, ?_⟩⟩, ?_⟩
  · exact hnodup.map_on fun o ho o' ho' hname => h.operation_unique hu ho ho' hname
  · obtain ⟨o, ho, rfl⟩ := List.mem_map.mp hname
    obtain ⟨e, he, x, hx, hxo⟩ := (hcalled o).mp ho
    obtain ⟨line, hline, d, hshows⟩ := hstands.shows he
    exact ⟨line, hline, d, e, he, hshows, x, hx, HostExpr.calls_iff.mpr ⟨o, hxo, rfl⟩⟩
  · rintro ⟨line, -, d, e, he, -, x, hx, hcalls⟩
    obtain ⟨o, hxo, rfl⟩ := HostExpr.calls_iff.mp hcalls
    exact List.mem_map_of_mem ((hcalled o).mpr ⟨e, he, x, hx, hxo⟩)
  · intro o ho e he x hx hcalls
    obtain ⟨o', hxo, hname⟩ := HostExpr.calls_iff.mp hcalls
    have ho' : o' ∈ u.operations := (hcalled o').mpr ⟨e, he, x, hx, hxo⟩
    obtain rfl := h.operation_unique hu ho' ho hname
    obtain ⟨inContainer, id, node, hnode, hbrings, hty, -⟩ :=
      h.operation_brought ⟨[], called, hu⟩ he hx hxo
    exact ⟨inContainer, id, node, hnode, hbrings, hty⟩

end Run.Clean

/-- **Operator methods are exact.** The output is written line by line. The methods
that its lines define for operators have names of their own, they are the ones that
its lines call, and each has the result that is expected wherever it is called. -/
theorem Script.operations_exact {options : CheckOptions} {c : CheckedScript}
    {settings : Settings} {text : String} (h : script.check library options = .ok c)
    (hg : c.generate settings = .ok text) :
    ∃ u, c.hostUnit settings = .ok u ∧ OutputLine.WrittenAs (u.layout settings) text
      ∧ c.tree.DefinesOperators u (u.layout settings) := by
  obtain ⟨u, hu, rfl⟩ := CheckedScript.generate_eq_ok.mp hg
  refine ⟨u, hu, OutputLine.renderAll_writtenAs _, ?_⟩
  have hok := CheckedScript.hasErrors_of_hostUnit hu
  obtain ⟨run, n, hclean, htree⟩ := Script.check_clean h hok
  obtain ⟨called, hu⟩ := hclean.hostUnit_eq_ok htree hu
  exact htree ▸ hclean.definesOperators hu settings

section

open Build

/-- A script in which a sum of floats is computed by an operator, and by an assignment
to a component of a variable whose declaration is jumped over. -/
def Script.sums : Script :=
  { defaultState := some (state defaultStateName [handler "state_entry" []
      [declare .float "x" (some (float "1.0")),
        jump "over",
        declare .vector "v" none,
        label "over",
        exprStmt (assign "x" (binary .add (ident "x") (float "2.0"))),
        exprStmt (assign "x" (binary .addAssign (component (ident "v") .x) (ident "x"))),
        exprStmt (assign "x" (binary .mul (ident "x") (int 2)))]]) }

theorem Script.sums_exact :
    ∃ c text, Script.sums.check .standard { sortNotices := false } = .ok c
      ∧ c.generate {} = .ok text
      ∧ ∃ u, c.hostUnit {} = .ok u ∧ OutputLine.WrittenAs (u.layout {}) text
        ∧ c.tree.DefinesOperators u (u.layout {}) := by
  have hcheck : (Script.sums.check .standard { sortNotices := false }).toOption.any
      (fun c => (c.hostUnit {}).toOption.any fun _ => true) = true := by decide +kernel
  obtain ⟨c, u, hc, -, hg, -⟩ := Script.exists_hostUnit hcheck
  exact ⟨c, _, hc, hg, Script.operations_exact hc hg⟩

end

end Lsl
