/- # The rules of the language

Every kind of expression has a rule, which its node follows or not, given the
types that the nodes of its operands are recorded with. A judgement reports a
fault unless the rule is followed or an operand is wrong already: so a node
without a fault, with operands that are not wrong, follows its rule.

Key definitions: `Rules`, `Tree.IsPlace`, `Tree.Typed`, `Tree.Lawful`.
Key theorems: `Tree.Lawful.grows`, `Judgement.Lawful.binary`, `Judgement.Lawful.libraryCall`.
-/
import Lsl.Check.Expr
import Lsl.Proofs.Tree.Growth
import Mathlib.Data.List.Forall2

namespace Lsl

/-- What a part of a script has to go by. -/
structure Rules where
  library : Catalog
  /-- The part is an initial value of a global, which computes nothing. -/
  static : Bool
  /-- The type that the body around the part returns; none in an event handler. -/
  returns : Option Ty

def Env.rules (env : Env) : Rules where
  library := env.library
  static := env.isStatic
  returns := (env.body.filter (!·.isEvent)).map (·.returnType)

/-- In the initial value of a global. -/
def Rules.ofGlobal (library : Catalog) : Rules := ⟨library, true, none⟩

/-- In the body of a function. -/
def Rules.ofFunction (library : Catalog) (d : FunctionDecl) : Rules :=
  ⟨library, false, some d.returnType⟩

/-- In the body of an event handler. -/
def Rules.ofHandler (library : Catalog) : Rules := ⟨library, false, none⟩

variable {rules : Rules} {t t' : Tree} {P : Nat → Prop} {id : NodeId} {e : ExprNode}

/-! ### The rules -/

/-- What the initial value of a global may be made of: literals, names, their
components, and signs. -/
def ExprKind.isStatic : ExprKind → Bool
  | integer _ | hex _ | float _ | string _ | vector .. | rotation .. | list _ | ref ..
  | component .. => true
  | prefixed op _ => op == .negate
  | call .. | binary .. | postfixed .. | cast .. | paren _ => false

/-- What an operation writes to. -/
def ExprKind.written? : ExprKind → Option NodeId
  | binary op left _ => if op.isAssignment then some left else none
  | prefixed op operand => if op.modifiesOperand then some operand else none
  | postfixed _ operand => some operand
  | _ => none

namespace Tree

/-- The name of a variable of the script. -/
def IsVariable (t : Tree) (id : NodeId) : Prop :=
  ∃ name binding ty k, t.expr? id = some ⟨.ref name binding, ty, k⟩ ∧ binding.isConstant = false

/-- A variable of the script, or a component of one. -/
def IsPlace (t : Tree) (id : NodeId) : Prop :=
  t.IsVariable id
    ∨ ∃ object c ty k, t.expr? id = some ⟨.component object c, ty, k⟩ ∧ t.IsVariable object

/-- The type of a declared parameter. -/
def varType (t : Tree) (id : NodeId) : Ty := ((t.var? id).map (·.ty)).getD .void

/-- The type of an expression is what its operands make it, and they fit. -/
def Typed (t : Tree) (library : Catalog) (e : ExprNode) : Prop :=
  match e.kind with
  | .integer _ | .hex _ => e.ty = .integer
  | .float _ => e.ty = .float
  | .string _ => e.ty = .string
  | .vector x y z => e.ty = .vector ∧ ∀ c ∈ [x, y, z], (t.exprType c).isNumeric = true
  | .rotation x y z s => e.ty = .rotation ∧ ∀ c ∈ [x, y, z, s], (t.exprType c).isNumeric = true
  | .list items => e.ty = .list ∧ ∀ c ∈ items, t.exprType c ≠ .list ∧ t.exprType c ≠ .void
  | .ref _ (.constant k) => e.ty = k.ty
  | .ref _ _ => True
  | .component object c => e.ty = .float ∧ hasComponent (t.exprType object) c = true
  | .call _ args (.user f) => ∃ decl, t.function? f = some decl ∧ e.ty = decl.returnType
    ∧ List.Forall₂ (fun a p => assignable (t.varType p) (t.exprType a) = true) args decl.params
  | .call name args (.library modInvoke params) => ∃ f ∈ library.overloads name,
    modInvoke = f.modInvoke ∧ params = f.params.map (·.ty) ∧ e.ty = f.returnType
      ∧ f.accepts (args.map fun a => .typed (t.exprType a)) = true
  | .binary op left right => binaryResult op (t.exprType left) (t.exprType right) = some e.ty
  | .prefixed op operand => prefixResult op (t.exprType operand) = some e.ty
  | .postfixed op operand => postfixResult op (t.exprType operand) = some e.ty
  | .cast ty operand => e.ty = ty ∧ castValid ty (t.exprType operand) = true
  | .paren inner => e.ty = t.exprType inner

/-- An expression follows the rules. -/
structure Lawful (t : Tree) (rules : Rules) (e : ExprNode) : Prop where
  parts : ∀ c ∈ e.kind.children, ∃ n, t.expr? c = some n
  static : rules.static = true → e.kind.isStatic = true
  writes : ∀ x ∈ e.kind.written?, t.IsPlace x
  typed : t.Typed rules.library e

/-- The type of an expression is so, unless the expression is wrong. -/
def Suits (t : Tree) (id : NodeId) (Q : Ty → Prop) : Prop :=
  (∃ n, t.expr? id = some n ∧ Q n.ty) ∨ t.hasErrors id = true

/-! ### Rules stay followed -/

theorem Suits.grows {Q : Ty → Prop} (h : t.Suits id Q) (hg : t.Grows P t') : t'.Suits id Q := by
  rcases h with ⟨n, hn, hq⟩ | h
  · exact .inl ⟨n, hg.expr? hn, hq⟩
  · exact .inr (hg.hasErrors h)

theorem IsVariable.grows (h : t.IsVariable id) (hg : t.Grows P t') : t'.IsVariable id := by
  obtain ⟨name, binding, ty, k, he, hb⟩ := h
  exact ⟨name, binding, ty, k, hg.expr? he, hb⟩

theorem IsPlace.grows (h : t.IsPlace id) (hg : t.Grows P t') : t'.IsPlace id := by
  rcases h with h | ⟨object, c, ty, k, he, ho⟩
  · exact .inl (h.grows hg)
  · exact .inr ⟨object, c, ty, k, hg.expr? he, ho.grows hg⟩

theorem Grows.exprType (hg : t.Grows P t') (h : ∃ n, t.expr? id = some n) :
    t'.exprType id = t.exprType id := by
  obtain ⟨n, hn⟩ := h
  simp [Tree.exprType, hn, hg.expr? hn]

/-- A parameter that something can be passed to is there. -/
theorem assignable_varType_grows {ty : Ty} (hg : t.Grows P t')
    (h : assignable (t.varType id) ty = true) : assignable (t'.varType id) ty = true := by
  rcases hv : t.var? id with _ | v
  · simp [varType, hv, assignable, Ty.isVoid] at h
  · obtain ⟨v', hv', ho⟩ := hg.var? hv
    have hty : v'.outline.ty = v.outline.ty := congrArg Variable.ty ho
    change v'.ty = v.ty at hty
    rwa [varType, hv', Option.map_some, Option.getD_some, hty, ← Option.getD_some (a := v.ty),
      ← Option.map_some, ← hv]

theorem Typed.grows {library : Catalog} (h : t.Typed library e) (hg : t.Grows P t')
    (hparts : ∀ c ∈ e.kind.children, ∃ n, t.expr? c = some n) : t'.Typed library e := by
  have hty : ∀ c ∈ e.kind.children, t'.exprType c = t.exprType c := fun c hc =>
    hg.exprType (hparts c hc)
  rcases e with ⟨kind, ty, k⟩
  cases kind with
  | integer | hex | float | string => exact h
  | vector x y z => exact ⟨h.1, fun c hc => by rw [hty c hc]; exact h.2 c hc⟩
  | rotation x y z s => exact ⟨h.1, fun c hc => by rw [hty c hc]; exact h.2 c hc⟩
  | list items => exact ⟨h.1, fun c hc => by rw [hty c hc]; exact h.2 c hc⟩
  | ref name binding => cases binding <;> exact h
  | component object c =>
    exact ⟨h.1, by rw [hty object List.mem_cons_self]; exact h.2⟩
  | call name args target =>
    cases target with
    | user f =>
      obtain ⟨decl, hf, hret, hargs⟩ := h
      obtain ⟨decl', hf', -, hret', hparams, -⟩ := hg.function? hf
      refine ⟨decl', hf', hret.trans hret'.symm, hparams ▸ ?_⟩
      refine ((List.forall₂_and_left _ _).mpr ⟨hty, hargs⟩).imp ?_
      rintro a p ⟨ha, hassign⟩
      rw [ha]
      exact assignable_varType_grows hg hassign
    | library modInvoke params =>
      obtain ⟨f, hf, hmod, hparams, hret, hargs⟩ := h
      have hmap : (args.map fun a => Argument.typed (t'.exprType a))
          = args.map fun a => .typed (t.exprType a) :=
        List.map_congr_left fun a ha => congrArg Argument.typed (hty a ha)
      exact ⟨f, hf, hmod, hparams, hret, hmap ▸ hargs⟩
  | binary op left right =>
    change binaryResult op (t'.exprType left) (t'.exprType right) = some ty
    rw [hty left (by simp [ExprKind.children]), hty right (by simp [ExprKind.children])]
    exact h
  | prefixed op operand =>
    change prefixResult op (t'.exprType operand) = some ty
    rw [hty operand List.mem_cons_self]
    exact h
  | postfixed op operand =>
    change postfixResult op (t'.exprType operand) = some ty
    rw [hty operand List.mem_cons_self]
    exact h
  | cast target operand => exact ⟨h.1, by rw [hty operand List.mem_cons_self]; exact h.2⟩
  | paren inner => exact h.trans (hty inner List.mem_cons_self).symm

theorem Lawful.grows (h : t.Lawful rules e) (hg : t.Grows P t') : t'.Lawful rules e where
  parts c hc := by
    obtain ⟨n, hn⟩ := h.parts c hc
    exact ⟨n, hg.expr? hn⟩
  static := h.static
  writes x hx := (h.writes x hx).grows hg
  typed := h.typed.grows hg h.parts

/-- What has a type has it as an expression. -/
theorem suits_of_exprType {Q : Ty → Prop} (hq : Q (t.exprType id)) (hv : t.exprType id ≠ .void) :
    t.Suits id Q := by
  rcases he : t.expr? id with _ | n
  · simp [exprType, he] at hv
  · exact .inl ⟨n, he, by simpa [exprType, he] using hq⟩

/-- Nothing is wrong with an operand. -/
structure Fine (t : Tree) (id : NodeId) : Prop where
  unmarked : t.hasErrors id = false
  expr : ∃ n, t.expr? id = some n

theorem Fine.typed (h : t.Fine id) : t.untyped id = false := by
  simp [untyped, h.unmarked]

end Tree

/-! ### Judgements -/

/-- A judgement without a fault, on operands that are not wrong, is lawful. -/
def Judgement.Lawful (j : Judgement) (rules : Rules) (t : Tree) : Prop :=
  j.faults = [] → (∀ c ∈ j.node.kind.children, t.Fine c) → t.Lawful rules j.node

section

variable {env : Env}

theorem static_of_staticFaults {what : String} {span : Span}
    (h : staticFaults env what span = []) : env.rules.static = false := by
  unfold staticFaults at h
  split at h
  · cases h
  · rename_i hs
    simpa [Env.rules] using hs

/-- What is written to without a fault is a variable or a component of one. -/
theorem isPlace_of_assignmentFaults (hf : t.Fine id) (h : assignmentFaults t id = []) :
    t.IsPlace id := by
  obtain ⟨⟨kind, ty, k⟩, he⟩ := hf.expr
  have hnone : assignmentFault? t id = none := by
    unfold assignmentFaults at h
    split at h
    · simp [hf.typed] at h
    · assumption
  simp only [assignmentFault?, he] at hnone
  cases kind with
  | ref name binding =>
    refine .inl ⟨name, binding, ty, k, he, ?_⟩
    cases binding <;> first | rfl | simp at hnone
  | component object c =>
    rcases ho : t.expr? object with _ | ⟨kind, ty', k'⟩
    · simp [ho] at hnone
    · cases kind with
      | ref name binding =>
        refine .inr ⟨object, c, ty, k, he, name, binding, ty', k', ho, ?_⟩
        cases binding <;> first | rfl | simp [ho] at hnone
      | _ => simp [ho] at hnone
  | _ => simp at hnone

theorem typeOr_fine {result : Option Ty} {kind : Fault} {span : Span}
    (h : (typeOr result kind span).2 = []) : result = some (typeOr result kind span).1 := by
  cases result with
  | none => cases h
  | some ty => rfl

theorem numeric_of_componentFaults {literal : String} {ids : List NodeId}
    (hf : ∀ c ∈ ids, t.Fine c) (h : componentFaults t literal ids = []) :
    ∀ c ∈ ids, (t.exprType c).isNumeric = true := by
  intro c hc
  have hall := List.filter_eq_nil_iff.mp (List.map_eq_nil_iff.mp h) c hc
  simpa [(hf c hc).typed] using hall

namespace Judgement.Lawful

variable {span : Span}

theorem literal {kind : ExprKind} {ty : Ty} {k : Bool} {faults : List (Fault × Span)}
    (hc : kind.children = []) (hs : kind.isStatic = true) (hw : kind.written? = none)
    (ht : t.Typed rules.library ⟨kind, ty, k⟩) : Lawful ⟨⟨kind, ty, k⟩, faults⟩ rules t :=
  fun _ _ => ⟨by simp [hc], fun _ => hs, by simp [hw], ht⟩

theorem vector (x y z : NodeId) : (judgeVector t x y z).Lawful rules t := fun hf hc =>
  ⟨fun c h => (hc c h).expr, fun _ => rfl, by simp [judgeVector, ExprKind.written?], rfl,
    numeric_of_componentFaults hc hf⟩

theorem rotation (x y z s : NodeId) : (judgeRotation t x y z s).Lawful rules t := fun hf hc =>
  ⟨fun c h => (hc c h).expr, fun _ => rfl, by simp [judgeRotation, ExprKind.written?], rfl,
    numeric_of_componentFaults hc hf⟩

theorem list (items : List NodeId) : (judgeList t items).Lawful rules t := fun hf hc => by
  refine ⟨fun c h => (hc c h).expr, fun _ => rfl, by simp [judgeList, ExprKind.written?], rfl,
    fun c h => ?_⟩
  have hall := List.filter_eq_nil_iff.mp (List.map_eq_nil_iff.mp hf) c h
  simpa [(hc c h).typed] using hall

theorem component (object : NodeId) (c : Component) :
    (judgeComponent t object c span).Lawful rules t := fun hf hc => by
  have hobject := hc object List.mem_cons_self
  refine ⟨fun c h => (hc c h).expr, fun _ => rfl, by simp [judgeComponent, ExprKind.written?], rfl, ?_⟩
  simpa [judgeComponent, hobject.typed] using hf

theorem binary (op : BinaryOp) (left right : NodeId) :
    (judgeBinary env t op left right span).Lawful env.rules t := fun hf hc => by
  have hl := hc left (by simp [judgeBinary, ExprKind.children])
  have hr := hc right (by simp [judgeBinary, ExprKind.children])
  obtain ⟨hs, hw, ht⟩ : staticFaults env "an operator" span = []
      ∧ (op.isAssignment = true → assignmentFaults t left = [])
      ∧ (typeOr (binaryResult op (t.exprType left) (t.exprType right))
        (.invalidBinary op (t.exprType left) (t.exprType right)) span).2 = [] := by
    simpa [judgeBinary, hl.typed, hr.typed] using hf
  refine ⟨fun c h => (hc c h).expr, fun h => ?_, fun x hx => ?_, ?_⟩
  · rw [static_of_staticFaults hs] at h
    cases h
  · by_cases hop : op.isAssignment = true
    · simp only [judgeBinary, ExprKind.written?, hop, ↓reduceIte, Option.mem_some_iff] at hx
      exact hx ▸ isPlace_of_assignmentFaults hl (hw hop)
    · simp [judgeBinary, ExprKind.written?, hop] at hx
  · simpa [judgeBinary, Tree.Typed, hl.typed, hr.typed] using typeOr_fine ht

theorem prefixed (op : PrefixOp) (operand : NodeId) :
    (judgePrefixed env t op operand span).Lawful env.rules t := fun hf hc => by
  have ho := hc operand List.mem_cons_self
  obtain ⟨hs, hw, ht⟩ : (op ≠ .negate → staticFaults env "an operator" span = [])
      ∧ (op.modifiesOperand = true → assignmentFaults t operand = [])
      ∧ (typeOr (prefixResult op (t.exprType operand))
        (.invalidPrefixed op (t.exprType operand)) span).2 = [] := by
    simpa [judgePrefixed, ho.typed] using hf
  refine ⟨fun c h => (hc c h).expr, fun h => ?_, fun x hx => ?_, ?_⟩
  · by_cases hop : op = .negate
    · simp [judgePrefixed, ExprKind.isStatic, hop]
    · rw [static_of_staticFaults (hs hop)] at h
      cases h
  · by_cases hop : op.modifiesOperand = true
    · simp only [judgePrefixed, ExprKind.written?, hop, ↓reduceIte, Option.mem_some_iff] at hx
      exact hx ▸ isPlace_of_assignmentFaults ho (hw hop)
    · simp [judgePrefixed, ExprKind.written?, hop] at hx
  · simpa [judgePrefixed, Tree.Typed, ho.typed] using typeOr_fine ht

theorem postfixed (op : PostfixOp) (operand : NodeId) :
    (judgePostfixed env t op operand span).Lawful env.rules t := fun hf hc => by
  have ho := hc operand List.mem_cons_self
  obtain ⟨hs, hw, ht⟩ : staticFaults env "an operator" span = []
      ∧ assignmentFaults t operand = []
      ∧ (typeOr (postfixResult op (t.exprType operand))
        (.invalidPostfixed op (t.exprType operand)) span).2 = [] := by
    simpa [judgePostfixed, ho.typed] using hf
  refine ⟨fun c h => (hc c h).expr, fun h => ?_, fun x hx => ?_, ?_⟩
  · rw [static_of_staticFaults hs] at h
    cases h
  · simp only [judgePostfixed, ExprKind.written?, Option.mem_some_iff] at hx
    exact hx ▸ isPlace_of_assignmentFaults ho hw
  · simpa [judgePostfixed, Tree.Typed, ho.typed] using typeOr_fine ht

theorem cast (ty : Ty) (operand : NodeId) :
    (judgeCast env t ty operand span).Lawful env.rules t := fun hf hc => by
  have ho := hc operand List.mem_cons_self
  obtain ⟨hs, ht⟩ : staticFaults env "a cast" span = []
      ∧ castValid ty (t.exprType operand) = true := by
    simpa [judgeCast, ho.typed] using hf
  refine ⟨fun c h => (hc c h).expr, fun h => ?_, by simp [judgeCast, ExprKind.written?], rfl, ht⟩
  rw [static_of_staticFaults hs] at h
  cases h

theorem paren (inner : NodeId) : (judgeParen env t inner span).Lawful env.rules t := fun hf hc => by
  refine ⟨fun c h => (hc c h).expr, fun h => ?_, by simp [judgeParen, ExprKind.written?], rfl⟩
  rw [static_of_staticFaults hf] at h
  cases h

/-- Arguments that are passed without a fault fit their parameters. -/
theorem assignable_of_userArgumentFaults {name : String} {index : Nat} {params args : List NodeId}
    (hlength : params.length = args.length) (hc : ∀ c ∈ args, t.Fine c)
    (h : userArgumentFaults t name index (params.map t.varType) args = []) :
    List.Forall₂ (fun a p => assignable (t.varType p) (t.exprType a) = true) args params := by
  induction params generalizing index args with
  | nil =>
    obtain rfl := List.eq_nil_of_length_eq_zero hlength.symm
    exact .nil
  | cons p rest ih =>
    cases args with
    | nil => cases hlength
    | cons a more =>
      have ha := hc a List.mem_cons_self
      simp only [List.map_cons, userArgumentFaults, ha.typed, Bool.false_or] at h
      split at h
      · rename_i hfit
        exact .cons hfit (ih (Nat.succ.inj hlength) (fun c h => hc c (List.mem_cons_of_mem _ h)) h)
      · cases h

theorem userCall {name : String} {function : NodeId} {decl : FunctionNode} {args : List NodeId}
    (hd : t.function? function = some decl) :
    (judgeUserCall env t name function decl args span).Lawful env.rules t := fun hf hc => by
  have hfaults := List.append_eq_nil_iff.mp hf
  refine ⟨fun c h => (hc c h).expr, fun h => ?_, by simp [judgeUserCall, ExprKind.written?],
    decl, hd, rfl, ?_⟩
  · rw [static_of_staticFaults hfaults.1] at h
    cases h
  · by_cases hlength : decl.params.length = args.length
    · have hnone := hfaults.2
      simp only [List.length_map, hlength, ne_eq, not_true_eq_false, ↓reduceIte] at hnone
      exact assignable_of_userArgumentFaults hlength hc hnone
    · simp [hlength] at hfaults

/-- An overload that is chosen without a fault accepts the arguments. -/
theorem chooseOverload_accepts {overloads : List LibraryFunction} {name : String}
    {args : List Argument} {f : LibraryFunction}
    (h : chooseOverload overloads name args = .ok (f, [])) : f.accepts args = true := by
  unfold chooseOverload at h
  split at h
  · cases h
  · rename_i only
    obtain ⟨rfl, hnone⟩ := Prod.mk.inj (Except.ok.inj h)
    simpa [LibraryFunction.accepts] using hnone
  · split at h
    · rename_i hselect
      obtain ⟨rfl, -⟩ := Prod.mk.inj (Except.ok.inj h)
      unfold selectOverload at hselect
      split at hselect
      · cases hselect
      · rename_i only hone
        obtain rfl := Except.ok.inj hselect
        have hmem : only ∈ overloads.filter (·.accepts args) := by simp [hone]
        exact (List.mem_filter.mp hmem).2
      · split at hselect
        · rename_i only hone
          obtain rfl := Except.ok.inj hselect
          have hexact : only ∈ (overloads.filter (·.accepts args)).filter (·.exactly args) := by
            simp [hone]
          exact (List.mem_filter.mp (List.mem_filter.mp hexact).1).2
        · cases hselect
    · split at h <;> cases h
    · cases h

theorem libraryCall {name : String} {f : LibraryFunction} {faults : List Fault}
    {args : List NodeId} (hmem : f ∈ env.library.overloads name)
    (h : chooseOverload (env.library.overloads name) name (args.map (argumentOf t))
      = .ok (f, faults)) :
    (judgeLibraryCall env name f faults args span).Lawful env.rules t := fun hf hc => by
  have hfaults := List.append_eq_nil_iff.mp hf
  obtain rfl := List.map_eq_nil_iff.mp hfaults.2
  refine ⟨fun c h => (hc c h).expr, fun hstatic => ?_, by simp [judgeLibraryCall, ExprKind.written?],
    f, hmem, rfl, rfl, rfl, ?_⟩
  · rw [static_of_staticFaults hfaults.1] at hstatic
    cases hstatic
  · have hargs : args.map (argumentOf t) = args.map fun a => .typed (t.exprType a) :=
      List.map_congr_left fun a ha => by simp [argumentOf, (hc a ha).typed]
    rw [← hargs]
    exact chooseOverload_accepts h

end Judgement.Lawful

end

end Lsl
