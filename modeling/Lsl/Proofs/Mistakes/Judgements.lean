/- # Judging what is wrong already

An operand that is wrong may have no type any more. Otherwise it has the type of the
operand that it stands for. Either way, a judgement that finds nothing wrong with the
one finds nothing wrong with the other, apart from what is written to, and the type
is the same unless it is lost again. A call means the same overload, provided that no
fixed parameter has the type `void`, which only an argument without type would match.

Key definitions: `Tree.Agrees`, `Judgement.Follows`, `Argument.Weakens`.
Key theorems: `judgeBinary_follows`, `selectOverload_weaken`, `judgeLibraryCall_follows`.
-/
import Lsl.Proofs.Mistakes.Runs
import Lsl.Proofs.Library.Selection

namespace Lsl

variable {n : String} {L : Links} {env env' : Env} {t t' t₁ t₁' : Tree} {i j : NodeId}
  {ids ids' : List NodeId}

/-! ### Operands -/

/-- The second node stands for the first: it has the same type, unless it is wrong and
has none. -/
structure Tree.Agrees (t t' : Tree) (i j : NodeId) : Prop where
  has : t.Has i
  has' : t'.Has j
  typed : t'.untyped j = false → t'.exprType j = t.exprType i

namespace Tree.Agrees

theorem keeps (h : t.Agrees t' i j) (hk : t.Keeps t₁) (hk' : t'.Keeps t₁') : t₁.Agrees t₁' i j where
  has := hk.has h.has
  has' := hk'.has h.has'
  typed hu := by
    rw [hk'.untyped h.has'] at hu
    rw [hk.exprType h.has, hk'.exprType h.has', h.typed hu]

/-- New nodes change nothing for older ones. -/
theorem alloc (h : t.Agrees t' i j) {kind kind' : NodeKind} (span span' : Span)
    (hc : ∀ c ∈ kind.children, t.Has c) (hc' : ∀ c ∈ kind'.children, t'.Has c) :
    (t.alloc kind span).1.Agrees (t'.alloc kind' span').1 i j := by
  have hsame : ∀ {t : Tree} {kind : NodeKind} {i : NodeId} (span : Span), t.Has i →
      (∀ c ∈ kind.children, t.Has c) → (t.alloc kind span).1.exprType i = t.exprType i
        ∧ (t.alloc kind span).1.untyped i = t.untyped i := by
    intro t kind i span hi hc
    obtain ⟨m, hm⟩ := Tree.exists_node? hi
    have hm' := Tree.node?_alloc kind span hc hi
    rw [hm, Option.map_some] at hm'
    have htype : (t.alloc kind span).1.exprType i = t.exprType i := by
      unfold Tree.exprType Tree.expr?
      rw [Tree.kind?_of_node? hm, Tree.kind?_of_node? hm', Node.adoptedBy_kind]
    refine ⟨htype, ?_⟩
    unfold Tree.untyped
    rw [htype, Tree.hasErrors_of_node? hm, Tree.hasErrors_of_node? hm', Node.adoptedBy_hasErrors]
  obtain ⟨htype, -⟩ := hsame span h.has hc
  obtain ⟨htype', huntyped⟩ := hsame span' h.has' hc'
  refine ⟨?_, ?_, fun hu => ?_⟩
  · rw [Tree.Has, Tree.size_alloc]
    exact Nat.lt_succ_of_lt h.has
  · rw [Tree.Has, Tree.size_alloc]
    exact Nat.lt_succ_of_lt h.has'
  · rw [huntyped] at hu
    rw [htype, htype', h.typed hu]

/-- What fits in the place of the one fits in the place of the other. -/
theorem fits (h : t.Agrees t' i j) {q : Ty → Bool} (hq : q (t.exprType i) = true) :
    (t'.untyped j || q (t'.exprType j)) = true := by
  cases hu : t'.untyped j with
  | true => rfl
  | false => rw [h.typed hu, hq, Bool.or_true]

end Tree.Agrees

/-- No node is marked as wrong. -/
def Tree.Clean (t : Tree) : Prop := ∀ i, t.hasErrors i = false

theorem Tree.Clean.untyped (h : t.Clean) (i : NodeId) : t.untyped i = false := by
  rw [Tree.untyped, h i, Bool.false_and]

theorem Tree.hasErrors_of_untyped (h : t.untyped i = true) : t.hasErrors i = true :=
  (Bool.and_eq_true_iff.mp h).1

/-- A judgement of operands that may be wrong, set beside one that finds no fault. -/
structure Judgement.Follows (t' : Tree) (j j' : Judgement) (lost : List (Fault × Span)) : Prop where
  faults : j'.faults = lost
  ty : j'.node.ty = j.node.ty
    ∨ j'.node.ty = .void ∧ ∃ c ∈ j'.node.kind.children, t'.hasErrors c = true

/-- Nothing is said about what may not be in an initializer of a global. -/
theorem staticFaults_eq_nil (hs : env'.isStatic = env.isStatic) {what : String} {span span' : Span}
    (h : staticFaults env what span = []) : staticFaults env' what span' = [] := by
  unfold staticFaults at h ⊢
  rw [hs]
  split at h
  · cases h
  · rename_i hno
    rw [if_neg hno]

/-! ### Vectors, rotations, lists and components -/

theorem forall_of_agrees (h : List.Forall₂ (Tree.Agrees t t') ids ids') (hclean : t.Clean)
    {q : Ty → Bool} (hq : ∀ i ∈ ids, t.untyped i = true ∨ q (t.exprType i) = true) :
    ∀ j ∈ ids', t'.untyped j = true ∨ q (t'.exprType j) = true := by
  intro j hj
  obtain ⟨i, hi, hij⟩ := exists_of_forall₂_right h hj
  rcases hq i hi with hu | hq
  · rw [hclean.untyped] at hu
    cases hu
  · simpa using hij.fits hq

theorem componentFaults_eq_nil_iff {literal : String} : componentFaults t literal ids = []
    ↔ ∀ i ∈ ids, t.untyped i = true ∨ (t.exprType i).isNumeric = true := by
  simp [componentFaults, List.filter_eq_nil_iff, or_iff_not_imp_left]

theorem judgeVector_follows {x y z x' y' z' : NodeId}
    (h : List.Forall₂ (Tree.Agrees t t') [x, y, z] [x', y', z']) (hclean : t.Clean)
    (hf : (judgeVector t x y z).faults = []) :
    (judgeVector t x y z).Follows t' (judgeVector t' x' y' z') [] where
  faults := componentFaults_eq_nil_iff.mpr
    (forall_of_agrees h hclean (componentFaults_eq_nil_iff.mp hf))
  ty := .inl rfl

theorem judgeRotation_follows {x y z s x' y' z' s' : NodeId}
    (h : List.Forall₂ (Tree.Agrees t t') [x, y, z, s] [x', y', z', s']) (hclean : t.Clean)
    (hf : (judgeRotation t x y z s).faults = []) :
    (judgeRotation t x y z s).Follows t' (judgeRotation t' x' y' z' s') [] where
  faults := componentFaults_eq_nil_iff.mpr
    (forall_of_agrees h hclean (componentFaults_eq_nil_iff.mp hf))
  ty := .inl rfl

theorem judgeList_faults_eq_nil_iff : (judgeList t ids).faults = []
    ↔ ∀ i ∈ ids, t.untyped i = true ∨ (!(t.exprType i == .list || t.exprType i == .void)) = true := by
  simp [judgeList, List.filter_eq_nil_iff, or_iff_not_imp_left]

theorem judgeList_follows (h : List.Forall₂ (Tree.Agrees t t') ids ids') (hclean : t.Clean)
    (hf : (judgeList t ids).faults = []) : (judgeList t ids).Follows t' (judgeList t' ids') [] where
  faults :=
    have hfits := forall_of_agrees (q := fun ty => !(ty == .list || ty == .void)) h hclean
      (judgeList_faults_eq_nil_iff.mp hf)
    judgeList_faults_eq_nil_iff.mpr hfits
  ty := .inl rfl

theorem judgeComponent_follows {c : Component} {span span' : Span} (h : t.Agrees t' i j)
    (hclean : t.Clean) (hf : (judgeComponent t i c span).faults = []) :
    (judgeComponent t i c span).Follows t' (judgeComponent t' j c span') [] where
  faults := by
    unfold judgeComponent at hf ⊢
    simp only [hclean.untyped, Bool.false_or] at hf ⊢
    split at hf
    · rename_i hhas
      rw [if_pos (h.fits (q := (hasComponent · c)) hhas)]
    · cases hf
  ty := .inl rfl

/-! ### Operators -/

theorem typeOr_eq_nil {result : Option Ty} {kind : Fault} {span : Span}
    (h : (typeOr result kind span).2 = []) : ∃ ty, result = some ty := by
  cases result with
  | none => cases h
  | some ty => exact ⟨ty, rfl⟩

theorem judgeBinary_follows {op : BinaryOp} {left right left' right' : NodeId} {span span' : Span}
    {lost : List (Fault × Span)} (hs : env'.isStatic = env.isStatic) (hl : t.Agrees t' left left')
    (hr : t.Agrees t' right right') (hclean : t.Clean)
    (hlost : assignmentFaults t left = [] → assignmentFaults t' left' = lost)
    (hf : (judgeBinary env t op left right span).faults = []) :
    (judgeBinary env t op left right span).Follows t' (judgeBinary env' t' op left' right' span')
      (if op.isAssignment then lost else []) := by
  unfold judgeBinary at hf ⊢
  simp only [hclean.untyped, Bool.or_self, Bool.false_eq_true, if_false, List.append_eq_nil_iff]
    at hf ⊢
  obtain ⟨⟨hstatic, hassign⟩, htype⟩ := hf
  obtain ⟨ty, hty⟩ := typeOr_eq_nil htype
  have hwritten : (if op.isAssignment = true then assignmentFaults t' left' else [])
      = if op.isAssignment then lost else [] := by
    split
    · rename_i hop
      rw [if_pos hop] at hassign
      exact hlost hassign
    · rfl
  by_cases hu : (t'.untyped left' || t'.untyped right') = true
  · refine ⟨?_, .inr ⟨?_, ?_⟩⟩
    · simp only [hu, if_true, staticFaults_eq_nil hs hstatic, hwritten, List.nil_append,
        List.append_nil]
    · simp only [hu, if_true]
    · rcases Bool.or_eq_true_iff.mp hu with hu | hu
      · exact ⟨left', List.mem_cons_self, Tree.hasErrors_of_untyped hu⟩
      · exact ⟨right', List.mem_cons_of_mem _ List.mem_cons_self, Tree.hasErrors_of_untyped hu⟩
  · obtain ⟨hul, hur⟩ := Bool.or_eq_false_iff.mp (Bool.not_eq_true _ ▸ hu)
    simp only [hul, hur, Bool.or_self, Bool.false_eq_true, if_false, hl.typed hul, hr.typed hur, hty,
      typeOr]
    refine ⟨?_, .inl rfl⟩
    rw [staticFaults_eq_nil hs hstatic, hwritten, List.nil_append, List.append_nil]

theorem judgePrefixed_follows {op : PrefixOp} {span span' : Span} {lost : List (Fault × Span)}
    (hs : env'.isStatic = env.isStatic) (h : t.Agrees t' i j) (hclean : t.Clean)
    (hlost : assignmentFaults t i = [] → assignmentFaults t' j = lost)
    (hf : (judgePrefixed env t op i span).faults = []) :
    (judgePrefixed env t op i span).Follows t' (judgePrefixed env' t' op j span')
      (if op.modifiesOperand then lost else []) := by
  unfold judgePrefixed at hf ⊢
  simp only [hclean.untyped, Bool.false_eq_true, if_false, List.append_eq_nil_iff] at hf ⊢
  obtain ⟨⟨hstatic, hassign⟩, htype⟩ := hf
  obtain ⟨ty, hty⟩ := typeOr_eq_nil htype
  have hstatic' : (if op == .negate then [] else staticFaults env' "an operator" span') = [] := by
    split
    · rfl
    · rename_i hop
      rw [if_neg hop] at hstatic
      exact staticFaults_eq_nil hs hstatic
  have hwritten : (if op.modifiesOperand = true then assignmentFaults t' j else [])
      = if op.modifiesOperand then lost else [] := by
    split
    · rename_i hop
      rw [if_pos hop] at hassign
      exact hlost hassign
    · rfl
  by_cases hu : t'.untyped j = true
  · simp only [hu, if_true, hstatic', hwritten, List.nil_append, List.append_nil]
    exact ⟨rfl, .inr ⟨rfl, j, List.mem_cons_self, Tree.hasErrors_of_untyped hu⟩⟩
  · rw [Bool.not_eq_true] at hu
    simp only [hu, Bool.false_eq_true, if_false, h.typed hu, hty, typeOr, hstatic', hwritten,
      List.nil_append, List.append_nil]
    exact ⟨rfl, .inl rfl⟩

theorem judgePostfixed_follows {op : PostfixOp} {span span' : Span} {lost : List (Fault × Span)}
    (hs : env'.isStatic = env.isStatic) (h : t.Agrees t' i j) (hclean : t.Clean)
    (hlost : assignmentFaults t i = [] → assignmentFaults t' j = lost)
    (hf : (judgePostfixed env t op i span).faults = []) :
    (judgePostfixed env t op i span).Follows t' (judgePostfixed env' t' op j span') lost := by
  unfold judgePostfixed at hf ⊢
  simp only [hclean.untyped, Bool.false_eq_true, if_false, List.append_eq_nil_iff] at hf ⊢
  obtain ⟨⟨hstatic, hassign⟩, htype⟩ := hf
  obtain ⟨ty, hty⟩ := typeOr_eq_nil htype
  by_cases hu : t'.untyped j = true
  · simp only [hu, if_true, staticFaults_eq_nil hs hstatic, hlost hassign, List.nil_append,
      List.append_nil]
    exact ⟨rfl, .inr ⟨rfl, j, List.mem_cons_self, Tree.hasErrors_of_untyped hu⟩⟩
  · rw [Bool.not_eq_true] at hu
    simp only [hu, Bool.false_eq_true, if_false, h.typed hu, hty, typeOr,
      staticFaults_eq_nil hs hstatic, hlost hassign, List.nil_append, List.append_nil]
    exact ⟨rfl, .inl rfl⟩

theorem judgeCast_follows {ty : Ty} {span span' : Span} (hs : env'.isStatic = env.isStatic)
    (h : t.Agrees t' i j) (hclean : t.Clean) (hf : (judgeCast env t ty i span).faults = []) :
    (judgeCast env t ty i span).Follows t' (judgeCast env' t' ty j span') [] where
  faults := by
    unfold judgeCast at hf ⊢
    simp only [hclean.untyped, Bool.false_or, List.append_eq_nil_iff] at hf ⊢
    obtain ⟨hstatic, hcast⟩ := hf
    refine ⟨staticFaults_eq_nil hs hstatic, ?_⟩
    split at hcast
    · rename_i hvalid
      rw [if_pos (h.fits (q := (castValid ty ·)) hvalid)]
    · cases hcast
  ty := .inl rfl

theorem judgeParen_follows {span span' : Span} (hs : env'.isStatic = env.isStatic)
    (h : t.Agrees t' i j) (hf : (judgeParen env t i span).faults = []) :
    (judgeParen env t i span).Follows t' (judgeParen env' t' j span') [] where
  faults := staticFaults_eq_nil hs hf
  ty := by
    cases hu : t'.untyped j with
    | false => exact .inl (h.typed hu)
    | true =>
      obtain ⟨hmark, hvoid⟩ := Bool.and_eq_true_iff.mp hu
      exact .inr ⟨by simpa [judgeParen, Ty.isVoid] using hvoid, j, List.mem_cons_self, hmark⟩

/-! ### Calls of functions of the script -/

theorem userArgumentFaults_eq_nil (h : List.Forall₂ (Tree.Agrees t t') ids ids') (hclean : t.Clean)
    {name : String} {params : List Ty} {index : Nat}
    (hf : userArgumentFaults t name index params ids = []) :
    userArgumentFaults t' name index params ids' = [] := by
  induction h generalizing params index with
  | nil => cases params <;> rfl
  | @cons i j _ _ hij _ ih =>
    cases params with
    | nil => rfl
    | cons expected params =>
      simp only [userArgumentFaults, hclean.untyped, Bool.false_or] at hf ⊢
      split at hf
      · rename_i hfits
        rw [if_pos (hij.fits (q := (assignable expected ·)) hfits)]
        exact ih hf
      · cases hf

/-- Parameters that belong together have the same types. -/
theorem paramTypes_linked (ht : t.Linked n L t') (h : List.Forall₂ L.vars ids ids') :
    ids'.map (fun p => ((t'.var? p).map (·.ty)).getD .void)
      = ids.map fun p => ((t.var? p).map (·.ty)).getD .void := by
  induction h with
  | nil => rfl
  | cons hp _ ih => rw [List.map_cons, List.map_cons, ih, ht.varType hp]

theorem judgeUserCall_follows {name : String} {function function' : NodeId} {f f' : FunctionNode}
    {span span' : Span} (hs : env'.isStatic = env.isStatic) (ht : t.Linked n L t')
    (htype : f'.returnType = f.returnType) (hparams : List.Forall₂ L.vars f.params f'.params)
    (h : List.Forall₂ (Tree.Agrees t t') ids ids') (hclean : t.Clean)
    (hf : (judgeUserCall env t name function f ids span).faults = []) :
    (judgeUserCall env t name function f ids span).Follows t'
      (judgeUserCall env' t' name function' f' ids' span') [] where
  faults := by
    unfold judgeUserCall at hf ⊢
    simp only [paramTypes_linked ht hparams, ← h.length_eq, List.append_eq_nil_iff] at hf ⊢
    refine ⟨staticFaults_eq_nil hs hf.1, ?_⟩
    have hfits := hf.2
    split at hfits
    · cases hfits
    · rename_i hcount
      rw [if_neg hcount]
      exact userArgumentFaults_eq_nil h hclean hfits
  ty := .inl htype

/-! ### Calls of library functions -/

/-- An argument that may be wrong where the other has a value. -/
def Argument.Weakens (a a' : Argument) : Prop := (∃ ty, a = .typed ty) ∧ (a' = a ∨ a' = .untyped)

variable {args args' : List Argument} {f g : LibraryFunction} {overloads : List LibraryFunction}

namespace LibraryFunction

/-- Only arguments with a value are accepted. -/
theorem ne_void_of_accepted {k : Nat} {ty : Ty} (h : f.argumentMismatch? k (.typed ty) = none) :
    ty ≠ .void := by
  rintro rfl
  unfold argumentMismatch? at h
  simp only at h
  split at h
  · cases h
  · split at h
    · cases h
    · simp [assignable, Ty.isVoid] at h

/-- Arguments one by one, on both sides. -/
theorem getElem?_weaken (h : List.Forall₂ Argument.Weakens args args') {k : Nat} {a' : Argument}
    (ha' : args'[k]? = some a') :
    ∃ ty, args[k]? = some (.typed ty) ∧ (a' = .typed ty ∨ a' = .untyped) := by
  induction h generalizing k with
  | nil => simp at ha'
  | cons hab _ ih =>
    cases k with
    | zero =>
      obtain ⟨⟨ty, rfl⟩, hsame⟩ := hab
      obtain rfl := Option.some.inj ha'
      exact ⟨ty, rfl, hsame⟩
    | succ k => exact ih ha'

/-- Arguments that are wrong fit wherever they stand. -/
theorem accepts_weaken (h : List.Forall₂ Argument.Weakens args args') (hf : f.accepts args = true) :
    f.accepts args' = true := by
  rw [accepts_iff] at hf ⊢
  refine ⟨by rw [← h.length_eq]; exact hf.1, fun k a' ha' => ?_⟩
  obtain ⟨ty, ha, rfl | rfl⟩ := getElem?_weaken h ha'
  · exact hf.2 k _ ha
  · rfl

/-- A parameter of type `void` takes any number of arguments of any type. -/
theorem FixedTyped.variadic (hg : g.FixedTyped) {k : Nat} (h : g.paramTypeAt k = some .void) :
    g.isVariadic = true ∧ g.fixedCount ≤ k := by
  unfold paramTypeAt at h
  cases hp : g.params[k]? with
  | some p =>
    rw [hp] at h
    have hbeyond : g.fixedCount ≤ k := by
      by_contra hlt
      have hmem : p ∈ g.params.take g.fixedCount := List.mem_of_getElem?
        (i := k) (by rw [List.getElem?_take_of_lt (Nat.lt_of_not_le hlt), hp])
      exact hg p hmem (Option.some.inj h)
    have hlt := (List.getElem?_eq_some_iff.mp hp).1
    refine ⟨?_, hbeyond⟩
    by_contra hfixed
    rw [fixedCount_of_fixed (by simpa using hfixed)] at hbeyond
    exact absurd hlt (Nat.not_lt.mpr hbeyond)
  | none =>
    rw [hp] at h
    have hvariadic : g.isVariadic = true := by
      by_contra hfixed
      have hnone := paramTypeAt_of_fixed (f := g) (by simpa using hfixed) k
      rw [paramTypeAt, hp, List.getElem?_map, hp] at hnone
      rw [hnone] at h
      cases h
    refine ⟨hvariadic, ?_⟩
    have hle := List.getElem?_eq_none_iff.mp hp
    rw [fixedCount, if_pos hvariadic]
    exact Nat.le_trans (Nat.sub_le _ _) hle

/-- An overload that takes wrong arguments as they are takes the right ones as they are. -/
theorem exactly_of_weaken (hg : g.FixedTyped) (h : List.Forall₂ Argument.Weakens args args')
    (hvalues : ∀ (k : Nat) (ty : Ty), args[k]? = some (.typed ty) → ty ≠ .void)
    (haccepts : g.accepts args' = true) (hexact : g.exactly args' = true) :
    g.accepts args = true ∧ g.exactly args = true := by
  rw [accepts_iff] at haccepts ⊢
  have hfits : ∀ k a, args[k]? = some a → g.argumentMismatch? k a = none
      ∧ ∃ t, g.paramTypeAt k = some t ∧ (t = a.ty ∨ t = .void) := by
    intro k a ha
    obtain ⟨a', ha'⟩ : ∃ a', args'[k]? = some a' := by
      have hlt := (List.getElem?_eq_some_iff.mp ha).1
      rw [h.length_eq] at hlt
      exact ⟨_, List.getElem?_eq_getElem hlt⟩
    obtain ⟨ty, hty, hsame⟩ := getElem?_weaken h ha'
    obtain rfl := Option.some.inj (hty.symm.trans ha)
    obtain ⟨t, ht, htype⟩ := exactFrom_iff.mp hexact k a' ha'
    rw [Nat.zero_add] at ht
    rcases hsame with rfl | rfl
    · exact ⟨haccepts.2 k _ ha', t, ht, htype⟩
    · -- a wrong argument is taken as it is only by a variadic parameter
      obtain rfl : t = .void := htype.elim id id
      obtain ⟨hvariadic, hbeyond⟩ := hg.variadic ht
      refine ⟨?_, .void, ht, .inr rfl⟩
      simpa [argumentMismatch?, ht, hvariadic, hbeyond, Ty.isVoid] using hvalues k ty ha
  refine ⟨⟨by rw [h.length_eq]; exact haccepts.1, fun k a ha => (hfits k a ha).1⟩, ?_⟩
  refine exactFrom_iff.mpr fun k a ha => ?_
  rw [Nat.zero_add]
  exact (hfits k a ha).2

end LibraryFunction

/-- **The overload that a call means stays the same when arguments are wrong**, unless
it is no longer clear which one it means. -/
theorem selectOverload_weaken (hfixed : ∀ f ∈ overloads, f.FixedTyped)
    (h : List.Forall₂ Argument.Weakens args args') (hf : selectOverload overloads args = .ok f) :
    selectOverload overloads args' = .ok f
      ∨ selectOverload overloads args' = .error .ambiguous ∧ .untyped ∈ args' := by
  obtain ⟨hmem, haccepts⟩ := accepts_of_selectOverload hf
  have hmem' : f ∈ overloads.filter (·.accepts args') :=
    List.mem_filter.mpr ⟨hmem, LibraryFunction.accepts_weaken h haccepts⟩
  rcases selectOverload_cases overloads args' with
    ⟨hnil, -⟩ | ⟨g, hone, hselect⟩ | ⟨g, hone, hselect⟩ | ⟨-, -, hselect⟩
  · rw [hnil] at hmem'
    cases hmem'
  · rw [hone, List.mem_singleton] at hmem'
    exact .inl (hmem' ▸ hselect)
  · -- the only overload that takes the arguments as they are
    have hg : g ∈ (overloads.filter (·.accepts args')).filter (·.exactly args') :=
      hone ▸ List.mem_singleton_self g
    obtain ⟨hg, hexact'⟩ := List.mem_filter.mp hg
    obtain ⟨hg, haccepts'⟩ := List.mem_filter.mp hg
    obtain ⟨hgaccepts, hgexact⟩ := LibraryFunction.exactly_of_weaken (hfixed g hg) h
      (fun k ty hty => LibraryFunction.ne_void_of_accepted
        ((LibraryFunction.accepts_iff.mp haccepts).2 k _ hty)) haccepts' hexact'
    have hin : g ∈ overloads.filter (·.accepts args) := List.mem_filter.mpr ⟨hg, hgaccepts⟩
    have hsame : g = f := by
      rcases selectOverload_cases overloads args with
        ⟨-, hselect⟩ | ⟨f', hone, hselect⟩ | ⟨f', hone, hselect⟩ | ⟨-, -, hselect⟩
      · cases hselect.symm.trans hf
      · obtain rfl := Except.ok.inj (hselect.symm.trans hf)
        exact List.mem_singleton.mp (hone ▸ hin)
      · obtain rfl := Except.ok.inj (hselect.symm.trans hf)
        exact List.mem_singleton.mp (hone ▸ List.mem_filter.mpr ⟨hin, hgexact⟩)
      · cases hselect.symm.trans hf
    exact .inl (hsame ▸ hselect)
  · by_cases hwrong : .untyped ∈ args'
    · exact .inr ⟨hselect, hwrong⟩
    · -- then the arguments are the same
      have hsame : args' = args := by
        clear hf haccepts hmem' hselect
        induction h with
        | nil => rfl
        | cons hab _ ih =>
          rw [List.mem_cons, not_or] at hwrong
          rw [ih hwrong.2, hab.2.resolve_right fun hu => hwrong.1 hu.symm]
      rw [hsame, hf] at hselect
      cases hselect

theorem argumentOf_weakens (h : List.Forall₂ (Tree.Agrees t t') ids ids') (hclean : t.Clean) :
    List.Forall₂ Argument.Weakens (ids.map (argumentOf t)) (ids'.map (argumentOf t')) := by
  refine List.rel_map (fun i j hij => ?_) h
  have hi : argumentOf t i = .typed (t.exprType i) := by
    rw [argumentOf, hclean.untyped]
    rfl
  refine ⟨⟨_, hi⟩, ?_⟩
  cases hu : t'.untyped j with
  | true => exact .inr (by rw [argumentOf, hu]; rfl)
  | false => exact .inl (by rw [hi, argumentOf, hu, hij.typed hu]; rfl)

/-- **A call that nothing is wrong with means the same with wrong arguments**, or it is
given up without a word. -/
theorem chooseOverload_weaken {name : String} (hfixed : ∀ f ∈ overloads, f.FixedTyped)
    (h : List.Forall₂ Argument.Weakens args args')
    (hf : chooseOverload overloads name args = .ok (f, [])) :
    chooseOverload overloads name args' = .ok (f, [])
      ∨ chooseOverload overloads name args' = .error none := by
  unfold chooseOverload at hf ⊢
  rcases overloads with _ | ⟨only, _ | ⟨second, rest⟩⟩
  · cases hf
  · simp only [Except.ok.injEq, Prod.mk.injEq] at hf ⊢
    obtain ⟨rfl, hnone⟩ := hf
    have haccepts : only.accepts args = true := by
      rw [LibraryFunction.accepts, Option.isNone_iff_eq_none]
      cases hm : only.mismatch? args with
      | none => rfl
      | some m => simp [hm] at hnone
    have haccepts' := LibraryFunction.accepts_weaken h haccepts
    rw [LibraryFunction.accepts, Option.isNone_iff_eq_none] at haccepts'
    exact .inl ⟨rfl, by rw [haccepts']; rfl⟩
  · simp only at hf ⊢
    cases hselect : selectOverload (only :: second :: rest) args with
    | error e =>
      rw [hselect] at hf
      cases e
      · cases hf
      · simp only at hf
        split at hf <;> cases hf
    | ok g =>
      rw [hselect] at hf
      obtain rfl : g = f := congrArg Prod.fst (Except.ok.inj hf)
      rcases selectOverload_weaken hfixed h hselect with hok | ⟨hno, hwrong⟩
      · rw [hok]
        exact .inl rfl
      · rw [hno]
        exact .inr (if_pos (List.contains_iff_mem.mpr hwrong))

theorem judgeLibraryCall_follows {name : String} {span span' : Span}
    (hs : env'.isStatic = env.isStatic)
    (hf : (judgeLibraryCall env name f [] ids span).faults = []) :
    (judgeLibraryCall env name f [] ids span).Follows t'
      (judgeLibraryCall env' name f [] ids' span') [] where
  faults := by
    unfold judgeLibraryCall at hf ⊢
    simp only [List.map_nil, List.append_nil] at hf ⊢
    exact staticFaults_eq_nil hs hf
  ty := .inl rfl

end Lsl
