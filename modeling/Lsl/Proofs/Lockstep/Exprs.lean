/- # Expressions side by side

Where names stand for nodes that belong together, both runs judge an expression
alike: operands that belong together have the same types, and what is wrong with
them is the same.

Key definitions: `Env.Twin`, `Judgement.rename`.
Key theorems: `bindName_twin`, `finishExpr_sim`, `resolveExpr_sim`.
-/
import Lsl.Proofs.Lockstep.Steps

namespace Lsl

variable {F : Pairing} {inside : Bool} {run run' : Run} {t t' : Tree} {env env' : Env} {m n : Nat}

/-! ### Names that belong together -/

/-- What is known of a body without its names. -/
def Body.frame (b : Body) : String × Ty × Bool := (b.name, b.returnType, b.isEvent)

/-- Names stand for nodes that belong together. -/
structure Env.Twin (F : Pairing) (m : Nat) (env env' : Env) : Prop where
  library : env'.library = env.library
  warnUnused : env'.warnUnused = env.warnUnused
  functions : ∀ name, env'.functions.lookup name = (env.functions.lookup name).map F.map
  callable : ∀ name, ∀ id ∈ env.functions.lookup name, F.notable id
  states : ∀ name, env'.states.lookup name = (env.states.lookup name).map F.map
  globals : ∀ name, env'.globals.lookup name = (env.globals.lookup name).map F.map
  global : ∀ name, ∀ id ∈ env.globals.lookup name, F.own id ∨ F.notable id
  body : env'.body.map Body.frame = env.body.map Body.frame
  params : ∀ name, env'.param? name = (env.param? name).map F.map
  param : ∀ name, ∀ id ∈ env.param? name, F.own id ∨ F.notable id
  labels : ∀ name, env'.label? name = (env.label? name).map F.map
  label : ∀ name, ∀ id ∈ env.label? name, F.At m id

theorem Env.Twin.mono (h : env.Twin F m env') (hle : m ≤ n) : env.Twin F n env' :=
  { h with label := fun name id hid => (h.label name id hid).mono hle }

theorem Env.Twin.isStatic (h : env.Twin F m env') : env'.isStatic = env.isStatic := by
  have := congrArg Option.isNone h.body
  rwa [Option.isNone_map, Option.isNone_map] at this

theorem Env.Twin.staticFaults (h : env.Twin F m env') (what : String) (span : Span) :
    staticFaults env' what span = staticFaults env what span := by
  rw [Lsl.staticFaults, h.isStatic, Lsl.staticFaults]

theorem lookup_rename (f : NodeId → NodeId) (names : Names) (name : String) :
    (names.map fun x => (x.1, f x.2)).lookup name = (names.lookup name).map f := by
  induction names with
  | nil => rfl
  | cons x rest ih =>
    rw [List.map_cons, List.lookup_cons, List.lookup_cons]
    cases name == x.1 with
    | true => rfl
    | false => exact ih

theorem ScopeStack.lookup?_rename (f : NodeId → NodeId) (s : ScopeStack) (name : String) :
    (s.rename f).lookup? name = (s.lookup? name).map f := by
  rw [lookup?, lookup?, rename, List.findSome?_map]
  induction s.frames with
  | nil => rfl
  | cons fr rest ih =>
    simp only [List.findSome?_cons, Function.comp_apply, lookup_rename]
    cases fr.locals.lookup name with
    | none => exact ih
    | some id => rfl

theorem ScopeStack.mem_of_lookup? {s : ScopeStack} {name : String} {id : NodeId}
    (h : s.lookup? name = some id) : ∃ fr ∈ s.frames, (name, id) ∈ fr.locals := by
  obtain ⟨fr, hfr, hid⟩ := List.exists_of_findSome?_eq_some h
  refine ⟨fr, hfr, ?_⟩
  obtain ⟨l₁, l₂, hl, -⟩ := List.lookup_eq_some_iff.mp hid
  exact hl ▸ List.mem_append_right _ List.mem_cons_self

/-- A name stands for what belongs together, or for the same constant. -/
theorem bindName_twin (henv : env.Twin F m env') {scopes : ScopeStack}
    (hlocals : ∀ fr ∈ scopes.frames, ∀ x ∈ fr.locals, F.At n x.2) (name : String) :
    bindName env' (scopes.rename F.map) name = (bindName env scopes name).map (·.rename F.map)
      ∧ ∀ b ∈ bindName env scopes name, ∀ d ∈ b.decl?, F.own d ∨ F.notable d := by
  unfold bindName
  rw [ScopeStack.lookup?_rename, henv.params, henv.globals, henv.library]
  rcases hlocal : scopes.lookup? name with _ | d
  · rcases hparam : env.param? name with _ | d
    · rcases hglobal : env.globals.lookup name with _ | d
      · refine ⟨?_, ?_⟩
        · simp only [Option.map_none, Option.none_or]
          cases env.library.constant? name <;> rfl
        · simp only [Option.map_none, Option.none_or, Option.mem_def, Option.map_eq_some_iff]
          rintro b ⟨k, -, rfl⟩ d hd
          cases hd
      · refine ⟨rfl, ?_⟩
        intro b hb d' hd'
        obtain rfl : Binding.global d = b := Option.some.inj hb
        obtain rfl : d = d' := Option.some.inj hd'
        exact henv.global name d hglobal
    · refine ⟨rfl, ?_⟩
      intro b hb d' hd'
      obtain rfl : Binding.param d = b := Option.some.inj hb
      obtain rfl : d = d' := Option.some.inj hd'
      exact henv.param name d hparam
  · refine ⟨rfl, ?_⟩
    intro b hb d' hd'
    obtain rfl : Binding.inner d = b := Option.some.inj hb
    obtain rfl : d = d' := Option.some.inj hd'
    obtain ⟨fr, hfr, hmem⟩ := ScopeStack.mem_of_lookup? hlocal
    exact .inl (hlocals fr hfr _ hmem).1

theorem bindingType_twin (h : t.Twin F t') {b : Binding}
    (hb : ∀ d ∈ b.decl?, F.own d ∨ F.notable d) :
    bindingType t' (b.rename F.map) = bindingType t b := by
  have hvar : ∀ {d : Nat}, F.own d ∨ F.notable d →
      ((t'.var? (F.map d)).map (·.ty)).getD .void = ((t.var? d).map (·.ty)).getD .void :=
    fun hd => by rw [h.varTy (hd.imp_right (F.known_of_notable _))]
  cases b with
  | constant k => rfl
  | global d | inner d | param d => exact hvar (hb d rfl)

/-! ### Judgements -/

def Judgement.rename (f : NodeId → NodeId) (j : Judgement) : Judgement := ⟨j.node.rename f, j.faults⟩

theorem filter_map_twin {xs : List NodeId} {p p' : NodeId → Bool} {α : Type} {g g' : NodeId → α}
    (hp : ∀ x ∈ xs, p' (F.map x) = p x) (hg : ∀ x ∈ xs, g' (F.map x) = g x) :
    ((xs.map F.map).filter p').map g' = (xs.filter p).map g := by
  rw [List.filter_map, List.map_map]
  rw [List.filter_congr fun x hx => (show (p' ∘ F.map) x = p x from hp x hx)]
  exact List.map_congr_left fun x hx => hg x (List.mem_filter.mp hx).1

theorem all_map_twin {xs : List NodeId} (p p' : NodeId → Bool)
    (hp : ∀ x ∈ xs, p' (F.map x) = p x) : (xs.map F.map).all p' = xs.all p := by
  rw [List.all_map, Bool.eq_iff_iff, List.all_eq_true, List.all_eq_true]
  exact forall₂_congr fun x hx => by rw [Function.comp_apply, hp x hx]

section Judgements

variable (h : t.Twin F t')
include h

theorem componentFaults_twin (literal : String) {ids : List NodeId} (hids : ∀ x ∈ ids, F.own x) :
    componentFaults t' literal (ids.map F.map) = componentFaults t literal ids :=
  filter_map_twin (fun x hx => by rw [h.untyped (hids x hx), h.exprType (hids x hx)])
    fun x hx => by rw [h.exprType (hids x hx), h.span (hids x hx)]

theorem judgeVector_twin {x y z : NodeId} (hids : ∀ i ∈ [x, y, z], F.own i) :
    judgeVector t' (F.map x) (F.map y) (F.map z) = (judgeVector t x y z).rename F.map := by
  have hall := all_map_twin (F := F) t.isConstant t'.isConstant
    fun i hi => h.isConstant (hids i hi)
  have hfaults := componentFaults_twin h "vector" hids
  simp only [List.map_cons, List.map_nil] at hall hfaults
  rw [judgeVector, hall, hfaults]
  rfl

theorem judgeRotation_twin {x y z s : NodeId} (hids : ∀ i ∈ [x, y, z, s], F.own i) :
    judgeRotation t' (F.map x) (F.map y) (F.map z) (F.map s)
      = (judgeRotation t x y z s).rename F.map := by
  have hall := all_map_twin (F := F) t.isConstant t'.isConstant
    fun i hi => h.isConstant (hids i hi)
  have hfaults := componentFaults_twin h "rotation" hids
  simp only [List.map_cons, List.map_nil] at hall hfaults
  rw [judgeRotation, hall, hfaults]
  rfl

theorem judgeList_twin {items : List NodeId} (hids : ∀ i ∈ items, F.own i) :
    judgeList t' (items.map F.map) = (judgeList t items).rename F.map := by
  have hall := all_map_twin (F := F) t.isConstant t'.isConstant
    fun i hi => h.isConstant (hids i hi)
  have hfaults : ((items.map F.map).filter fun id => !t'.untyped id
        && (t'.exprType id == .list || t'.exprType id == .void)).map
        (fun id => (Fault.invalidListElement (t'.exprType id), t'.span id))
      = (items.filter fun id => !t.untyped id
        && (t.exprType id == .list || t.exprType id == .void)).map
        fun id => (Fault.invalidListElement (t.exprType id), t.span id) :=
    filter_map_twin (fun x hx => by rw [h.untyped (hids x hx), h.exprType (hids x hx)])
      fun x hx => by rw [h.exprType (hids x hx), h.span (hids x hx)]
  rw [judgeList, hall, hfaults]
  rfl

theorem judgeComponent_twin {object : NodeId} (ho : F.own object) (c : Component) (span : Span) :
    judgeComponent t' (F.map object) c span = (judgeComponent t object c span).rename F.map := by
  rw [judgeComponent, h.exprType ho, h.isConstant ho, h.untyped ho]
  rfl

theorem assignmentFaults_twin {target : NodeId} (ho : F.own target) :
    assignmentFaults t' (F.map target) = assignmentFaults t target := by
  have hwhy : assignmentFault? t' (F.map target) = assignmentFault? t target := by
    unfold assignmentFault?
    rw [h.expr? ho]
    rcases he : t.expr? target with _ | ⟨kind, ty, constant⟩
    · rfl
    · -- what is written to is the node itself or the object of a component
      cases kind with
      | component object c =>
        have hobject : F.own object :=
          (h.inner target _ ho (Tree.expr?_eq_some.mp he) object List.mem_cons_self).1
        simp only [Option.map_some, ExprNode.rename, ExprKind.rename, h.expr? hobject,
          Option.map_map]
        rcases t.expr? object with _ | ⟨kind, ty, constant⟩
        · rfl
        · cases kind with
          | ref name binding => cases binding <;> rfl
          | _ => rfl
      | ref name binding => cases binding <;> rfl
      | _ => rfl
  rw [assignmentFaults, hwhy, h.untyped ho, h.span ho]
  rfl

theorem judgeBinary_twin (henv : env.Twin F m env') (op : BinaryOp) {left right : NodeId}
    (hl : F.own left) (hr : F.own right) (span : Span) :
    judgeBinary env' t' op (F.map left) (F.map right) span
      = (judgeBinary env t op left right span).rename F.map := by
  simp only [judgeBinary, h.exprType hl, h.exprType hr, h.untyped hl, h.untyped hr,
    h.isConstant hl, h.isConstant hr, assignmentFaults_twin h hl, henv.staticFaults]
  rfl

theorem judgePrefixed_twin (henv : env.Twin F m env') (op : PrefixOp) {operand : NodeId}
    (ho : F.own operand) (span : Span) :
    judgePrefixed env' t' op (F.map operand) span
      = (judgePrefixed env t op operand span).rename F.map := by
  simp only [judgePrefixed, h.exprType ho, h.untyped ho, h.isConstant ho,
    assignmentFaults_twin h ho, henv.staticFaults]
  rfl

theorem judgePostfixed_twin (henv : env.Twin F m env') (op : PostfixOp) {operand : NodeId}
    (ho : F.own operand) (span : Span) :
    judgePostfixed env' t' op (F.map operand) span
      = (judgePostfixed env t op operand span).rename F.map := by
  simp only [judgePostfixed, h.exprType ho, h.untyped ho, assignmentFaults_twin h ho,
    henv.staticFaults]
  rfl

theorem judgeCast_twin (henv : env.Twin F m env') (ty : Ty) {operand : NodeId}
    (ho : F.own operand) (span : Span) :
    judgeCast env' t' ty (F.map operand) span = (judgeCast env t ty operand span).rename F.map := by
  simp only [judgeCast, h.exprType ho, h.untyped ho, h.isConstant ho, henv.staticFaults]
  rfl

theorem judgeParen_twin (henv : env.Twin F m env') {operand : NodeId} (ho : F.own operand)
    (span : Span) :
    judgeParen env' t' (F.map operand) span = (judgeParen env t operand span).rename F.map := by
  simp only [judgeParen, h.exprType ho, h.isConstant ho, henv.staticFaults]
  rfl

theorem userArgumentFaults_twin (name : String) (index : Nat) (params : List Ty)
    {args : List NodeId} (hargs : ∀ a ∈ args, F.own a) :
    userArgumentFaults t' name index params (args.map F.map)
      = userArgumentFaults t name index params args := by
  induction args generalizing index params with
  | nil => cases params <;> rfl
  | cons a rest ih =>
    have ha := hargs a List.mem_cons_self
    cases params with
    | nil => rfl
    | cons ty params =>
      simp only [List.map_cons, userArgumentFaults, h.exprType ha, h.untyped ha, h.span ha,
        ih (index + 1) params fun b hb => hargs b (List.mem_cons_of_mem _ hb)]

theorem judgeUserCall_twin (henv : env.Twin F m env') (name : String) (function : NodeId)
    {decl decl' : FunctionNode} (hret : decl'.returnType = decl.returnType)
    (hparams : decl'.params = decl.params.map F.map) (hknown : ∀ p ∈ decl.params, F.known p)
    {args : List NodeId} (hargs : ∀ a ∈ args, F.own a) (span : Span) :
    judgeUserCall env' t' name (F.map function) decl' (args.map F.map) span
      = (judgeUserCall env t name function decl args span).rename F.map := by
  have htypes : (decl'.params.map fun p => ((t'.var? p).map (·.ty)).getD .void)
      = decl.params.map fun p => ((t.var? p).map (·.ty)).getD .void := by
    rw [hparams, List.map_map]
    exact List.map_congr_left fun p hp => by
      rw [Function.comp_apply, h.varTy (.inr (hknown p hp))]
  simp only [judgeUserCall, htypes, List.length_map, hret, henv.staticFaults,
    userArgumentFaults_twin h name 1 _ hargs]
  rfl

theorem argumentOf_twin {args : List NodeId} (hargs : ∀ a ∈ args, F.own a) :
    (args.map F.map).map (argumentOf t') = args.map (argumentOf t) := by
  rw [List.map_map]
  exact List.map_congr_left fun a ha => by
    rw [Function.comp_apply, argumentOf, h.untyped (hargs a ha), h.exprType (hargs a ha), argumentOf]

end Judgements

/-! ### Building nodes -/

theorem finishExpr_sim {j : Judgement} (h : run.Twin F inside run') (span : Span)
    (hc : ∀ c ∈ j.node.kind.children, F.At run.tree.size c) :
    Check.Sim F inside run run' (finishExpr j span) (finishExpr (j.rename F.map) span) F.Made := by
  unfold finishExpr
  refine .bind (.alloc h (.expr j.node) span hc) fun id id' r r' hr _ hid => ?_
  obtain ⟨rfl, hat⟩ := hid
  refine .when Iff.rfl hr (fun _ => .markError hr hat) fun r₁ r₁' hr₁ hle₁ => ?_
  refine .bind (.forMSame hr₁ fun x _ _ _ hs _ => .fault hs x.1 x.2) fun _ _ r₂ r₂' hr₂ hle₂ _ => ?_
  exact .pure hr₂ ⟨rfl, hat.mono (Nat.le_trans hle₁ hle₂)⟩

/-- Both runs judge operands as their trees have them. -/
theorem finishWith_sim {judge judge' : Tree → Judgement} (h : run.Twin F inside run') (span : Span)
    (hj : judge' run'.tree = (judge run.tree).rename F.map)
    (hc : ∀ c ∈ (judge run.tree).node.kind.children, F.At run.tree.size c) :
    Check.Sim F inside run run' (finishWith judge span) (finishWith judge' span) F.Made := by
  unfold finishWith
  refine .tree ?_
  rw [hj]
  exact finishExpr_sim h span hc

theorem resolveName_sim (henv : env.Twin F m env') (h : run.Twin F true run') (name : String)
    (span : Span) :
    Check.Sim F true run run' (resolveName env name span) (resolveName env' name span) F.Made := by
  have ha := h.around rfl
  obtain ⟨hbind, hdecl⟩ := bindName_twin henv ha.locals name
  unfold resolveName
  refine .get ?_
  rw [ha.scopes, hbind]
  rcases hb : bindName env run.scopes name with _ | binding
  · exact .bind (.fault h _ span) fun _ _ _ _ hr _ _ => .allocError hr span
  · have hd := hdecl binding hb
    have hty := bindingType_twin h.tree hd
    have hconst : (binding.rename F.map).isConstant = binding.isConstant := by cases binding <;> rfl
    have hdeprecated : (binding.rename F.map).isDeprecated = binding.isDeprecated := by
      cases binding <;> rfl
    simp only [Option.map_some, hty, hconst, hdeprecated]
    refine .when Iff.rfl h (fun _ => .warn h _ span) fun r r' hr _ => ?_
    refine .bind (.alloc hr (.expr ⟨.ref name binding, _, _⟩) span
      (by simp [NodeKind.mentions, NodeKind.children, ExprKind.children]))
      fun id id' r₁ r₁' hr₁ _ hid => ?_
    obtain ⟨rfl, hat⟩ := hid
    have hsize : (addReference r₁.tree binding id).size = r₁.tree.size := by
      unfold addReference
      split
      · exact Tree.size_modify _
      · rfl
    refine .bind (.modifyTree hr₁ (hr₁.tree.addReference binding id hd) hsize)
      fun _ _ r₂ r₂' hr₂ hle _ => .pure hr₂ ⟨rfl, hat.mono hle⟩

theorem resolveCast_sim (henv : env.Twin F m env') (h : run.Twin F inside run') (ty : Ty)
    {operand : NodeId} (ho : F.At run.tree.size operand) (span : Span) :
    Check.Sim F inside run run' (resolveCast env ty operand span)
      (resolveCast env' ty (F.map operand) span) F.Made := by
  have hredundant : castIsRedundant run'.tree ty (F.map operand)
      = castIsRedundant run.tree ty operand := by
    simp only [castIsRedundant, h.tree.exprType ho.1, h.tree.untyped ho.1]
  unfold resolveCast
  refine .tree ?_
  rw [hredundant, judgeCast_twin h.tree henv ty ho.1]
  refine .when Iff.rfl h (fun _ => .warn h _ span) fun r r' hr hle => finishExpr_sim hr span ?_
  rintro c hc
  rw [List.mem_singleton.mp hc]
  exact ho.mono hle

theorem resolveUserCall_sim (henv : env.Twin F m env') (h : run.Twin F inside run') (name : String)
    {function : NodeId} (hf : F.notable function) {args : List NodeId}
    (hargs : ∀ a ∈ args, F.At run.tree.size a) (span : Span) :
    Check.Sim F inside run run' (resolveUserCall env name function args span)
      (resolveUserCall env' name (F.map function) (args.map F.map) span) F.Made := by
  obtain ⟨k, k', hk, hk', hakin⟩ := h.tree.known function (F.known_of_notable _ hf)
  unfold resolveUserCall
  refine .tree ?_
  rw [Tree.function?, Tree.function?, hk, hk', Option.bind_some, Option.bind_some]
  rcases hdecl : k.function? with _ | decl
  · have hnone : k'.function? = none := by
      have hf := congrArg Heading.function hakin.heading
      simpa [NodeKind.heading, Heading.rename, hdecl] using hf
    rw [hnone]
    exact .allocError h span
  · obtain ⟨decl', hdecl', -, hret, hparams⟩ := NodeKind.function?_of_heading _ hakin.heading hdecl
    rw [hdecl']
    simp only [judgeUserCall_twin h.tree henv name function hret hparams
      (hakin.params decl hdecl) (fun a ha => (hargs a ha).1) span]
    refine .bind (finishExpr_sim h span hargs) fun id id' r r' hr _ hid => ?_
    obtain ⟨rfl, hat⟩ := hid
    refine .bind (.modifyTree hr (hr.tree.addCall id hf) (Tree.size_modify _))
      fun _ _ r₁ r₁' hr₁ hle _ => .pure hr₁ ⟨rfl, hat.mono hle⟩

theorem resolveLibraryCall_sim (henv : env.Twin F m env') (h : run.Twin F inside run')
    (name : String) {args : List NodeId} (hargs : ∀ a ∈ args, F.At run.tree.size a) (span : Span) :
    Check.Sim F inside run run' (resolveLibraryCall env name args span)
      (resolveLibraryCall env' name (args.map F.map) span) F.Made := by
  unfold resolveLibraryCall
  refine .tree ?_
  rw [henv.library, argumentOf_twin h.tree fun a ha => (hargs a ha).1]
  rcases chooseOverload (env.library.overloads name) name (args.map (argumentOf run.tree))
    with kind | ⟨f, faults⟩
  · rcases kind with _ | kind
    · exact .bind (.pure (V := fun _ _ _ => True) h trivial) fun _ _ _ _ hr _ _ => .allocError hr span
    · exact .bind (.fault h kind span) fun _ _ _ _ hr _ _ => .allocError hr span
  · have hjudge : judgeLibraryCall env' name f faults (args.map F.map) span
        = (judgeLibraryCall env name f faults args span).rename F.map := by
      rw [judgeLibraryCall, henv.staticFaults]
      rfl
    simp only [hjudge]
    exact .when Iff.rfl h (fun _ => .warn h _ span) fun r r' hr hle =>
      finishExpr_sim hr span fun a ha => (hargs a ha).mono hle

theorem resolveCall_sim (henv : env.Twin F m env') (h : run.Twin F inside run')
    (name : String) {args : List NodeId} (hargs : ∀ a ∈ args, F.At run.tree.size a) (span : Span) :
    Check.Sim F inside run run' (resolveCall env name args span)
      (resolveCall env' name (args.map F.map) span) F.Made := by
  unfold resolveCall
  rw [henv.functions]
  rcases hf : env.functions.lookup name with _ | function
  · exact resolveLibraryCall_sim henv h name hargs span
  · exact resolveUserCall_sim henv h name (henv.callable name function hf) hargs span

/-! ### Expressions -/

/-- Nodes that both runs made, one by one. -/
def Pairing.MadeAll (F : Pairing) (n : Nat) (as as' : List NodeId) : Prop :=
  as' = as.map F.map ∧ ∀ a ∈ as, F.At n a

section

variable (F : Pairing) (env env' : Env)

/-- Both runs resolve an expression alike. -/
def SimExpr (e : Expr) : Prop :=
  ∀ {run run' : Run}, run.Twin F true run' →
    Check.Sim F true run run' (resolveExpr env e) (resolveExpr env' e) F.Made

/-- The same of expressions that are resolved one by one. -/
def SimExprs (es : List Expr) : Prop :=
  ∀ {run run' : Run}, run.Twin F true run' →
    Check.Sim F true run run' (resolveExprs env es) (resolveExprs env' es) F.MadeAll

end

section

variable {x y z s object operand left right : Expr} {es : List Expr}

theorem simExprs_nil : SimExprs F env env' [] := by
  intro run run' h
  unfold resolveExprs
  exact .pure h ⟨rfl, by simp⟩

theorem simExprs_cons (hx : SimExpr F env env' x) (hes : SimExprs F env env' es) :
    SimExprs F env env' (x :: es) := by
  intro run run' h
  unfold resolveExprs
  refine .bind (hx h) fun id id' r r' hr _ hid => ?_
  refine .bind (hes hr) fun ids ids' r₁ r₁' hr₁ hle hids => ?_
  obtain ⟨rfl, hid⟩ := hid
  obtain ⟨rfl, hids⟩ := hids
  refine .pure hr₁ ⟨rfl, fun a ha => ?_⟩
  rcases List.mem_cons.mp ha with rfl | ha
  · exact hid.mono hle
  · exact hids a ha

theorem simExpr_integer (text : String) (span : Span) : SimExpr F env env' (.integer text span) :=
  fun h => finishExpr_sim (j := .of (.integer text) .integer true) h span
    (by simp [Judgement.of, ExprKind.children])

theorem simExpr_hex (text : String) (span : Span) : SimExpr F env env' (.hex text span) :=
  fun h => finishExpr_sim (j := .of (.hex text) .integer true) h span
    (by simp [Judgement.of, ExprKind.children])

theorem simExpr_float (text : String) (span : Span) : SimExpr F env env' (.float text span) :=
  fun h => finishExpr_sim (j := .of (.float text) .float true) h span
    (by simp [Judgement.of, ExprKind.children])

theorem simExpr_string (text : String) (span : Span) : SimExpr F env env' (.string text span) :=
  fun h => finishExpr_sim (j := judgeString text span) h span
    (by simp [judgeString, ExprKind.children])

theorem simExpr_ident (henv : env.Twin F m env') (name : String) (span : Span) :
    SimExpr F env env' (.ident name span) :=
  fun h => resolveName_sim henv h name span

theorem simExpr_vector (hx : SimExpr F env env' x) (hy : SimExpr F env env' y)
    (hz : SimExpr F env env' z) (span : Span) : SimExpr F env env' (.vector x y z span) := by
  intro run run' h
  refine .bind (hx h) fun x x' r₁ r₁' h₁ _ hx => ?_
  refine .bind (hy h₁) fun y y' r₂ r₂' h₂ hle₂ hy => ?_
  refine .bind (hz h₂) fun z z' r₃ r₃' h₃ hle₃ hz => ?_
  obtain ⟨rfl, hx⟩ := hx
  obtain ⟨rfl, hy⟩ := hy
  obtain ⟨rfl, hz⟩ := hz
  have hparts : ∀ i ∈ [x, y, z], F.At r₃.tree.size i := by
    simp only [List.mem_cons, List.not_mem_nil, or_false, forall_eq_or_imp, forall_eq]
    exact ⟨hx.mono (Nat.le_trans hle₂ hle₃), hy.mono hle₃, hz⟩
  exact finishWith_sim h₃ span (judgeVector_twin h₃.tree fun i hi => (hparts i hi).1) hparts

theorem simExpr_rotation (hx : SimExpr F env env' x) (hy : SimExpr F env env' y)
    (hz : SimExpr F env env' z) (hs : SimExpr F env env' s) (span : Span) :
    SimExpr F env env' (.rotation x y z s span) := by
  intro run run' h
  refine .bind (hx h) fun x x' r₁ r₁' h₁ _ hx => ?_
  refine .bind (hy h₁) fun y y' r₂ r₂' h₂ hle₂ hy => ?_
  refine .bind (hz h₂) fun z z' r₃ r₃' h₃ hle₃ hz => ?_
  refine .bind (hs h₃) fun s s' r₄ r₄' h₄ hle₄ hs => ?_
  obtain ⟨rfl, hx⟩ := hx
  obtain ⟨rfl, hy⟩ := hy
  obtain ⟨rfl, hz⟩ := hz
  obtain ⟨rfl, hs⟩ := hs
  have hparts : ∀ i ∈ [x, y, z, s], F.At r₄.tree.size i := by
    simp only [List.mem_cons, List.not_mem_nil, or_false, forall_eq_or_imp, forall_eq]
    exact ⟨hx.mono (Nat.le_trans hle₂ (Nat.le_trans hle₃ hle₄)),
      hy.mono (Nat.le_trans hle₃ hle₄), hz.mono hle₄, hs⟩
  exact finishWith_sim h₄ span (judgeRotation_twin h₄.tree fun i hi => (hparts i hi).1) hparts

theorem simExpr_list (hes : SimExprs F env env' es) (span : Span) :
    SimExpr F env env' (.list es span) := by
  intro run run' h
  refine .bind (hes h) fun items items' r r' hr _ hitems => ?_
  obtain ⟨rfl, hitems⟩ := hitems
  exact finishWith_sim hr span (judgeList_twin hr.tree fun i hi => (hitems i hi).1) hitems

theorem simExpr_component (ho : SimExpr F env env' object) (c : Component) (span : Span) :
    SimExpr F env env' (.component object c span) := by
  intro run run' h
  refine .bind (ho h) fun object object' r r' hr _ ho => ?_
  obtain ⟨rfl, ho⟩ := ho
  exact finishWith_sim hr span (judgeComponent_twin hr.tree ho.1 c span)
    fun i hi => List.mem_singleton.mp hi ▸ ho

theorem simExpr_call (henv : env.Twin F m env') (name : String) (hes : SimExprs F env env' es)
    (span : Span) : SimExpr F env env' (.call name es span) := by
  intro run run' h
  refine .bind (hes h) fun args args' r r' hr _ hargs => ?_
  obtain ⟨rfl, hargs⟩ := hargs
  exact resolveCall_sim henv hr name hargs span

theorem simExpr_binary (henv : env.Twin F m env') (op : BinaryOp) (hl : SimExpr F env env' left)
    (hr : SimExpr F env env' right) (span : Span) :
    SimExpr F env env' (.binary op left right span) := by
  intro run run' h
  refine .bind (hl h) fun left left' r₁ r₁' h₁ _ hl => ?_
  refine .bind (hr h₁) fun right right' r₂ r₂' h₂ hle₂ hr => ?_
  obtain ⟨rfl, hl⟩ := hl
  obtain ⟨rfl, hr⟩ := hr
  refine finishWith_sim h₂ span (judgeBinary_twin h₂.tree henv op hl.1 hr.1 span) fun i hi => ?_
  rcases List.mem_cons.mp hi with rfl | hi
  · exact hl.mono hle₂
  · exact List.mem_singleton.mp hi ▸ hr

theorem simExpr_prefixed (henv : env.Twin F m env') (op : PrefixOp)
    (ho : SimExpr F env env' operand) (span : Span) :
    SimExpr F env env' (.prefixed op operand span) := by
  intro run run' h
  refine .bind (ho h) fun operand operand' r r' hr _ ho => ?_
  obtain ⟨rfl, ho⟩ := ho
  exact finishWith_sim hr span (judgePrefixed_twin hr.tree henv op ho.1 span)
    fun i hi => List.mem_singleton.mp hi ▸ ho

theorem simExpr_postfixed (henv : env.Twin F m env') (op : PostfixOp)
    (ho : SimExpr F env env' operand) (span : Span) :
    SimExpr F env env' (.postfixed op operand span) := by
  intro run run' h
  refine .bind (ho h) fun operand operand' r r' hr _ ho => ?_
  obtain ⟨rfl, ho⟩ := ho
  exact finishWith_sim hr span (judgePostfixed_twin hr.tree henv op ho.1 span)
    fun i hi => List.mem_singleton.mp hi ▸ ho

theorem simExpr_cast (henv : env.Twin F m env') (ty : Ty) (ho : SimExpr F env env' operand)
    (span : Span) : SimExpr F env env' (.cast ty operand span) := by
  intro run run' h
  refine .bind (ho h) fun operand operand' r r' hr _ ho => ?_
  obtain ⟨rfl, ho⟩ := ho
  exact resolveCast_sim henv hr ty ho span

theorem simExpr_paren (henv : env.Twin F m env') (ho : SimExpr F env env' operand) (span : Span) :
    SimExpr F env env' (.paren operand span) := by
  intro run run' h
  refine .bind (ho h) fun inner inner' r r' hr _ ho => ?_
  obtain ⟨rfl, ho⟩ := ho
  exact finishWith_sim hr span (judgeParen_twin hr.tree henv ho.1 span)
    fun i hi => List.mem_singleton.mp hi ▸ ho

end

mutual

theorem simExpr (henv : env.Twin F m env') : (e : Expr) → SimExpr F env env' e
  | .integer text span => simExpr_integer text span
  | .hex text span => simExpr_hex text span
  | .float text span => simExpr_float text span
  | .string text span => simExpr_string text span
  | .ident name span => simExpr_ident henv name span
  | .vector x y z span => simExpr_vector (simExpr henv x) (simExpr henv y) (simExpr henv z) span
  | .rotation x y z s span =>
    simExpr_rotation (simExpr henv x) (simExpr henv y) (simExpr henv z) (simExpr henv s) span
  | .list items span => simExpr_list (simExprs henv items) span
  | .component object c span => simExpr_component (simExpr henv object) c span
  | .call name args span => simExpr_call henv name (simExprs henv args) span
  | .binary op left right span =>
    simExpr_binary henv op (simExpr henv left) (simExpr henv right) span
  | .prefixed op operand span => simExpr_prefixed henv op (simExpr henv operand) span
  | .postfixed op operand span => simExpr_postfixed henv op (simExpr henv operand) span
  | .cast ty operand span => simExpr_cast henv ty (simExpr henv operand) span
  | .paren inner span => simExpr_paren henv (simExpr henv inner) span

theorem simExprs (henv : env.Twin F m env') : (es : List Expr) → SimExprs F env env' es
  | [] => simExprs_nil
  | e :: rest => simExprs_cons (simExpr henv e) (simExprs henv rest)

end

/-- **Both runs resolve an expression alike.** -/
theorem resolveExpr_sim {run run' : Run} (henv : env.Twin F m env') (h : run.Twin F true run')
    (e : Expr) : Check.Sim F true run run' (resolveExpr env e) (resolveExpr env' e) F.Made :=
  simExpr henv e h

theorem resolveExprs_sim {run run' : Run} (henv : env.Twin F m env') (h : run.Twin F true run')
    (es : List Expr) :
    Check.Sim F true run run' (resolveExprs env es) (resolveExprs env' es) F.MadeAll :=
  simExprs henv es h

/-- Nodes that both runs made, or nothing on both sides. -/
def Pairing.MadeOption (F : Pairing) (n : Nat) (a a' : Option NodeId) : Prop :=
  a' = a.map F.map ∧ ∀ i ∈ a, F.At n i

theorem resolveOption_sim (henv : env.Twin F m env') (h : run.Twin F true run') (e : Option Expr) :
    Check.Sim F true run run' (resolveOption env e) (resolveOption env' e) F.MadeOption := by
  unfold resolveOption
  cases e with
  | none => exact .pure h ⟨rfl, by simp⟩
  | some e =>
    refine .bind (resolveExpr_sim henv h e) fun id id' r r' hr _ hid => ?_
    obtain ⟨rfl, hid⟩ := hid
    exact .pure hr ⟨rfl, by simpa using hid⟩

theorem resolveCondition_sim (henv : env.Twin F m env') (h : run.Twin F true run') (cond : Expr) :
    Check.Sim F true run run' (resolveCondition env cond) (resolveCondition env' cond) F.Made := by
  unfold resolveCondition
  refine .bind (resolveExpr_sim henv h cond) fun id id' r r' hr _ hid => ?_
  obtain ⟨rfl, hid⟩ := hid
  refine .tree ?_
  simp only [hr.tree.untyped hid.1, hr.tree.exprType hid.1, hr.tree.isConstant hid.1]
  refine .ite Iff.rfl (fun _ => .pure hr ⟨rfl, hid⟩) fun _ => ?_
  refine .ite Iff.rfl (fun _ => ?_) fun _ => ?_
  · exact .bind (.faultAt hr hid _ _) fun _ _ r₁ r₁' hr₁ hle _ => .pure hr₁ ⟨rfl, hid.mono hle⟩
  · exact .when Iff.rfl hr (fun _ => .warn hr _ _) fun r₁ r₁' hr₁ hle =>
      .pure hr₁ ⟨rfl, hid.mono hle⟩

theorem checkInitializer_sim (h : run.Twin F inside run') {decl init : NodeId}
    (hd : F.At run.tree.size decl) (hi : F.own init) (name : String) (ty : Ty) :
    Check.Sim F inside run run' (checkInitializer decl name ty init)
      (checkInitializer (F.map decl) name ty (F.map init)) fun _ _ _ => True := by
  unfold checkInitializer
  refine .tree ?_
  simp only [h.tree.untyped hi, h.tree.exprType hi, h.tree.span hi]
  exact .ite Iff.rfl (fun _ => .faultAt h hd _ _) fun _ => .pure h trivial

end Lsl
