/- # How expressions are resolved

An expression is resolved in two steps: first its operands, from the first to the
last, then its own node. This is the node of a judgement, made of the nodes of the
operands, marked if the judgement finds a fault, and noted at what it refers to; or,
where a name or a call means nothing, it is an error. So what is true of the resolving
of expressions is shown of judgements and of errors, and carried over the operands.

Key definitions: `Judgement.Marks`, `Judgement.tree`, `Expr.operands`, `Expr.Judged`,
`Expr.Rejected`, `Expr.Made`.
Key theorems: `finishExpr_run`, `Expr.Judged.marks`, `Expr.Judged.children`,
`resolveExpr_made`, `exprs_induction`.
-/
import Lsl.Check.Expr
import Lsl.Proofs.Tree.Placing

namespace Lsl

/-! ### Steps that cannot fail -/

namespace Check

variable {α β : Type}

theorem bind_run (x : Check α) (f : α → Check β) (run : Run) :
    (x >>= f) run = f (x run).1 (x run).2 := rfl

theorem pure_run (a : α) (run : Run) : (pure a : Check α) run = (a, run) := rfl

theorem ite_run (c : Prop) [Decidable c] (x y : Check α) (run : Run) :
    (if c then x else y) run = if c then x run else y run := by
  split <;> rfl

theorem tree_run (run : Run) : Check.tree run = (run.tree, run) := rfl

theorem get_run (run : Run) : (get : Check Run) run = (run, run) := rfl

theorem forM_cons_run (a : α) (rest : List α) (f : α → Check PUnit) (run : Run) :
    (a :: rest).forM f run = rest.forM f (f a run).2 := rfl

theorem fault_run (kind : Fault) (span : Span) (run : Run) :
    Check.fault kind span run
      = ((), { run with notices := run.notices ++ [.fault kind span] }) := rfl

end Check

/-! ### Judgements -/

/-- A name was looked up and stands for nothing. -/
def Fault.isLookup : Fault → Bool
  | undefinedVariable _ | undefinedFunction _ | jumpToUndefinedLabel _ => true
  | _ => false

/-- An error that a judgement may report: it marks a node, and is neither about
dead code nor about a name that stands for nothing. -/
def Fault.OfExpr (kind : Fault) : Prop :=
  kind ≠ .missingDefaultState ∧ (∀ name, kind ≠ .deadCodeAfterReturn name) ∧ kind.isLookup = false

/-- Errors that mark an expression. -/
def AllMark (faults : List (Fault × Span)) : Prop := ∀ x ∈ faults, x.1.OfExpr

/-- What a judgement reports marks its node. -/
def Judgement.Marks (j : Judgement) : Prop := AllMark j.faults

section

variable {faults faults' : List (Fault × Span)} (t : Tree) (span : Span)

theorem allMark_nil : AllMark [] := fun _ h => absurd h List.not_mem_nil

theorem allMark_singleton {kind : Fault} (h : kind.OfExpr) :
    AllMark [(kind, span)] := by
  intro x hx
  rw [List.mem_singleton] at hx
  rwa [hx]

theorem AllMark.append (h : AllMark faults) (h' : AllMark faults') : AllMark (faults ++ faults') :=
  fun x hx => (List.mem_append.mp hx).elim (h x) (h' x)

theorem AllMark.ite {c : Prop} [Decidable c] (h : AllMark faults) (h' : AllMark faults') :
    AllMark (if c then faults else faults') := by
  split
  · exact h
  · exact h'

theorem allMark_map {α : Type} (xs : List α) {f : α → Fault × Span}
    (h : ∀ a, (f a).1.OfExpr) : AllMark (xs.map f) := by
  intro x hx
  obtain ⟨a, -, rfl⟩ := List.mem_map.mp hx
  exact h a

theorem allMark_staticFaults (env : Env) (what : String) : AllMark (staticFaults env what span) :=
  .ite (allMark_singleton span (by simp [Fault.OfExpr, Fault.isLookup])) allMark_nil

theorem allMark_assignmentFaults (target : NodeId) : AllMark (assignmentFaults t target) := by
  unfold assignmentFaults
  split
  · rename_i kind hk
    refine .ite allMark_nil (allMark_singleton _ ?_)
    unfold assignmentFault? at hk
    unfold Fault.OfExpr Fault.isLookup
    grind
  · exact allMark_nil

theorem allMark_typeOr (result : Option Ty) {kind : Fault} (h : kind.OfExpr) :
    AllMark (typeOr result kind span).2 := by
  unfold typeOr
  split
  · exact allMark_nil
  · exact allMark_singleton span h

/-- The type of an operation is not looked at when an operand is untyped. -/
theorem allMark_typed {c : Prop} [Decidable c] (result : Option Ty) {kind : Fault}
    (h : kind.OfExpr) :
    AllMark (if c then (Ty.void, []) else typeOr result kind span).2 := by
  split
  · exact allMark_nil
  · exact allMark_typeOr span result h

theorem allMark_userArgumentFaults (name : String) (index : Nat) (params : List Ty)
    (args : List NodeId) : AllMark (userArgumentFaults t name index params args) := by
  induction params generalizing index args with
  | nil => exact allMark_nil
  | cons expected params ih =>
    cases args with
    | nil => exact allMark_nil
    | cons arg args =>
      refine .ite (ih _ _) ?_
      exact .append (allMark_singleton _ (by simp [Fault.OfExpr, Fault.isLookup])) (ih _ _)

/-- A call without an overload calls nothing that there is, or is an error that
marks it, or one of its arguments is wrong already. -/
theorem chooseOverload_error {overloads : List LibraryFunction} {name : String}
    {args : List Argument} {kind : Option Fault}
    (h : chooseOverload overloads name args = .error kind) :
    (overloads = [] ∧ kind = some (.undefinedFunction name))
      ∨ (overloads ≠ [] ∧ (∀ k ∈ kind, k.OfExpr) ∧ (kind = none → .untyped ∈ args)) := by
  unfold chooseOverload at h
  split at h
  · obtain rfl := Except.error.inj h
    exact .inl ⟨rfl, rfl⟩
  · simp at h
  · rename_i hnil _
    refine .inr ⟨hnil, ?_⟩
    split at h
    · simp at h
    · split at h
      · rename_i hu
        obtain rfl := Except.error.inj h
        simpa using hu
      · obtain rfl := Except.error.inj h
        simp [Fault.OfExpr, Fault.isLookup]
    · obtain rfl := Except.error.inj h
      simp [Fault.OfExpr, Fault.isLookup]

/-- What marks a call that has no overload. -/
theorem chooseOverload_marks {overloads : List LibraryFunction} {name : String}
    {args : List Argument} {kind : Fault}
    (h : chooseOverload overloads name args = .error (some kind)) :
    kind ≠ .missingDefaultState := by
  rcases chooseOverload_error h with ⟨-, hk⟩ | ⟨-, hk, -⟩
  · rw [Option.some.inj hk]
    simp
  · exact (hk kind rfl).1

theorem mem_of_selectOverload {overloads : List LibraryFunction} {args : List Argument}
    {f : LibraryFunction} (h : selectOverload overloads args = .ok f) : f ∈ overloads := by
  have hfilter : ∀ {p : LibraryFunction → Bool} {l : List LibraryFunction}, l.filter p = [f] →
      f ∈ l := fun hl => (List.mem_filter.mp (hl ▸ List.mem_singleton_self f)).1
  unfold selectOverload at h
  split at h
  · simp at h
  · rename_i only hl
    obtain rfl := Except.ok.inj h
    exact hfilter hl
  · split at h
    · rename_i only hl
      obtain rfl := Except.ok.inj h
      exact (List.mem_filter.mp (hfilter hl)).1
    · simp at h

theorem chooseOverload_ok {overloads : List LibraryFunction} {name : String}
    {args : List Argument} {f : LibraryFunction} {faults : List Fault}
    (h : chooseOverload overloads name args = .ok (f, faults)) :
    f ∈ overloads ∧ ∀ k ∈ faults, k.OfExpr := by
  unfold chooseOverload at h
  split at h
  · simp at h
  · rename_i only
    simp only [Except.ok.injEq, Prod.mk.injEq] at h
    refine ⟨by simp [h.1], fun k hk => ?_⟩
    rw [← h.2, Option.mem_toList, Option.map_eq_some_iff] at hk
    obtain ⟨m, -, rfl⟩ := hk
    cases m <;> simp [mismatchFault, Fault.OfExpr, Fault.isLookup]
  · split at h
    · rename_i hsel
      simp only [Except.ok.injEq, Prod.mk.injEq] at h
      exact ⟨h.1 ▸ mem_of_selectOverload hsel, by simp [← h.2]⟩
    · split at h <;> simp at h
    · simp at h

end

section

variable (env : Env) (t : Tree) (span : Span)

theorem marks_judgeString (text : String) : (judgeString text span).Marks :=
  allMark_map _ fun _ => by simp [Fault.OfExpr, Fault.isLookup]

theorem marks_judgeVector (x y z : NodeId) : (judgeVector t x y z).Marks :=
  allMark_map _ fun _ => by simp [Fault.OfExpr, Fault.isLookup]

theorem marks_judgeRotation (x y z s : NodeId) : (judgeRotation t x y z s).Marks :=
  allMark_map _ fun _ => by simp [Fault.OfExpr, Fault.isLookup]

theorem marks_judgeList (items : List NodeId) : (judgeList t items).Marks :=
  allMark_map _ fun _ => by simp [Fault.OfExpr, Fault.isLookup]

theorem marks_judgeComponent (object : NodeId) (c : Component) :
    (judgeComponent t object c span).Marks :=
  .ite allMark_nil (allMark_singleton span (by simp [Fault.OfExpr, Fault.isLookup]))

theorem marks_judgeBinary (op : BinaryOp) (left right : NodeId) :
    (judgeBinary env t op left right span).Marks :=
  ((allMark_staticFaults span env _).append
    (.ite (allMark_assignmentFaults _ _) allMark_nil)).append
      (allMark_typed span _ (by simp [Fault.OfExpr, Fault.isLookup]))

theorem marks_judgePrefixed (op : PrefixOp) (operand : NodeId) :
    (judgePrefixed env t op operand span).Marks :=
  ((AllMark.ite allMark_nil (allMark_staticFaults span env _)).append
    (.ite (allMark_assignmentFaults _ _) allMark_nil)).append
      (allMark_typed span _ (by simp [Fault.OfExpr, Fault.isLookup]))

theorem marks_judgePostfixed (op : PostfixOp) (operand : NodeId) :
    (judgePostfixed env t op operand span).Marks :=
  ((allMark_staticFaults span env _).append (allMark_assignmentFaults _ _)).append
    (allMark_typed span _ (by simp [Fault.OfExpr, Fault.isLookup]))

theorem marks_judgeCast (ty : Ty) (operand : NodeId) : (judgeCast env t ty operand span).Marks :=
  (allMark_staticFaults span env _).append
    (.ite allMark_nil (allMark_singleton span (by simp [Fault.OfExpr, Fault.isLookup])))

theorem marks_judgeParen (inner : NodeId) : (judgeParen env t inner span).Marks :=
  allMark_staticFaults span env _

theorem marks_judgeUserCall (name : String) (function : NodeId) (decl : FunctionNode)
    (args : List NodeId) : (judgeUserCall env t name function decl args span).Marks :=
  (allMark_staticFaults span env _).append
    (.ite (allMark_singleton span (by simp [Fault.OfExpr, Fault.isLookup]))
      (allMark_userArgumentFaults _ _ _ _ _))

theorem marks_judgeLibraryCall (name : String) (f : LibraryFunction) {faults : List Fault}
    (args : List NodeId) (hf : ∀ k ∈ faults, k.OfExpr) :
    (judgeLibraryCall env name f faults args span).Marks := by
  refine (allMark_staticFaults span env _).append fun x hx => ?_
  obtain ⟨k, hk, rfl⟩ := List.mem_map.mp hx
  exact hf k hk

end

/-! ### Building nodes -/

theorem forM_fault_run (faults : List (Fault × Span)) (run : Run) :
    (faults.forM (fun (kind, span) => Check.fault kind span) run).2
      = { run with notices := run.notices ++ faults.map fun x => .fault x.1 x.2 } := by
  induction faults generalizing run with
  | nil => simp [List.forM, Check.pure_run]
  | cons x rest ih =>
    rw [Check.forM_cons_run, ih]
    simp [Check.fault_run]

/-- The tree after a judgement: its node, which is marked if something is wrong. -/
def Judgement.tree (j : Judgement) (span : Span) (t : Tree) : Tree :=
  let t' := (t.alloc (.expr j.node) span).1
  if j.faults.isEmpty then t' else t'.markError t.size

theorem finishExpr_run (j : Judgement) (span : Span) (run : Run) :
    finishExpr j span run
      = (run.tree.size, { run with
          tree := j.tree span run.tree
          notices := run.notices ++ j.faults.map fun x => .fault x.1 x.2 }) := by
  rcases j with ⟨node, faults⟩
  cases faults with
  | nil => exact Prod.ext rfl (forM_fault_run [] { run with tree := _ })
  | cons x rest => exact Prod.ext rfl (forM_fault_run (x :: rest) { run with tree := _ })

theorem grows_judgement {P : Nat → Prop} (j : Judgement) (span : Span) (t : Tree) :
    (t.alloc (.expr j.node) span).1.Grows P (j.tree span t) := by
  unfold Judgement.tree
  simp only
  split
  · exact .refl _ _
  · exact Tree.grows_markError

theorem size_judgement (j : Judgement) (span : Span) (t : Tree) :
    (j.tree span t).size = t.size + 1 := by
  unfold Judgement.tree
  simp only
  split <;> simp

theorem hasErrors_judgement (j : Judgement) (span : Span) (t : Tree) (h : j.faults ≠ []) :
    (j.tree span t).hasErrors t.size = true := by
  unfold Judgement.tree
  simp only
  rw [if_neg (by simpa using h)]
  exact Tree.hasErrors_markError_self (Tree.has_of_kind? (Tree.kind?_alloc_self _ span))

/-! ### Names, casts and calls -/

section

variable {env : Env} {name : String} {run : Run} {args : List NodeId}

theorem resolveName_none (h : bindName env run.scopes name = none) (span : Span) :
    resolveName env name span run
      = (run.tree.size, { run with
          tree := (run.tree.allocError span).1
          notices := run.notices ++ [.fault (.undefinedVariable name) span] }) := by
  unfold resolveName
  simp only [Check.bind_run, Check.get_run, h]
  rfl

theorem resolveName_some {b : Binding} (h : bindName env run.scopes name = some b) (span : Span) :
    resolveName env name span run
      = (run.tree.size, { run with
          tree := addReference (run.tree.alloc (.expr ⟨.ref name b, bindingType run.tree b,
            b.isConstant⟩) span).1 b run.tree.size
          notices := run.notices
            ++ if b.isDeprecated then [.warning (.deprecatedConstant name) span] else [] }) := by
  unfold resolveName
  simp only [Check.bind_run, Check.get_run, h]
  split
  · rfl
  · rw [List.append_nil]
    rfl

theorem resolveCast_run (env : Env) (ty : Ty) (operand : NodeId) (span : Span) (run : Run) :
    resolveCast env ty operand span run
      = finishExpr (judgeCast env run.tree ty operand span) span { run with
          notices := run.notices ++ if castIsRedundant run.tree ty operand then
            [.warning (.redundantCast ty) span] else [] } := by
  refine (Check.ite_run _ _ _ run).trans ?_
  split
  · rfl
  · rw [List.append_nil]

theorem resolveUserCall_none {function : NodeId} (h : run.tree.function? function = none)
    (span : Span) :
    resolveUserCall env name function args span run
      = (run.tree.size, { run with tree := (run.tree.allocError span).1 }) := by
  unfold resolveUserCall
  simp only [Check.bind_run, Check.tree_run, h]
  rfl

theorem resolveUserCall_some {function : NodeId} {decl : FunctionNode}
    (h : run.tree.function? function = some decl) (span : Span) :
    resolveUserCall env name function args span run
      = let made := finishExpr (judgeUserCall env run.tree name function decl args span) span run
        (made.1, { made.2 with tree := made.2.tree.modifyFunction function fun f =>
          { f with references := f.references ++ [made.1] } }) := by
  unfold resolveUserCall
  simp only [Check.bind_run, Check.tree_run, h]
  rfl

/-- What becomes of a call that means this overload. -/
theorem resolveLibraryCall_ok {f : LibraryFunction} {faults : List Fault}
    (h : chooseOverload (env.library.overloads name) name (args.map (argumentOf run.tree))
      = .ok (f, faults)) (span : Span) :
    resolveLibraryCall env name args span run
      = finishExpr (judgeLibraryCall env name f faults args span) span { run with
          notices := run.notices
            ++ if f.deprecated then [.warning (.deprecatedFunction name) span] else [] } := by
  unfold resolveLibraryCall
  simp only [Check.bind_run, Check.tree_run, h]
  split
  · rfl
  · rw [List.append_nil]

/-- What becomes of a call that means no overload. -/
theorem resolveLibraryCall_error {kind : Option Fault}
    (h : chooseOverload (env.library.overloads name) name (args.map (argumentOf run.tree))
      = .error kind) (span : Span) :
    resolveLibraryCall env name args span run
      = (run.tree.size, { run with
          tree := (run.tree.allocError span).1
          notices := run.notices ++ kind.toList.map fun k => .fault k span }) := by
  unfold resolveLibraryCall
  simp only [Check.bind_run, Check.tree_run, h]
  cases kind with
  | none =>
    rw [Option.toList_none, List.map_nil, List.append_nil]
    rfl
  | some kind => rfl

end

/-! ### Operands -/

/-- What an expression is made of, in the order in which it is resolved. -/
def Expr.operands : Expr → List Expr
  | .integer .. | .hex .. | .float .. | .string .. | .ident .. => []
  | .vector x y z _ => [x, y, z]
  | .rotation x y z s _ => [x, y, z, s]
  | .list items _ => items
  | .component object _ _ => [object]
  | .call _ args _ => args
  | .binary _ left right _ => [left, right]
  | .prefixed _ operand _ | .postfixed _ operand _ | .cast _ operand _ | .paren operand _ =>
    [operand]

/-- What holds of no expressions, and of some if it holds of the operands of the first and
of the others, holds of all. -/
theorem exprs_induction {P : List Expr → Prop} (nil : P [])
    (cons : ∀ e rest, P e.operands → P rest → P (e :: rest)) (es : List Expr) : P es :=
  all es
where
  operands : (e : Expr) → P e.operands
    | .integer .. | .hex .. | .float .. | .string .. | .ident .. => nil
    | .vector x y z _ =>
      cons x _ (operands x) (cons y _ (operands y) (cons z _ (operands z) nil))
    | .rotation x y z s _ =>
      cons x _ (operands x) (cons y _ (operands y)
        (cons z _ (operands z) (cons s _ (operands s) nil)))
    | .list items _ => all items
    | .call _ args _ => all args
    | .binary _ left right _ => cons left _ (operands left) (cons right _ (operands right) nil)
    | .component e _ _ | .prefixed _ e _ | .postfixed _ e _ | .cast _ e _ | .paren e _ =>
      cons e _ (operands e) nil
  all : (es : List Expr) → P es
    | [] => nil
    | e :: rest => cons e rest (operands e) (all rest)

/-- How an expression is judged that means something, given the nodes of its operands. -/
inductive Expr.Judged (env : Env) (run : Run) : Expr → List NodeId → Judgement → Prop
  | integer (text span) : Judged env run (.integer text span) [] (.of (.integer text) .integer true)
  | hex (text span) : Judged env run (.hex text span) [] (.of (.hex text) .integer true)
  | float (text span) : Judged env run (.float text span) [] (.of (.float text) .float true)
  | string (text span) : Judged env run (.string text span) [] (judgeString text span)
  | vector (e f g span x y z) :
    Judged env run (.vector e f g span) [x, y, z] (judgeVector run.tree x y z)
  | rotation (e f g h span x y z s) :
    Judged env run (.rotation e f g h span) [x, y, z, s] (judgeRotation run.tree x y z s)
  | list (es span ids) : Judged env run (.list es span) ids (judgeList run.tree ids)
  | name (name span binding) (hb : bindName env run.scopes name = some binding) :
    Judged env run (.ident name span) []
      (.of (.ref name binding) (bindingType run.tree binding) binding.isConstant)
  | component (e c span object) :
    Judged env run (.component e c span) [object] (judgeComponent run.tree object c span)
  | userCall (name args span ids function decl) (hf : env.functions.lookup name = some function)
      (hd : run.tree.function? function = some decl) :
    Judged env run (.call name args span) ids
      (judgeUserCall env run.tree name function decl ids span)
  | libraryCall (name args span ids f faults) (hf : env.functions.lookup name = none)
      (hch : chooseOverload (env.library.overloads name) name (ids.map (argumentOf run.tree))
        = .ok (f, faults)) :
    Judged env run (.call name args span) ids (judgeLibraryCall env name f faults ids span)
  | binary (op e f span left right) :
    Judged env run (.binary op e f span) [left, right]
      (judgeBinary env run.tree op left right span)
  | prefixed (op e span operand) :
    Judged env run (.prefixed op e span) [operand] (judgePrefixed env run.tree op operand span)
  | postfixed (op e span operand) :
    Judged env run (.postfixed op e span) [operand] (judgePostfixed env run.tree op operand span)
  | cast (ty e span operand) :
    Judged env run (.cast ty e span) [operand] (judgeCast env run.tree ty operand span)
  | paren (e span inner) :
    Judged env run (.paren e span) [inner] (judgeParen env run.tree inner span)

/-- What is said of a name or a call that means nothing. -/
inductive Expr.Rejected (env : Env) (run : Run) : Expr → List NodeId → List Notice → Prop
  | name (name span) (hb : bindName env run.scopes name = none) :
    Rejected env run (.ident name span) [] [.fault (.undefinedVariable name) span]
  | function (name args span ids function) (hf : env.functions.lookup name = some function)
      (hd : run.tree.function? function = none) : Rejected env run (.call name args span) ids []
  | call (name args span ids kind) (hf : env.functions.lookup name = none)
      (hch : chooseOverload (env.library.overloads name) name (ids.map (argumentOf run.tree))
        = .error kind) :
    Rejected env run (.call name args span) ids (kind.toList.map fun k => .fault k span)

namespace Expr.Judged

variable {env : Env} {run : Run} {e : Expr} {ids : List NodeId} {j : Judgement}

theorem marks (h : e.Judged env run ids j) : j.Marks := by
  cases h with
  | integer | hex | float | name => exact allMark_nil
  | string text span => exact marks_judgeString span text
  | vector => exact marks_judgeVector run.tree _ _ _
  | rotation => exact marks_judgeRotation run.tree _ _ _ _
  | list => exact marks_judgeList run.tree ids
  | component => exact marks_judgeComponent run.tree _ _ _
  | userCall => exact marks_judgeUserCall env run.tree _ _ _ _ _
  | libraryCall _ _ _ _ _ _ _ hch =>
    exact marks_judgeLibraryCall env _ _ _ _ (chooseOverload_ok hch).2
  | binary => exact marks_judgeBinary env run.tree _ _ _ _
  | prefixed => exact marks_judgePrefixed env run.tree _ _ _
  | postfixed => exact marks_judgePostfixed env run.tree _ _ _
  | cast => exact marks_judgeCast env run.tree _ _ _
  | paren => exact marks_judgeParen env run.tree _ _

/-- The node of an expression is made of the nodes of its operands. -/
theorem children (h : e.Judged env run ids j) : j.node.kind.children = ids := by
  cases h <;> rfl

end Expr.Judged

/-- What may be said of an expression is not about dead code, and an error marks a node. -/
def Notice.OfExpr : Notice → Prop
  | .fault kind _ => kind ≠ .missingDefaultState ∧ ∀ name, kind ≠ .deadCodeAfterReturn name
  | .warning kind _ => ∀ reason, kind ≠ .deadCode reason

/-- A remark on an expression is no error. -/
def Notice.IsRemark (n : Notice) : Prop := n.OfExpr ∧ ∃ kind span, n = .warning kind span

theorem Expr.Rejected.said {env : Env} {run : Run} {e : Expr} {ids : List NodeId}
    {ns : List Notice} (h : e.Rejected env run ids ns) :
    ∀ n ∈ ns, n.OfExpr ∧ ∃ kind span, n = .fault kind span := by
  intro n hn
  cases h with
  | name name span =>
    obtain rfl := List.mem_singleton.mp hn
    exact ⟨by simp [Notice.OfExpr], _, _, rfl⟩
  | function => cases hn
  | call name args span ids kind hf hch =>
    obtain ⟨k, hk, rfl⟩ := List.mem_map.mp hn
    obtain rfl := Option.mem_toList.mp hk
    refine ⟨⟨chooseOverload_marks hch, ?_⟩, k, span, rfl⟩
    rcases chooseOverload_error hch with ⟨-, hk⟩ | ⟨-, hof, -⟩
    · rw [Option.some.inj hk]
      simp
    · exact (hof k rfl).2.1

/-- The node of an expression and the run that made it, given the nodes of the operands and
the run that made those. -/
inductive Expr.Made (env : Env) (ids : List NodeId) (run : Run) (e : Expr) : NodeId × Run → Prop
  | judged (j : Judgement) (hj : e.Judged env run ids j) (span : Span) (said : List Notice)
      (hsaid : ∀ n ∈ said, n.IsRemark) :
    Made env ids run e (run.tree.size, { run with
      tree := (j.tree span run.tree).noteUse run.tree.size (.expr j.node)
      notices := run.notices ++ said ++ j.faults.map fun x => .fault x.1 x.2 })
  | rejected (ns : List Notice) (hns : e.Rejected env run ids ns) (span : Span) :
    Made env ids run e (run.tree.size, { run with
      tree := (run.tree.allocError span).1
      notices := run.notices ++ ns })

namespace Expr.Made

variable {env : Env} {ids : List NodeId} {run : Run} {e : Expr} {j : Judgement}

/-- A node that refers to nothing. -/
theorem of_finishExpr (hj : e.Judged env run ids j)
    (hu : ∀ t id, Tree.noteUse t id (.expr j.node) = t) (span : Span) (said : List Notice) (hsaid : ∀ n ∈ said, n.IsRemark) :
    e.Made env ids run (finishExpr j span { run with notices := run.notices ++ said }) := by
  rw [finishExpr_run]
  have h := Made.judged j hj span said hsaid
  rwa [hu] at h

/-- A node that refers to nothing and on which there is no remark. -/
theorem of_silent (hj : e.Judged env run ids j) (hu : ∀ t id, Tree.noteUse t id (.expr j.node) = t)
    (span : Span) : e.Made env ids run (finishExpr j span run) := by
  have h := of_finishExpr hj hu span [] (by simp)
  rwa [List.append_nil] at h

theorem isRemark_ite {c : Bool} {kind : Warning} {span : Span}
    (hk : ∀ reason, kind ≠ .deadCode reason) :
    ∀ n ∈ (if c then [Notice.warning kind span] else []), n.IsRemark := by
  intro n hn
  cases c with
  | false => cases hn
  | true =>
    obtain rfl := List.mem_singleton.mp hn
    exact ⟨hk, kind, span, rfl⟩

theorem of_name (env : Env) (name : String) (span : Span) (run : Run) :
    (Expr.ident name span).Made env [] run (resolveName env name span run) := by
  cases hb : bindName env run.scopes name with
  | none =>
    rw [resolveName_none hb]
    exact .rejected _ (.name name span hb) span
  | some b =>
    rw [resolveName_some hb]
    have hsaid : ∀ n ∈ (if b.isDeprecated then [Notice.warning (.deprecatedConstant name) span]
        else []), n.IsRemark := isRemark_ite (by simp)
    have h := Made.judged _ (.name name span b hb) span _ hsaid
    rw [Judgement.of, List.map_nil, List.append_nil] at h
    exact h

theorem of_call (env : Env) (name : String) (args : List Expr) (ids : List NodeId) (span : Span)
    (run : Run) :
    (Expr.call name args span).Made env ids run (resolveCall env name ids span run) := by
  unfold resolveCall
  cases hf : env.functions.lookup name with
  | none =>
    cases hch : chooseOverload (env.library.overloads name) name
      (ids.map (argumentOf run.tree)) with
    | error kind =>
      simp only
      rw [resolveLibraryCall_error hch]
      exact .rejected _ (.call name args span ids kind hf hch) span
    | ok found =>
      simp only
      rw [resolveLibraryCall_ok hch]
      exact of_finishExpr (.libraryCall name args span ids _ _ hf hch) (fun _ _ => rfl) span _
        (isRemark_ite (by simp))
  | some function =>
    cases hd : run.tree.function? function with
    | none =>
      simp only
      rw [resolveUserCall_none hd]
      have h := Made.rejected [] (.function name args span ids function hf hd) span
      rwa [List.append_nil] at h
    | some decl =>
      simp only
      rw [resolveUserCall_some hd, finishExpr_run]
      have h := Made.judged _ (.userCall name args span ids function decl hf hd) span [] (by simp)
      rwa [List.append_nil] at h

/-- What is said of an expression comes behind what was said. -/
theorem said {r : NodeId × Run} (h : e.Made env ids run r) :
    ∃ ns, r.2.notices = run.notices ++ ns ∧ ∀ n ∈ ns, n.OfExpr := by
  cases h with
  | judged j hj span said hsaid =>
    refine ⟨_, List.append_assoc .., fun n hn => ?_⟩
    rcases List.mem_append.mp hn with hn | hn
    · exact (hsaid n hn).1
    · obtain ⟨x, hx, rfl⟩ := List.mem_map.mp hn
      exact ⟨(hj.marks x hx).1, (hj.marks x hx).2.1⟩
  | rejected ns hns span => exact ⟨ns, rfl, fun n hn => (hns.said n hn).1⟩

theorem grows {P : Nat → Prop} {r : NodeId × Run} (h : e.Made env ids run r) :
    run.tree.Grows P r.2.tree := by
  cases h with
  | judged j hj span said hsaid =>
    exact ((Tree.grows_alloc _ span).idem (grows_judgement j span run.tree)).idem
      (Tree.grows_noteUse _)
  | rejected ns hns span => exact Tree.grows_allocError span

end Expr.Made

/-- **An expression is resolved by its operands**, behind which its own node is made. -/
theorem resolveExpr_made (env : Env) (e : Expr) (run : Run) :
    e.Made env (resolveExprs env e.operands run).1 (resolveExprs env e.operands run).2
      (resolveExpr env e run) := by
  cases e with
  | integer text span => exact .of_silent (.integer text span) (fun _ _ => rfl) span
  | hex text span => exact .of_silent (.hex text span) (fun _ _ => rfl) span
  | float text span => exact .of_silent (.float text span) (fun _ _ => rfl) span
  | string text span => exact .of_silent (.string text span) (fun _ _ => rfl) span
  | vector x y z span => exact .of_silent (.vector x y z span _ _ _) (fun _ _ => rfl) span
  | rotation x y z s span =>
    exact .of_silent (.rotation x y z s span _ _ _ _) (fun _ _ => rfl) span
  | list items span => exact .of_silent (.list items span _) (fun _ _ => rfl) span
  | ident name span => exact .of_name env name span run
  | component object c span => exact .of_silent (.component object c span _) (fun _ _ => rfl) span
  | call name args span => exact .of_call env name args _ span _
  | binary op left right span =>
    exact .of_silent (.binary op left right span _ _) (fun _ _ => rfl) span
  | prefixed op operand span =>
    exact .of_silent (.prefixed op operand span _) (fun _ _ => rfl) span
  | postfixed op operand span =>
    exact .of_silent (.postfixed op operand span _) (fun _ _ => rfl) span
  | cast ty operand span =>
    change Expr.Made env _ _ _
      (resolveCast env ty (resolveExpr env operand run).1 span (resolveExpr env operand run).2)
    rw [resolveCast_run]
    exact .of_finishExpr (.cast ty operand span _) (fun _ _ => rfl) span _
      (Expr.Made.isRemark_ite (by simp))
  | paren inner span => exact .of_silent (.paren inner span _) (fun _ _ => rfl) span

/-- More expressions are resolved one by one. -/
theorem resolveExprs_cons (env : Env) (e : Expr) (rest : List Expr) (run : Run) :
    resolveExprs env (e :: rest) run
      = ((resolveExpr env e run).1 :: (resolveExprs env rest (resolveExpr env e run).2).1,
        (resolveExprs env rest (resolveExpr env e run).2).2) := rfl

end Lsl
