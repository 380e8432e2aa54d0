/- # Nothing is taken back

What was said stays said, and what was marked as wrong stays marked, whatever the
checker does next. So where nothing is wrong in the end, nothing was wrong at any
moment before.

Key definitions: `Run.Upholds`, `Run.Spotless`, `Check.Upholds`, `CheckBody.Upholds`.
Key theorems: `Run.Spotless.before`, `upholds_resolveStmts`, `upholds_resolveFunction`.
-/
import Lsl.Proofs.Scoping.Stmts

namespace Lsl

variable {α β : Type} {run run' run'' : Run}

/-! ### Steps -/

/-- What was said is said, and what was marked is marked. -/
structure Run.Upholds (run run' : Run) : Prop where
  notices : run.notices ⊆ run'.notices
  marks : ∀ i, run.tree.hasErrors i = true → run'.tree.hasErrors i = true

/-- Nothing is wrong and nothing is marked. -/
structure Run.Spotless (run : Run) : Prop where
  right : ¬ run.Wrong
  unmarked : ∀ i, run.tree.hasErrors i = false

namespace Run

theorem Upholds.refl (run : Run) : run.Upholds run := ⟨List.Subset.refl _, fun _ h => h⟩

theorem Upholds.trans (h : run.Upholds run') (g : run'.Upholds run'') : run.Upholds run'' where
  notices := List.Subset.trans h.notices g.notices
  marks i hi := g.marks i (h.marks i hi)

/-- What is spotless in the end was spotless all the time. -/
theorem Spotless.before (h : run'.Spotless) (hu : run.Upholds run') : run.Spotless where
  right hw := h.right (hw.mono hu.notices)
  unmarked i := by
    by_contra hi
    have hmarked := hu.marks i (by simpa using hi)
    rw [h.unmarked i] at hmarked
    cases hmarked

end Run

/-- A step that takes nothing back. -/
class Check.Upholds (x : Check α) : Prop where
  upholds : ∀ run : Run, run.Upholds (x run).2

/-- A step that takes nothing back if it succeeds. -/
class CheckBody.Upholds (x : CheckBody α) : Prop where
  upholds : ∀ (run : Run) (a : α) (run' : Run), x run = .ok (a, run') → run.Upholds run'

namespace Check

/-- A step on the tree that leaves all marks. -/
theorem upholds_modifyTree {f : Tree → Tree}
    (hf : ∀ (t : Tree) i, t.hasErrors i = true → (f t).hasErrors i = true) :
    Check.Upholds (Check.modifyTree f) :=
  ⟨fun run => ⟨List.Subset.refl _, hf run.tree⟩⟩

/-- A step that changes neither the tree nor what was said. -/
theorem upholds_modify {f : Run → Run} (htree : ∀ run, (f run).tree = run.tree)
    (hsaid : ∀ run, (f run).notices = run.notices) :
    Check.Upholds (modify f : Check PUnit) :=
  ⟨fun run => ⟨fun n hn => show n ∈ (f run).notices from hsaid run ▸ hn,
    fun i hi => show (f run).tree.hasErrors i = true from htree run ▸ hi⟩⟩

instance upholds_pure (a : α) : Check.Upholds (pure a) := ⟨fun run => .refl run⟩

instance upholds_bind (x : Check α) (f : α → Check β) [hx : Check.Upholds x]
    [hf : ∀ a, Check.Upholds (f a)] : Check.Upholds (x >>= f) :=
  ⟨fun run => (hx.upholds run).trans ((hf _).upholds _)⟩

instance upholds_ite (c : Prop) [Decidable c] (x y : Check α) [Check.Upholds x]
    [Check.Upholds y] : Check.Upholds (if c then x else y) := by
  split <;> assumption

instance upholds_tree : Check.Upholds Check.tree := ⟨fun run => .refl run⟩

instance upholds_get : Check.Upholds (get : Check Run) := ⟨fun run => .refl run⟩

instance upholds_forM (xs : List α) (f : α → Check PUnit) [hf : ∀ x, Check.Upholds (f x)] :
    Check.Upholds (xs.forM f) := by
  induction xs with
  | nil => exact upholds_pure _
  | cons x rest ih => exact inferInstanceAs (Check.Upholds (f x >>= fun _ => rest.forM f))

instance upholds_optionForM (found : Option α) (f : α → Check PUnit)
    [hf : ∀ x, Check.Upholds (f x)] : Check.Upholds (found.forM f) := by
  cases found with
  | none => exact upholds_pure _
  | some x => exact hf x

instance upholds_report (n : Notice) : Check.Upholds (Check.report n) :=
  ⟨fun _ => ⟨List.subset_append_left _ _, fun _ h => h⟩⟩

instance upholds_fault (kind : Fault) (span : Span) : Check.Upholds (Check.fault kind span) :=
  upholds_report _

instance upholds_warn (kind : Warning) (span : Span) : Check.Upholds (Check.warn kind span) :=
  upholds_report _

instance upholds_markError (id : NodeId) : Check.Upholds (Check.modifyTree (·.markError id)) :=
  upholds_modifyTree fun _ _ h => (Tree.grows_markError (P := fun _ => True)).hasErrors h

instance upholds_faultAt (id : NodeId) (kind : Fault) (span : Span) :
    Check.Upholds (Check.faultAt id kind span) := by
  unfold Check.faultAt
  infer_instance

instance upholds_alloc (kind : NodeKind) (span : Span) : Check.Upholds (Check.alloc kind span) :=
  ⟨fun _ => ⟨List.Subset.refl _,
    fun _ h => (Tree.grows_alloc (P := fun _ => True) kind span).hasErrors h⟩⟩

instance upholds_allocStmt (kind : StmtKind) (span : Span) :
    Check.Upholds (Check.allocStmt kind span) := upholds_alloc _ span

instance upholds_modifyFunction (function : NodeId) (f : FunctionNode → FunctionNode) :
    Check.Upholds (Check.modifyTree fun t => t.modifyFunction function f) :=
  upholds_modifyTree fun _ _ h => (Tree.hasErrors_modifyKind _).trans h

instance upholds_addJump (label jump : NodeId) :
    Check.Upholds (Check.modifyTree (addJump · label jump)) :=
  upholds_modifyTree fun _ _ h => (Tree.hasErrors_modifyKind _).trans h

instance upholds_fill (id : NodeId) (kind : NodeKind) : Check.Upholds (Check.fill id kind) :=
  upholds_modifyTree fun t i h => by
    unfold Tree.fill
    split
    · rename_i hid
      have hhas : (t.changeKind id fun _ => kind).Has id := by
        rwa [Tree.Has, Tree.changeKind, Tree.size_modify]
      have hgrows := Tree.grows_adoptChildren (P := fun _ => True) trivial hhas
      have hkept : (t.changeKind id fun _ => kind).hasErrors i = true :=
        (Tree.hasErrors_modifyKind (fun _ => kind)).trans h
      exact hgrows.hasErrors hkept
    · exact h

end Check

/-! ### Expressions -/

/-- What is made of an expression takes nothing back. -/
theorem Expr.Made.upholds {env : Env} {ids : List NodeId} {e : Expr} {r : NodeId × Run}
    (h : e.Made env ids run r) : run.Upholds r.2 := by
  obtain ⟨ns, hsaid, -⟩ := h.said
  exact ⟨fun n hn => hsaid ▸ List.mem_append_left ns hn,
    fun i hi => (h.grows (P := fun _ => True)).hasErrors hi⟩

instance upholds_resolveExprs (env : Env) (es : List Expr) :
    Check.Upholds (resolveExprs env es) where
  upholds run := by
    induction es using exprs_induction generalizing run with
    | nil => exact .refl run
    | cons e rest hoperands hrest =>
      exact ((hoperands run).trans (resolveExpr_made env e run).upholds).trans (hrest _)

instance upholds_resolveExpr (env : Env) (e : Expr) : Check.Upholds (resolveExpr env e) where
  upholds run := ((upholds_resolveExprs env e.operands).upholds run).trans
    (resolveExpr_made env e run).upholds

/-- Where nothing is wrong with an expression, nothing was wrong with its operands. -/
theorem Run.Spotless.operands {env : Env} {e : Expr}
    (h : Run.Spotless (resolveExpr env e run).2) :
    Run.Spotless (resolveExprs env e.operands run).2 :=
  h.before (resolveExpr_made env e run).upholds

instance upholds_resolveOption (env : Env) (e : Option Expr) :
    Check.Upholds (resolveOption env e) := by
  cases e <;> unfold resolveOption <;> infer_instance

instance upholds_resolveCondition (env : Env) (cond : Expr) :
    Check.Upholds (resolveCondition env cond) := by
  unfold resolveCondition
  infer_instance

instance upholds_checkInitializer (decl : NodeId) (name : String) (ty : Ty) (init : NodeId) :
    Check.Upholds (checkInitializer decl name ty init) := by
  unfold checkInitializer
  infer_instance

/-! ### Statements -/

namespace CheckBody

instance upholds_lift (x : Check α) [hx : Check.Upholds x] :
    CheckBody.Upholds (liftM x : CheckBody α) where
  upholds run a run' h := by
    obtain rfl : (x run).2 = run' := congrArg Prod.snd (Except.ok.inj h)
    exact hx.upholds run

instance upholds_pure (a : α) : CheckBody.Upholds (pure a) where
  upholds run b run' h := by
    obtain ⟨-, rfl⟩ := CheckBody.pure_ok h
    exact .refl run

instance upholds_bind (x : CheckBody α) (f : α → CheckBody β) [hx : CheckBody.Upholds x]
    [hf : ∀ a, CheckBody.Upholds (f a)] : CheckBody.Upholds (x >>= f) where
  upholds run b run' h := by
    obtain ⟨a, r, ha, hfa⟩ := CheckBody.bind_ok h
    exact (hx.upholds run a r ha).trans ((hf a).upholds r b run' hfa)

instance upholds_map (x : CheckBody α) (f : α → β) [hx : CheckBody.Upholds x] :
    CheckBody.Upholds (f <$> x) where
  upholds run b run' h := by
    obtain ⟨a, ha, -⟩ := CheckBody.map_ok h
    exact hx.upholds run a run' ha

instance upholds_ite (c : Prop) [Decidable c] (x y : CheckBody α) [CheckBody.Upholds x]
    [CheckBody.Upholds y] : CheckBody.Upholds (if c then x else y) := by
  split <;> assumption

instance upholds_throw (e : InternalError) : CheckBody.Upholds (throw e : CheckBody α) where
  upholds run a run' h := by cases h

instance upholds_get : CheckBody.Upholds (get : CheckBody Run) where
  upholds run a run' h := by
    obtain ⟨-, rfl⟩ := CheckBody.pure_ok h
    exact .refl run

instance upholds_expect (found : Option α) (id : NodeId) (expected : String) :
    CheckBody.Upholds (CheckBody.expect found id expected) where
  upholds run a run' h := by
    obtain ⟨-, rfl⟩ := CheckBody.expect_ok h
    exact .refl run

instance upholds_forM (xs : List α) (f : α → CheckBody PUnit)
    [hf : ∀ x, CheckBody.Upholds (f x)] : CheckBody.Upholds (xs.forM f) := by
  induction xs with
  | nil => exact upholds_pure _
  | cons x rest ih => exact inferInstanceAs (CheckBody.Upholds (f x >>= fun _ => rest.forM f))

instance upholds_optionForM (found : Option α) (f : α → CheckBody PUnit)
    [hf : ∀ x, CheckBody.Upholds (f x)] : CheckBody.Upholds (found.forM f) := by
  cases found with
  | none => exact upholds_pure _
  | some x => exact hf x

instance upholds_mapM (xs : List α) (f : α → CheckBody β)
    [hf : ∀ x, CheckBody.Upholds (f x)] : CheckBody.Upholds (xs.mapM f) := by
  induction xs with
  | nil => exact upholds_pure _
  | cons x rest ih =>
    rw [List.mapM_cons]
    infer_instance

end CheckBody

instance upholds_openScope : Check.Upholds openScope :=
  ⟨fun _ => ⟨List.Subset.refl _, fun _ h => h⟩⟩

instance upholds_closeFrame : Check.Upholds closeFrame where
  upholds run := by
    have hsame : (closeFrame run).2.tree = run.tree ∧ (closeFrame run).2.notices = run.notices := by
      simp only [closeFrame, modifyGet, MonadStateOf.modifyGet, StateT.modifyGet]
      rcases run.scopes.pop? with _ | ⟨frame, rest⟩ <;> exact ⟨rfl, rfl⟩
    exact ⟨fun n hn => hsame.2 ▸ hn, fun i hi => hsame.1 ▸ hi⟩

instance upholds_warnUnusedLocals (locals : List (String × NodeId)) :
    Check.Upholds (warnUnusedLocals locals) := by
  refine @Check.upholds_forM _ _ _ fun x => ?_
  infer_instance

instance upholds_reportSegment (env : Env) (segment : DeadSegment) :
    Check.Upholds (reportSegment env segment) := by
  unfold reportSegment
  split <;> infer_instance

instance upholds_closeScope (env : Env) (kind : ScopeKind) (span : Span) (tracker : Tracker) :
    Check.Upholds (closeScope env kind span tracker) := by
  unfold closeScope
  infer_instance

instance upholds_inScope (env : Env) (kind : ScopeKind) (singleStatement : Bool) (span : Span)
    (fill : Tracker → CheckBody Tracker) [∀ tr, CheckBody.Upholds (fill tr)] :
    CheckBody.Upholds (inScope env kind singleStatement span fill) := by
  unfold inScope
  infer_instance

instance upholds_appendStmt (tr : Tracker) (id : NodeId) (facts : Facts) :
    CheckBody.Upholds (appendStmt tr id facts) where
  upholds run tr' run' h := by
    obtain ⟨t', reach, happ, rfl⟩ := appendStmt_ok h
    refine ⟨List.Subset.refl _, fun i hi => ?_⟩
    obtain ⟨s, c, -, -, -, rfl⟩ := Tree.append_ok happ
    obtain ⟨n, hn⟩ := Tree.exists_node? (Tree.has_of_hasErrors hi)
    obtain ⟨stays, hplaced⟩ := Tree.node?_place id tr.statements.getLast?
      (Tree.placeInfo tr id facts reach) (facts.jumpOf reach).isSome hn
    rw [Tree.hasErrors_of_node? hn] at hi
    rw [Tree.hasErrors_of_node? hplaced]
    exact hi

instance upholds_declareLocal (env : Env) (id : NodeId) (name : String) (span : Span) :
    Check.Upholds (declareLocal env id name span) where
  upholds run := by
    unfold declareLocal
    rw [Check.bind_run, Check.get_run]
    simp only
    split
    · exact (Check.upholds_faultAt id _ span).upholds run
    · cases run.scopes.define name id with
      | error previous => exact (Check.upholds_faultAt id _ span).upholds run
      | ok scopes =>
        have hwarn : Check.Upholds (if (env.param? name).isSome then
            Check.warn (.localHidesParameter name) span
          else if (env.globals.lookup name).isSome then Check.warn (.localHidesGlobal name) span
          else pure ()) := inferInstance
        have hsame := hwarn.upholds { run with scopes }
        exact ⟨hsame.notices, hsame.marks⟩

instance upholds_resolveDeclaration (env : Env) (scopeId : Nat) (singleStatement : Bool)
    (decl : VarDecl) (span : Span) :
    Check.Upholds (resolveDeclaration env scopeId singleStatement decl span) := by
  unfold resolveDeclaration
  infer_instance

instance upholds_resolveReturn (env : Env) (value : Option Expr) (span : Span) :
    Check.Upholds (resolveReturn env value span) := by
  unfold resolveReturn
  infer_instance

instance upholds_resolveJump (env : Env) (index : Nat) (name : String) (span : Span) :
    Check.Upholds (resolveJump env index name span) := by
  refine @Check.upholds_bind _ _ _ _ _ fun run => ?_
  rcases jumpTarget? env run name with _ | ⟨label, info⟩ <;> infer_instance

instance upholds_takeLabel (name : String) (span : Span) :
    CheckBody.Upholds (takeLabel name span) where
  upholds run id run' h := by
    obtain ⟨rest, -, rfl⟩ := takeLabel_ok h
    exact ⟨List.Subset.refl _, fun _ h => h⟩

instance upholds_resolveStateChange (env : Env) (target : String) (span : Span) :
    Check.Upholds (resolveStateChange env target span) := by
  unfold resolveStateChange
  infer_instance

instance upholds_getScope (id : NodeId) : CheckBody.Upholds (getScope id) := by
  unfold getScope
  infer_instance

instance upholds_finishBlock (index : Nat) (scope : NodeId) (span : Span) :
    CheckBody.Upholds (finishBlock index scope span) := by
  unfold finishBlock
  infer_instance

instance upholds_finishBranch (index : Nat) (cond thenScope : NodeId)
    (elseIfs : List (NodeId × NodeId)) (elseScope : Option NodeId) (span : Span) :
    CheckBody.Upholds (finishBranch index cond thenScope elseIfs elseScope span) := by
  unfold finishBranch
  cases elseScope <;> infer_instance

mutual

theorem upholds_stmts (env : Env) :
    (stmts : List Stmt) → ∀ tr, CheckBody.Upholds (resolveStmts env stmts tr)
  | [] => fun tr => by
    unfold resolveStmts
    infer_instance
  | s :: rest => fun tr => by
    have := upholds_stmt env tr.scopeId tr.nextIndex s
    have := upholds_stmts env rest
    unfold resolveStmts
    infer_instance

theorem upholds_stmt (env : Env) (scopeId index : Nat) :
    (s : Stmt) → CheckBody.Upholds (resolveStmt env scopeId index s)
  | .block (.mk stmts _) _ => by
    have := upholds_stmts env stmts
    unfold resolveStmt
    infer_instance
  | .plain stmt => by
    unfold resolveStmt
    exact upholds_plain env scopeId index false stmt

theorem upholds_plain (env : Env) (scopeId index : Nat) (singleStatement : Bool) :
    (stmt : PlainStmt) → CheckBody.Upholds (resolvePlain env scopeId index singleStatement stmt)
  | .empty _ | .expr .. | .declare .. | .ret .. | .jump .. | .label .. | .stateChange .. => by
    unfold resolvePlain
    infer_instance
  | .branch _ thenBranch elseIfs elseBranch _ => by
    have := upholds_body env .ifBranch thenBranch
    have := upholds_elseIfs env elseIfs
    have := upholds_else env elseBranch
    unfold resolvePlain
    infer_instance
  | .whileLoop _ body _ => by
    have := upholds_body env .whileBody body
    unfold resolvePlain
    infer_instance
  | .doWhile body _ _ => by
    have := upholds_body env .doWhileBody body
    unfold resolvePlain
    infer_instance
  | .forLoop _ cond _ body _ => by
    have := upholds_body env .forBody body
    unfold resolvePlain
    cases cond <;> infer_instance

theorem upholds_body (env : Env) (kind : ScopeKind) :
    (body : Stmt) → CheckBody.Upholds (resolveBody env kind body)
  | .block (.mk stmts _) _ => by
    have := upholds_stmts env stmts
    unfold resolveBody
    infer_instance
  | .plain stmt => by
    have := fun scopeId => upholds_plain env scopeId 0 true stmt
    unfold resolveBody
    infer_instance

theorem upholds_elseIfs (env : Env) :
    (elseIfs : List ElseIf) → CheckBody.Upholds (resolveElseIfs env elseIfs)
  | [] => by
    unfold resolveElseIfs
    infer_instance
  | .mk _ body _ :: rest => by
    have := upholds_body env .elseIfBranch body
    have := upholds_elseIfs env rest
    unfold resolveElseIfs
    infer_instance

theorem upholds_else (env : Env) :
    (body : Option Stmt) → CheckBody.Upholds (resolveElse env body)
  | none => by
    unfold resolveElse
    infer_instance
  | some body => by
    have := upholds_body env .elseBranch body
    unfold resolveElse
    infer_instance

end

instance upholds_resolveStmts (env : Env) (stmts : List Stmt) (tr : Tracker) :
    CheckBody.Upholds (resolveStmts env stmts tr) := upholds_stmts env stmts tr

instance upholds_resolvePlain (env : Env) (scopeId index : Nat) (singleStatement : Bool)
    (stmt : PlainStmt) : CheckBody.Upholds (resolvePlain env scopeId index singleStatement stmt) :=
  upholds_plain env scopeId index singleStatement stmt

instance upholds_resolveBody (env : Env) (kind : ScopeKind) (body : Stmt) :
    CheckBody.Upholds (resolveBody env kind body) := upholds_body env kind body

instance upholds_resolveElseIfs (env : Env) (elseIfs : List ElseIf) :
    CheckBody.Upholds (resolveElseIfs env elseIfs) := upholds_elseIfs env elseIfs

instance upholds_resolveElse (env : Env) (body : Option Stmt) :
    CheckBody.Upholds (resolveElse env body) := upholds_else env body

/-! ### Scripts -/

instance upholds_declareParams (library : Catalog) (seen : List String) (params : List Param) :
    Check.Upholds (declareParams library seen params) := by
  induction params generalizing seen with
  | nil => exact Check.upholds_pure _
  | cons p rest ih =>
    unfold declareParams
    infer_instance

instance upholds_declareName (known : Names) (name : String) (id : NodeId) (span : Span)
    (redefined : Span → Fault) :
    Check.Upholds (declareName known name id span redefined) := by
  unfold declareName
  cases known.lookup name <;> infer_instance

instance upholds_declareFunctions (library : Catalog) (known : Names) (ds : List FunctionDecl) :
    Check.Upholds (declareFunctions library known ds) := by
  induction ds generalizing known with
  | nil => exact Check.upholds_pure _
  | cons d rest ih =>
    unfold declareFunctions
    infer_instance

instance upholds_declareState (d : StateDecl) (isDefault : Bool) :
    Check.Upholds (declareState d isDefault) := by
  unfold declareState
  infer_instance

instance upholds_declareDefaultState (script : Script) :
    Check.Upholds (declareDefaultState script) := by
  unfold declareDefaultState
  cases script.defaultState <;> infer_instance

instance upholds_declareStates (known : Names) (ds : List StateDecl) :
    Check.Upholds (declareStates known ds) := by
  induction ds generalizing known with
  | nil => exact Check.upholds_pure _
  | cons d rest ih =>
    unfold declareStates
    infer_instance

instance upholds_resolveGlobal (env : Env) (d : VarDecl) :
    Check.Upholds (resolveGlobal env d) := by
  unfold resolveGlobal
  infer_instance

instance upholds_resolveGlobals (env : Env) (ds : List VarDecl) :
    Check.Upholds (resolveGlobals env ds) := by
  induction ds generalizing env with
  | nil => exact Check.upholds_pure _
  | cons d rest ih =>
    unfold resolveGlobals
    infer_instance

instance upholds_declareLabels (known : Names) (sites : List LabelSite) :
    Check.Upholds (declareLabels known sites) := by
  induction sites generalizing known with
  | nil => exact Check.upholds_pure _
  | cons site rest ih =>
    unfold declareLabels
    infer_instance

instance upholds_bindParams (globals known : Names) (params : List NodeId) :
    Check.Upholds (bindParams globals known params) := by
  induction params generalizing known with
  | nil => exact Check.upholds_pure _
  | cons id rest ih =>
    refine @Check.upholds_bind _ _ _ _ _ fun t => ?_
    simp only
    cases t.var? id <;> infer_instance

instance upholds_startBody (labels : List NodeId) : Check.Upholds (modify fun run : Run =>
    { run with scopes := {}, labels, lastScope := 0 } : Check PUnit) :=
  Check.upholds_modify (fun _ => rfl) fun _ => rfl

instance upholds_enterBody (env : Env) (name : String) (returnType : Ty) (isEvent : Bool)
    (params : List NodeId) (body : Block) :
    Check.Upholds (enterBody env name returnType isEvent params body) := by
  unfold enterBody
  infer_instance

instance upholds_exitBody : Check.Upholds exitBody :=
  Check.upholds_modify (fun _ => rfl) fun _ => rfl

instance upholds_resolveBlock (env : Env) (kind : ScopeKind) (body : Block) :
    CheckBody.Upholds (resolveBlock env kind body) := by
  unfold resolveBlock
  infer_instance

instance upholds_warnUnusedParams (params : List NodeId) :
    Check.Upholds (warnUnusedParams params) := by
  unfold warnUnusedParams
  infer_instance

instance upholds_resolveFunction (env : Env) (d : FunctionDecl) (id : NodeId) :
    CheckBody.Upholds (resolveFunction env d id) := by
  have hend (body : NodeId) : CheckBody.Upholds (do
      exitBody
      let resolved ← CheckBody.expect ((← get).tree.function? id) id "function"
      Check.fill id (.function { resolved with body := some body })) := inferInstance
  refine @CheckBody.upholds_bind _ _ _ _ _ fun run => ?_
  refine @CheckBody.upholds_bind _ _ _ _ _ fun declared => ?_
  infer_instance

instance upholds_resolveHandler (env : Env) (d : HandlerDecl) :
    CheckBody.Upholds (resolveHandler env d) := by
  refine @CheckBody.upholds_bind _ _ _ _ _ fun params => ?_
  have hbody : CheckBody.Upholds (do
      let inner ← enterBody env d.name .void true params d.body
      let body ← resolveBlock inner .eventBody d.body
      exitBody
      let id ← Check.alloc (.handler { name := d.name, params, body }) d.span
      (handlerFault? env.library d).forM fun kind => Check.faultAt id kind d.span
      return id) := inferInstance
  infer_instance

instance upholds_resolveHandlers (env : Env) (state : String) (seen : List String)
    (ds : List HandlerDecl) : CheckBody.Upholds (resolveHandlers env state seen ds) := by
  induction ds generalizing seen with
  | nil => exact CheckBody.upholds_pure _
  | cons d rest ih =>
    unfold resolveHandlers
    infer_instance

instance upholds_fillState (id : NodeId) (handlers : List NodeId) : CheckBody.Upholds (do
    match (← get).tree.kind? id with
    | some (.state s) => Check.fill id (.state { s with handlers })
    | _ => throw (.unexpectedNode id "state")) := by
  refine @CheckBody.upholds_bind _ _ _ _ _ fun run => ?_
  split <;> infer_instance

instance upholds_resolveState (env : Env) (d : StateDecl) (id : NodeId) :
    CheckBody.Upholds (resolveState env d id) := by
  unfold resolveState
  infer_instance

instance upholds_warnUnusedGlobals (globals functions : List NodeId) :
    Check.Upholds (warnUnusedGlobals globals functions) := by
  unfold warnUnusedGlobals
  infer_instance

end Lsl
