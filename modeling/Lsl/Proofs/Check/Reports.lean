/- # What is said about dead code

The checker tells of dead code only where it closes a scope, once for every
segment of the scope, and makes the scope right after that. So whatever it has
done, the notices about dead code are the segments of the scopes made so far, in
the order in which the scopes were closed.

Key definitions: `Notice.deadCode?`, `Tree.deadCode`, `Run.Accounts`,
`Check.Keeps`, `CheckBody.Keeps`.
Key theorems: `Tree.scopes_append`, `closeScope_keeps`, `resolveStmt_keeps`,
`Script.check_accounts`.
-/
import Lsl.Proofs.Check.Shape

namespace Lsl

/-! ### Dead code in notices and in trees -/

/-- The dead code that a notice is about: why it is dead and where it stands. -/
def Notice.deadCode? : Notice → Option (Reach × Span)
  | .warning (.deadCode reason) span => some (reason, span)
  | .fault (.deadCodeAfterReturn _) span => some (.afterReturn, span)
  | _ => none

/-- Notices about dead code are known by their codes. -/
theorem Notice.isSome_deadCode? (n : Notice) :
    n.deadCode?.isSome = true ↔ n.code = "W0001" ∨ n.code = "E0405" := by
  cases n with
  | fault kind span => cases kind <;> simp [deadCode?, code, Fault.code]
  | warning kind span => cases kind <;> simp [deadCode?, code, Warning.code]

theorem Notice.deadCode?_fault {kind : Fault} (h : ∀ name, kind ≠ .deadCodeAfterReturn name)
    (span : Span) : (Notice.fault kind span).deadCode? = none := by
  cases kind <;> simp_all [deadCode?]

namespace Tree

variable {t t' : Tree} {id : Nat}

/-- The scopes of a tree, in the order in which they were made. -/
def scopes (t : Tree) : List CodeScope := (List.range t.size).filterMap t.scope?

/-- The dead code that the scopes of a tree have. -/
def deadCode (t : Tree) : List (Reach × Span) :=
  t.scopes.flatMap fun c => c.deadSegments.map fun s => (s.reason, s.span)

theorem scopes_congr (hsize : t'.size = t.size) (h : ∀ i, t'.scope? i = t.scope? i) :
    t'.scopes = t.scopes := by
  unfold scopes
  rw [hsize]
  exact List.filterMap_congr fun i _ => h i

theorem scopes_modifyKind {f : NodeKind → NodeKind} (hf : ∀ k, (f k).scope? = k.scope?) :
    (t.modifyKind id f).scopes = t.scopes := by
  refine scopes_congr (size_modifyKind f) fun i => ?_
  unfold scope? kind?
  rw [node?_modifyKind]
  rcases t.node? i with _ | n
  · simp
  · split <;> simp [hf]

theorem scopes_modifyStmt (f : StmtNode → StmtNode) : (t.modifyStmt id f).scopes = t.scopes :=
  scopes_modifyKind fun k => by cases k <;> rfl

theorem scopes_modifyFunction (f : FunctionNode → FunctionNode) :
    (t.modifyFunction id f).scopes = t.scopes :=
  scopes_modifyKind fun k => by cases k <;> rfl

theorem scopes_modifyVariable (f : Variable → Variable) :
    (t.modifyVariable id f).scopes = t.scopes :=
  scopes_modifyKind fun k => by
    cases k with
    | stmt s =>
      rcases s with ⟨kind, info⟩
      cases kind <;> rfl
    | _ => rfl

theorem scopes_markError : (t.markError id).scopes = t.scopes :=
  scopes_congr size_markError fun i => by rw [scope?, scope?, kind?_markError]

theorem scopes_addReference (binding : Binding) (reference : NodeId) :
    (addReference t binding reference).scopes = t.scopes := by
  unfold addReference
  split
  · exact scopes_modifyVariable _
  · rfl

theorem scopes_noteUse (kind : NodeKind) : (t.noteUse id kind).scopes = t.scopes := by
  unfold noteUse
  split
  · exact scopes_addReference _ _
  · exact scopes_modifyFunction _
  · exact scopes_modifyStmt _
  · rfl

/-- A new node is the last one. -/
theorem scopes_snoc {kind : NodeKind} (hsize : t'.size = t.size + 1)
    (hkind : ∀ i, t'.kind? i = if i = t.size then some kind else t.kind? i) :
    t'.scopes = t.scopes ++ kind.scope?.toList := by
  have hold : ∀ i ∈ List.range t.size, t'.scope? i = t.scope? i := by
    intro i hi
    rw [scope?, scope?, hkind, if_neg (Nat.ne_of_lt (List.mem_range.mp hi))]
  have hnew : t'.scope? t.size = kind.scope? := by
    rw [scope?, hkind, if_pos rfl]
    rfl
  unfold scopes
  rw [hsize, List.range_succ, List.filterMap_append, List.filterMap_congr hold,
    List.filterMap_cons, hnew]
  cases kind.scope? <;> rfl

theorem scopes_alloc (kind : NodeKind) (span : Span) :
    (t.alloc kind span).1.scopes = t.scopes ++ kind.scope?.toList :=
  scopes_snoc (size_alloc kind span) fun _ => kind?_alloc kind span

theorem scopes_allocError (span : Span) : (t.allocError span).1.scopes = t.scopes :=
  (scopes_snoc (size_allocError span) fun _ => kind?_allocError span).trans (List.append_nil _)

theorem scopes_judgement (j : Judgement) (span : Span) : (j.tree span t).scopes = t.scopes := by
  have hsame : (t.alloc (.expr j.node) span).1.scopes = t.scopes :=
    (scopes_alloc _ span).trans (List.append_nil _)
  unfold Judgement.tree
  simp only
  split
  · exact hsame
  · exact scopes_markError.trans hsame

theorem scopes_fill {k kind : NodeKind} (hk : t.kind? id = some k) (h : k.scope? = none)
    (h' : kind.scope? = none) : (t.fill id kind).1.scopes = t.scopes := by
  refine scopes_congr (size_fill kind) fun i => ?_
  rw [scope?, scope?, kind?_fill kind (has_of_kind? hk)]
  split
  · rename_i hi
    simp [hi, hk, h, h']
  · rfl

theorem scopes_append {tr tr' : Tracker} {facts : Facts} {reach : Reach}
    (h : t.append tr id facts = ⟨t', tr', .ok reach⟩) : t'.scopes = t.scopes := by
  obtain ⟨s, c, -, -, -, rfl⟩ := append_ok h
  refine (scopes_modifyStmt _).trans ?_
  rcases tr.statements.getLast? with _ | last
  · rfl
  · exact scopes_modifyStmt _

theorem deadCode_of_scopes (h : t'.scopes = t.scopes) : t'.deadCode = t.deadCode := by
  rw [deadCode, deadCode, h]

theorem deadCode_alloc_scope (c : CodeScope) (span : Span) :
    (t.alloc (.scope c) span).1.deadCode
      = t.deadCode ++ c.deadSegments.map fun s => (s.reason, s.span) := by
  rw [deadCode, deadCode, scopes_alloc, List.flatMap_append]
  simp [NodeKind.scope?]

end Tree

/-! ### Steps that keep the account -/

/-- What a run has said about dead code. -/
def Run.deadCode (run : Run) : List (Reach × Span) := run.notices.filterMap (·.deadCode?)

/-- What was said about dead code is what the scopes of the tree have. -/
def Run.Accounts (run : Run) : Prop := run.deadCode = run.tree.deadCode

theorem Run.Accounts.withTree {run : Run} (h : run.Accounts) {t : Tree}
    (ht : t.scopes = run.tree.scopes) : Run.Accounts { run with tree := t } :=
  Eq.trans h (Tree.deadCode_of_scopes ht).symm

theorem Run.Accounts.say {run : Run} (h : run.Accounts) {n : Notice} (hn : n.deadCode? = none) :
    Run.Accounts { run with notices := run.notices ++ [n] } := by
  unfold Accounts deadCode
  rw [List.filterMap_append, List.filterMap_cons, hn, List.filterMap_nil, List.append_nil]
  exact h

variable {α β : Type}

/-- The step keeps the account. -/
def Check.Keeps (x : Check α) : Prop := ∀ run, run.Accounts → (x run).2.Accounts

namespace Check.Keeps

theorem pure (a : α) : Keeps (Pure.pure a) := fun _ h => h

theorem bind {x : Check α} {f : α → Check β} (hx : Keeps x) (hf : ∀ a, Keeps (f a)) :
    Keeps (x >>= f) := fun run h => hf _ _ (hx run h)

theorem ite {c : Prop} [Decidable c] {x y : Check α} (hx : Keeps x) (hy : Keeps y) :
    Keeps (if c then x else y) := by
  split
  · exact hx
  · exact hy

theorem tree : Keeps Check.tree := fun _ h => h

theorem get : Keeps (MonadState.get : Check Run) := fun _ h => h

theorem forM {xs : List α} {f : α → Check PUnit} (hf : ∀ x ∈ xs, Keeps (f x)) :
    Keeps (xs.forM f) := by
  induction xs with
  | nil => exact pure _
  | cons x rest ih =>
    exact bind (hf x List.mem_cons_self) fun _ => ih fun y hy => hf y (List.mem_cons_of_mem _ hy)

theorem optionForM {found : Option α} {f : α → Check PUnit} (hf : ∀ x ∈ found, Keeps (f x)) :
    Keeps (found.forM f) := by
  cases found with
  | none => exact pure _
  | some x => exact hf x rfl

theorem modifyTree {f : Tree → Tree} (hf : ∀ t, (f t).scopes = t.scopes) :
    Keeps (Check.modifyTree f) := fun run h => h.withTree (hf run.tree)

theorem alloc {kind : NodeKind} (hk : kind.scope? = none) (span : Span) :
    Keeps (Check.alloc kind span) := by
  intro run h
  have hsame : (run.tree.alloc kind span).1.scopes = run.tree.scopes := by
    rw [Tree.scopes_alloc, hk]
    exact List.append_nil _
  exact h.withTree hsame

theorem allocStmt (kind : StmtKind) (span : Span) : Keeps (Check.allocStmt kind span) :=
  alloc rfl span

theorem markError (id : NodeId) : Keeps (Check.modifyTree (·.markError id)) :=
  modifyTree fun _ => Tree.scopes_markError

theorem warn {kind : Warning} {span : Span} (h : (Notice.warning kind span).deadCode? = none) :
    Keeps (Check.warn kind span) := fun _ hrun => hrun.say h

theorem fault {kind : Fault} {span : Span} (h : (Notice.fault kind span).deadCode? = none) :
    Keeps (Check.fault kind span) := fun _ hrun => hrun.say h

theorem faultAt {kind : Fault} {span : Span} (id : NodeId)
    (h : (Notice.fault kind span).deadCode? = none) : Keeps (Check.faultAt id kind span) :=
  bind (markError id) fun _ => fault h

end Check.Keeps

open Check (Keeps)

/-! ### Expressions -/

/-- Neither the node of an expression nor what is said of it is about dead code. -/
theorem Expr.Made.accounts {env : Env} {ids : List NodeId} {run : Run} {e : Expr}
    {r : NodeId × Run} (h : e.Made env ids run r) (hrun : run.Accounts) : r.2.Accounts := by
  have hscopes : r.2.tree.scopes = run.tree.scopes := by
    cases h with
    | judged j => exact (Tree.scopes_noteUse _).trans (Tree.scopes_judgement j _)
    | rejected ns hns span => exact Tree.scopes_allocError span
  obtain ⟨ns, hns, hof⟩ := h.said
  have hsilent : ns.filterMap (·.deadCode?) = [] := by
    refine List.filterMap_eq_nil_iff.mpr fun n hn => ?_
    cases n with
    | fault kind span => exact Notice.deadCode?_fault (hof _ hn).2 span
    | warning kind span => cases kind <;> first | rfl | exact absurd rfl (hof _ hn _)
  unfold Run.Accounts Run.deadCode
  rw [hns, List.filterMap_append, hsilent, List.append_nil, Tree.deadCode_of_scopes hscopes]
  exact hrun

theorem resolveExprs_keeps (env : Env) (es : List Expr) : Keeps (resolveExprs env es) := by
  induction es using exprs_induction with
  | nil => exact .pure []
  | cons e rest hoperands hrest =>
    exact fun run h => hrest _ ((resolveExpr_made env e run).accounts (hoperands run h))

theorem resolveExpr_keeps (env : Env) (e : Expr) : Keeps (resolveExpr env e) := fun run h =>
  (resolveExpr_made env e run).accounts (resolveExprs_keeps env e.operands run h)

theorem resolveOption_keeps (env : Env) (e : Option Expr) : Keeps (resolveOption env e) := by
  cases e with
  | none => exact .pure none
  | some e => exact .bind (resolveExpr_keeps env e) fun _ => .pure _

theorem resolveCondition_keeps (env : Env) (cond : Expr) : Keeps (resolveCondition env cond) := by
  refine .bind (resolveExpr_keeps env cond) fun id => .bind .tree fun t => ?_
  exact .ite (.pure id) (.ite (.bind (.faultAt id rfl) fun _ => .pure id)
    (.ite (.bind (.warn rfl) fun _ => .pure id) (.pure id)))

theorem checkInitializer_keeps (decl : NodeId) (name : String) (ty : Ty) (init : NodeId) :
    Keeps (checkInitializer decl name ty init) :=
  .bind .tree fun _ => .ite (.faultAt decl rfl) (.pure _)

/-! ### Statements -/

/-- The step keeps the account whenever it succeeds. -/
def CheckBody.Keeps (x : CheckBody α) : Prop :=
  ∀ run a run', run.Accounts → x run = .ok (a, run') → run'.Accounts

namespace CheckBody.Keeps

theorem pure (a : α) : CheckBody.Keeps (Pure.pure a) := by
  intro run b run' h hx
  obtain ⟨-, rfl⟩ := CheckBody.pure_ok hx
  exact h

theorem bind {x : CheckBody α} {f : α → CheckBody β} (hx : CheckBody.Keeps x)
    (hf : ∀ a, CheckBody.Keeps (f a)) : CheckBody.Keeps (x >>= f) := by
  intro run b run' h hb
  obtain ⟨a, r, ha, hfa⟩ := CheckBody.bind_ok hb
  exact hf a r b run' (hx run a r h ha) hfa

theorem lift {x : Check α} (hx : Check.Keeps x) : CheckBody.Keeps (liftM x : CheckBody α) := by
  intro run a run' h ha
  obtain rfl : (x run).2 = run' := congrArg Prod.snd (Except.ok.inj ha)
  exact hx run h

theorem map {x : CheckBody α} (f : α → β) (hx : CheckBody.Keeps x) :
    CheckBody.Keeps (f <$> x) := by
  intro run b run' h hb
  obtain ⟨a, ha, -⟩ := CheckBody.map_ok hb
  exact hx run a run' h ha

theorem ite {c : Prop} [Decidable c] {x y : CheckBody α} (hx : CheckBody.Keeps x)
    (hy : CheckBody.Keeps y) : CheckBody.Keeps (if c then x else y) := by
  split
  · exact hx
  · exact hy

theorem throwing (e : InternalError) : CheckBody.Keeps (throw e : CheckBody α) := by
  intro run a run' h hx
  cases hx

theorem get : CheckBody.Keeps (MonadState.get : CheckBody Run) := by
  intro run a run' h hx
  obtain ⟨-, rfl⟩ := CheckBody.pure_ok hx
  exact h

theorem expect (found : Option α) (id : NodeId) (expected : String) :
    CheckBody.Keeps (CheckBody.expect found id expected) := by
  cases found with
  | none => exact throwing _
  | some a => exact pure a

theorem forM {xs : List α} {f : α → CheckBody PUnit} (hf : ∀ x ∈ xs, CheckBody.Keeps (f x)) :
    CheckBody.Keeps (xs.forM f) := by
  induction xs with
  | nil => exact pure _
  | cons x rest ih =>
    exact bind (hf x List.mem_cons_self) fun _ => ih fun y hy => hf y (List.mem_cons_of_mem _ hy)

theorem optionForM {found : Option α} {f : α → CheckBody PUnit}
    (hf : ∀ x ∈ found, CheckBody.Keeps (f x)) : CheckBody.Keeps (found.forM f) := by
  cases found with
  | none => exact pure _
  | some x => exact hf x rfl

theorem mapM {xs : List α} {f : α → CheckBody β} (hf : ∀ x ∈ xs, CheckBody.Keeps (f x)) :
    CheckBody.Keeps (xs.mapM f) := by
  induction xs with
  | nil => exact pure _
  | cons x rest ih =>
    rw [List.mapM_cons]
    exact bind (hf x List.mem_cons_self) fun _ =>
      bind (ih fun y hy => hf y (List.mem_cons_of_mem _ hy)) fun _ => pure _

end CheckBody.Keeps

theorem warnUnusedLocals_keeps (locals : List (String × NodeId)) :
    Keeps (warnUnusedLocals locals) :=
  .forM fun _ _ => .bind .tree fun _ => .ite (.warn rfl) (.pure _)

/-- A segment is reported once, and scopes stay as they are. -/
theorem reportSegment_reports (env : Env) (s : DeadSegment) (run : Run) :
    (reportSegment env s run).2.tree.scopes = run.tree.scopes
      ∧ (reportSegment env s run).2.deadCode = run.deadCode ++ [(s.reason, s.span)] := by
  have hsay : ∀ {n : Notice}, n.deadCode? = some (s.reason, s.span) →
      (run.notices ++ [n]).filterMap (·.deadCode?) = run.deadCode ++ [(s.reason, s.span)] := by
    intro n hn
    rw [List.filterMap_append, List.filterMap_cons, hn]
    rfl
  rcases s with ⟨reason, statements, span⟩
  unfold reportSegment
  rcases env.valueFunction? with _ | name
  · exact ⟨rfl, hsay (n := .warning (.deadCode reason) span) rfl⟩
  · cases reason with
    | afterReturn =>
      have hfault := hsay (n := .fault (.deadCodeAfterReturn name) span) rfl
      rcases hhead : statements.head? with _ | first
      · exact ⟨rfl, hfault⟩
      · exact ⟨Tree.scopes_markError, hfault⟩
    | live | afterJumpOut | afterJumpBack | jumpedOver =>
      exact ⟨rfl, hsay (n := .warning (.deadCode _) span) rfl⟩

/-- Segments are reported in their order. -/
theorem reportSegments_reports (env : Env) (segments : List DeadSegment) (run : Run) :
    (segments.forM (reportSegment env) run).2.tree.scopes = run.tree.scopes
      ∧ (segments.forM (reportSegment env) run).2.deadCode
        = run.deadCode ++ segments.map fun s => (s.reason, s.span) := by
  induction segments generalizing run with
  | nil => exact ⟨rfl, (List.append_nil _).symm⟩
  | cons s rest ih =>
    obtain ⟨htree, hsaid⟩ := reportSegment_reports env s run
    obtain ⟨htree', hsaid'⟩ := ih (reportSegment env s run).2
    rw [Check.forM_cons_run]
    refine ⟨htree'.trans htree, hsaid'.trans ?_⟩
    rw [hsaid, List.map_cons, List.append_assoc]
    rfl

theorem closeFrame_keeps : Keeps closeFrame := by
  intro run h
  have hsame : (closeFrame run).2.tree = run.tree ∧ (closeFrame run).2.notices = run.notices := by
    simp only [closeFrame, modifyGet, MonadStateOf.modifyGet, StateT.modifyGet]
    rcases run.scopes.pop? with _ | ⟨frame, rest⟩ <;> exact ⟨rfl, rfl⟩
  unfold Run.Accounts Run.deadCode
  rw [hsame.1, hsame.2]
  exact h

/-- Closing a scope reports its segments and makes the scope that has them. -/
theorem closeScope_keeps (env : Env) (kind : ScopeKind) (span : Span) (tr : Tracker) :
    Keeps (closeScope env kind span tr) := by
  have hclose : Keeps (do
      tr.segments.forM (reportSegment env)
      Check.alloc (.scope (tr.scope kind)) span) := by
    intro run h
    obtain ⟨htree, hsaid⟩ := reportSegments_reports env tr.segments run
    refine Eq.trans hsaid (Eq.trans ?_ (Tree.deadCode_alloc_scope (tr.scope kind) span).symm)
    rw [Tree.deadCode_of_scopes htree, show run.deadCode = run.tree.deadCode from h]
    rfl
  exact .bind closeFrame_keeps fun locals =>
    .ite (.bind (warnUnusedLocals_keeps locals) fun _ => hclose) hclose

open CheckBody (Keeps)

theorem inScope_keeps (env : Env) (kind : ScopeKind) (singleStatement : Bool) (span : Span)
    {fill : Tracker → CheckBody Tracker} (hfill : ∀ tr, (fill tr).Keeps) :
    (inScope env kind singleStatement span fill).Keeps := by
  have hopen : openScope.Keeps := fun _ h => h
  exact .bind (.lift hopen) fun _ => .bind (hfill _) fun tr =>
    .lift (closeScope_keeps env kind span tr)

theorem appendStmt_keeps (tr : Tracker) (id : NodeId) (facts : Facts) :
    (appendStmt tr id facts).Keeps := by
  intro run tr' run' h ha
  obtain ⟨t', reach, happ, rfl⟩ := appendStmt_ok ha
  exact h.withTree (Tree.scopes_append happ)

theorem declareLocal_keeps (env : Env) (id : NodeId) (name : String) (span : Span) :
    (declareLocal env id name span).Keeps := by
  intro run h
  unfold declareLocal
  rw [Check.bind_run, Check.get_run]
  simp only
  split
  · exact h.withTree Tree.scopes_markError |>.say rfl
  · cases run.scopes.define name id with
    | error previous => exact h.withTree Tree.scopes_markError |>.say rfl
    | ok scopes =>
      have hrest : Check.Keeps (if (env.param? name).isSome then
          Check.warn (.localHidesParameter name) span
        else if (env.globals.lookup name).isSome then Check.warn (.localHidesGlobal name) span
        else pure ()) := .ite (.warn rfl) (.ite (.warn rfl) (.pure _))
      exact hrest { run with scopes } h

theorem resolveDeclaration_keeps (env : Env) (scopeId : Nat) (singleStatement : Bool)
    (decl : VarDecl) (span : Span) :
    (resolveDeclaration env scopeId singleStatement decl span).Keeps := by
  refine .bind (resolveOption_keeps env decl.init) fun init => ?_
  refine .bind (.allocStmt _ span) fun id => ?_
  have hrest : Check.Keeps (do
      declareLocal env id decl.name span
      init.forM (checkInitializer id decl.name decl.ty)
      return id) :=
    .bind (declareLocal_keeps env id decl.name span) fun _ =>
      .bind (.optionForM fun i _ => checkInitializer_keeps id decl.name decl.ty i) fun _ => .pure id
  exact .ite (.bind (.faultAt id rfl) fun _ => hrest) hrest

theorem resolveReturn_keeps (env : Env) (value : Option Expr) (span : Span) :
    (resolveReturn env value span).Keeps := by
  refine .bind (resolveOption_keeps env value) fun value => .bind (.allocStmt _ span) fun id =>
    .bind .tree fun t => .bind (.optionForM fun kind hk => .faultAt id ?_) fun _ => .pure id
  obtain ⟨body, -, hfault⟩ := Option.bind_eq_some_iff.mp hk
  exact Notice.deadCode?_fault (returnFault?_ofExpr hfault).2.1 span

theorem resolveJump_keeps (env : Env) (index : Nat) (name : String) (span : Span) :
    (resolveJump env index name span).Keeps := by
  refine .bind .get fun run => .bind (.allocStmt _ span) fun id => ?_
  rcases jumpTarget? env run name with _ | ⟨label, info⟩
  · exact .bind (.faultAt id rfl) fun _ => .pure _
  · exact .bind (.modifyTree fun _ => Tree.scopes_modifyStmt _) fun _ => .pure _

theorem takeLabel_keeps (name : String) (span : Span) : (takeLabel name span).Keeps := by
  intro run id run' h hrun
  obtain ⟨rest, -, rfl⟩ := takeLabel_ok hrun
  exact h

theorem resolveStateChange_keeps (env : Env) (target : String) (span : Span) :
    (resolveStateChange env target span).Keeps :=
  .bind (.allocStmt _ span) fun id => .ite (.bind (.faultAt id rfl) fun _ => .pure id) (.pure id)

theorem getScope_keeps (id : NodeId) : (getScope id).Keeps :=
  .bind .get fun _ => .expect _ id _

theorem finishBlock_keeps (index : Nat) (scope : NodeId) (span : Span) :
    (finishBlock index scope span).Keeps :=
  .bind (.lift (.allocStmt _ span)) fun _ => .bind (getScope_keeps scope) fun _ => .pure _

theorem finishBranch_keeps (index : Nat) (cond thenScope : NodeId)
    (elseIfs : List (NodeId × NodeId)) (elseScope : Option NodeId) (span : Span) :
    (finishBranch index cond thenScope elseIfs elseScope span).Keeps := by
  refine .bind (.lift (.allocStmt _ span)) fun id => ?_
  cases elseScope with
  | none => exact .pure _
  | some last =>
    exact .bind (getScope_keeps thenScope) fun _ => .bind (.mapM fun x _ => getScope_keeps x)
      fun _ => .pure _

/-- A statement that does nothing to the flow of control. -/
theorem makeStmt_keeps (kind : StmtKind) (span : Span) : CheckBody.Keeps (do
    return (← Check.allocStmt kind span, ({} : Facts))) :=
  .bind (.lift (.allocStmt kind span)) fun _ => .pure _

mutual

theorem resolveStmts_keeps (env : Env) : ∀ (stmts : List Stmt) (tr : Tracker),
    (resolveStmts env stmts tr).Keeps
  | [], tr => by
    rw [resolveStmts]
    exact .pure tr
  | s :: rest, tr => by
    rw [resolveStmts]
    exact .bind (resolveStmt_keeps env _ _ s) fun _ => .bind (appendStmt_keeps tr _ _) fun tr' =>
      resolveStmts_keeps env rest tr'

theorem resolveStmt_keeps (env : Env) (scopeId index : Nat) :
    ∀ stmt : Stmt, (resolveStmt env scopeId index stmt).Keeps
  | .block (.mk stmts inner) span => by
    rw [resolveStmt]
    exact .bind (inScope_keeps env .anonymousBlock false inner (resolveStmts_keeps env stmts))
      fun scope => finishBlock_keeps index scope span
  | .plain stmt => by
    rw [resolveStmt]
    exact resolvePlain_keeps env scopeId index false stmt

theorem resolvePlain_keeps (env : Env) (scopeId index : Nat) (singleStatement : Bool) :
    ∀ stmt : PlainStmt, (resolvePlain env scopeId index singleStatement stmt).Keeps
  | .empty span => by
    rw [resolvePlain]
    exact .ite (.bind (.lift (.warn rfl)) fun _ => makeStmt_keeps .empty span)
      (makeStmt_keeps .empty span)
  | .expr e span => by
    rw [resolvePlain]
    exact .bind (.lift (resolveExpr_keeps env e)) fun value =>
      .ite (.bind (.lift (.warn rfl)) fun _ => makeStmt_keeps (.expr value) span)
        (makeStmt_keeps (.expr value) span)
  | .declare decl span => by
    rw [resolvePlain]
    exact .bind (.lift (resolveDeclaration_keeps env scopeId singleStatement decl span))
      fun _ => .pure _
  | .ret value span => by
    rw [resolvePlain]
    exact .bind (.lift (resolveReturn_keeps env value span)) fun _ => .pure _
  | .jump name span => by
    rw [resolvePlain]
    exact .lift (resolveJump_keeps env index name span)
  | .label name span => by
    rw [resolvePlain]
    exact .bind (takeLabel_keeps name span) fun _ => .pure _
  | .stateChange target span => by
    rw [resolvePlain]
    exact .bind (.lift (resolveStateChange_keeps env target span)) fun _ => .pure _
  | .branch cond thenBranch elseIfs elseBranch span => by
    rw [resolvePlain]
    exact .bind (.lift (resolveCondition_keeps env cond)) fun cond =>
      .bind (resolveBody_keeps env .ifBranch thenBranch) fun thenScope =>
        .bind (resolveElseIfs_keeps env elseIfs) fun elseIfs =>
          .bind (resolveElse_keeps env elseBranch) fun elseScope =>
            finishBranch_keeps index cond thenScope elseIfs elseScope span
  | .whileLoop cond body span => by
    rw [resolvePlain]
    exact .bind (.lift (resolveCondition_keeps env cond)) fun cond =>
      .bind (resolveBody_keeps env .whileBody body) fun body =>
        makeStmt_keeps (.whileLoop cond body) span
  | .doWhile body cond span => by
    rw [resolvePlain]
    exact .bind (resolveBody_keeps env .doWhileBody body) fun body =>
      .bind (.lift (resolveCondition_keeps env cond)) fun cond =>
        makeStmt_keeps (.doWhile body cond) span
  | .forLoop init cond step body span => by
    have hrest : ∀ init cond, CheckBody.Keeps (do
        let step ← resolveExprs env step
        let body ← resolveBody env .forBody body
        return (← Check.allocStmt (.forLoop init cond step body) span, ({} : Facts))) :=
      fun init cond => .bind (.lift (resolveExprs_keeps env step)) fun step =>
        .bind (resolveBody_keeps env .forBody body) fun body =>
          makeStmt_keeps (.forLoop init cond step body) span
    rw [resolvePlain]
    refine .bind (.lift (resolveExprs_keeps env init)) fun init => ?_
    cases cond with
    | none => exact .bind (.pure none) (hrest init)
    | some cond => exact .bind (.map some (.lift (resolveCondition_keeps env cond))) (hrest init)

theorem resolveBody_keeps (env : Env) (kind : ScopeKind) :
    ∀ stmt : Stmt, (resolveBody env kind stmt).Keeps
  | .block (.mk stmts inner) _ => by
    rw [resolveBody]
    exact inScope_keeps env kind false inner (resolveStmts_keeps env stmts)
  | .plain stmt => by
    rw [resolveBody]
    exact inScope_keeps env kind true stmt.span fun tr =>
      .bind (resolvePlain_keeps env tr.scopeId 0 true stmt) fun _ => appendStmt_keeps tr _ _

theorem resolveElseIfs_keeps (env : Env) :
    ∀ elseIfs : List ElseIf, (resolveElseIfs env elseIfs).Keeps
  | [] => by
    rw [resolveElseIfs]
    exact .pure []
  | .mk cond body _ :: rest => by
    rw [resolveElseIfs]
    exact .bind (.lift (resolveCondition_keeps env cond)) fun _ =>
      .bind (resolveBody_keeps env .elseIfBranch body) fun _ =>
        .bind (resolveElseIfs_keeps env rest) fun _ => .pure _

theorem resolveElse_keeps (env : Env) : ∀ body : Option Stmt, (resolveElse env body).Keeps
  | none => by
    rw [resolveElse]
    exact .pure none
  | some body => by
    rw [resolveElse]
    exact .map some (resolveBody_keeps env .elseBranch body)

end

/-! ### Declarations -/

theorem declareParams_keeps (library : Catalog) (seen : List String) (params : List Param) :
    (declareParams library seen params).Keeps := by
  induction params generalizing seen with
  | nil => exact .pure []
  | cons p rest ih =>
    refine .bind (.alloc rfl p.span) fun id => ?_
    have hrest : Check.Keeps (do return id :: (← declareParams library (p.name :: seen) rest)) :=
      .bind (ih _) fun _ => .pure _
    exact .ite (.bind (.faultAt id rfl) fun _ => hrest)
      (.ite (.bind (.faultAt id rfl) fun _ => hrest) hrest)

theorem declareName_keeps {redefined : Span → Fault}
    (hr : ∀ s name, redefined s ≠ .deadCodeAfterReturn name) (known : Names) (name : String)
    (id : NodeId) (span : Span) : (declareName known name id span redefined).Keeps := by
  unfold declareName
  cases known.lookup name with
  | none => exact .pure _
  | some previous =>
    exact .bind .tree fun t => .bind (.faultAt id (Notice.deadCode?_fault (hr _) span)) fun _ =>
      .pure known

theorem declareFunctions_keeps (library : Catalog) (known : Names) (ds : List FunctionDecl) :
    (declareFunctions library known ds).Keeps := by
  induction ds generalizing known with
  | nil => exact .pure _
  | cons d rest ih =>
    refine .bind (declareParams_keeps library [] d.params) fun params =>
      .bind (.alloc rfl d.span) fun id => ?_
    have hrest : ∀ known, Check.Keeps (declareFunctions library known rest >>= fun r =>
        pure (r.1, id :: r.2)) := fun known => .bind (ih known) fun _ => .pure _
    exact .ite (.bind (.faultAt id rfl) fun _ => hrest known)
      (.bind (declareName_keeps (by simp) known d.name id d.span) hrest)

theorem declareState_keeps (d : StateDecl) (isDefault : Bool) :
    (declareState d isDefault).Keeps :=
  .bind (.alloc rfl d.span) fun id => .ite (.bind (.faultAt id rfl) fun _ => .pure id) (.pure id)

theorem declareDefaultState_keeps (script : Script) : (declareDefaultState script).Keeps := by
  unfold declareDefaultState
  cases script.defaultState with
  | none => exact .bind (.fault rfl) fun _ => .pure _
  | some d => exact .bind (declareState_keeps d true) fun _ => .pure _

theorem declareStates_keeps (known : Names) (ds : List StateDecl) :
    (declareStates known ds).Keeps := by
  induction ds generalizing known with
  | nil => exact .pure _
  | cons d rest ih =>
    refine .bind (declareState_keeps d false) fun id => ?_
    have hrest : ∀ known, Check.Keeps (declareStates known rest >>= fun r =>
        pure (r.1, id :: r.2)) := fun known => .bind (ih known) fun _ => .pure _
    exact .ite (.bind (.faultAt id rfl) fun _ => hrest known)
      (.bind (declareName_keeps (by simp) known d.name id d.span) hrest)

theorem resolveGlobal_keeps (env : Env) (d : VarDecl) : (resolveGlobal env d).Keeps := by
  refine .bind (resolveOption_keeps env d.init) fun init => .bind (.alloc rfl d.span) fun id => ?_
  have hrest : ∀ globals : Names, Check.Keeps (do
      init.forM (checkInitializer id d.name d.ty)
      return (globals, id)) := fun globals =>
    .bind (.optionForM fun i _ => checkInitializer_keeps id d.name d.ty i) fun _ => .pure _
  exact .ite (.bind (.faultAt id rfl) fun _ => hrest env.globals)
    (.bind (declareName_keeps (by simp) env.globals d.name id d.span) hrest)

theorem resolveGlobals_keeps (env : Env) (ds : List VarDecl) : (resolveGlobals env ds).Keeps := by
  induction ds generalizing env with
  | nil => exact .pure _
  | cons d rest ih =>
    exact .bind (resolveGlobal_keeps env d) fun _ => .bind (ih _) fun _ => .pure _

/-! ### Bodies -/

theorem declareLabels_keeps (known : Names) (sites : List LabelSite) :
    (declareLabels known sites).Keeps := by
  induction sites generalizing known with
  | nil => exact .pure _
  | cons site rest ih =>
    exact .bind (.alloc rfl site.span) fun id =>
      .bind (declareName_keeps (by simp) known site.name id site.span) fun known =>
        .bind (ih known) fun _ => .pure _

theorem bindParams_keeps (globals known : Names) (params : List NodeId) :
    (bindParams globals known params).Keeps := by
  induction params generalizing known with
  | nil => exact .pure _
  | cons id rest ih =>
    refine .bind .tree fun t => ?_
    simp only
    cases t.var? id with
    | none => exact ih known
    | some v => exact .ite (.bind (.warn rfl) fun _ => ih _) (ih _)

theorem enterBody_keeps (env : Env) (name : String) (returnType : Ty) (isEvent : Bool)
    (params : List NodeId) (body : Block) :
    (enterBody env name returnType isEvent params body).Keeps := by
  refine .bind (bindParams_keeps _ _ params) fun params =>
    .bind (declareLabels_keeps [] body.labelSites) fun (labels, inOrder) => ?_
  have hstart : Check.Keeps (modify fun run : Run =>
      { run with scopes := {}, labels := inOrder, lastScope := 0 }) := fun _ h => h
  exact .bind hstart fun _ => .pure _

theorem exitBody_keeps : exitBody.Keeps := fun _ h => h

theorem resolveBlock_keeps (env : Env) (kind : ScopeKind) (body : Block) :
    (resolveBlock env kind body).Keeps :=
  inScope_keeps env kind false body.span (resolveStmts_keeps env body.stmts)

theorem warnUnusedParams_keeps (params : List NodeId) : (warnUnusedParams params).Keeps :=
  .forM fun _ _ => .bind .tree fun _ => .optionForM fun _ _ => .ite (.warn rfl) (.pure _)

/-- Filling a function makes no scope. -/
theorem fillFunction_keeps (id body : NodeId) : CheckBody.Keeps (do
    let resolved ← CheckBody.expect ((← get).tree.function? id) id "function"
    Check.fill id (.function { resolved with body := some body })) := by
  intro run a run' h hrun
  obtain ⟨now, r, hget, hrest⟩ := CheckBody.bind_ok hrun
  obtain ⟨rfl, rfl⟩ := CheckBody.pure_ok hget
  obtain ⟨resolved, r, hfound, hfill⟩ := CheckBody.bind_ok hrest
  obtain ⟨hf, rfl⟩ := CheckBody.expect_ok hfound
  obtain rfl := congrArg Prod.snd (Except.ok.inj hfill)
  exact h.withTree (Tree.scopes_fill (Tree.function?_eq_some.mp hf) rfl rfl)

theorem resolveFunction_keeps (env : Env) (d : FunctionDecl) (id : NodeId) :
    (resolveFunction env d id).Keeps := by
  refine .bind .get fun run => .bind (.expect _ id _) fun declared => ?_
  refine .bind (.lift (enterBody_keeps env d.name d.returnType false declared.params d.body))
    fun inner => ?_
  refine .bind (resolveBlock_keeps inner .functionBody d.body) fun body => .bind .get fun run' => ?_
  have hend : CheckBody.Keeps (do
      exitBody
      let resolved ← CheckBody.expect ((← get).tree.function? id) id "function"
      Check.fill id (.function { resolved with body := some body })) :=
    .bind (.lift exitBody_keeps) fun _ => fillFunction_keeps id body
  have hwarn : CheckBody.Keeps (do
      if env.warnUnused then warnUnusedParams declared.params
      exitBody
      let resolved ← CheckBody.expect ((← get).tree.function? id) id "function"
      Check.fill id (.function { resolved with body := some body })) :=
    .ite (.bind (.lift (warnUnusedParams_keeps _)) fun _ => hend) hend
  exact .ite (.bind (.lift (.faultAt id rfl)) fun _ => hwarn) hwarn

theorem handlerFault?_ne_deadCode {library : Catalog} {d : HandlerDecl} {kind : Fault}
    (h : handlerFault? library d = some kind) (name : String) :
    kind ≠ .deadCodeAfterReturn name := by
  unfold handlerFault? at h
  grind

theorem resolveHandler_keeps (env : Env) (d : HandlerDecl) : (resolveHandler env d).Keeps := by
  refine .bind (.lift (declareParams_keeps env.library [] d.params)) fun params => ?_
  have hrest : CheckBody.Keeps (do
      let inner ← enterBody env d.name .void true params d.body
      let body ← resolveBlock inner .eventBody d.body
      exitBody
      let id ← Check.alloc (.handler { name := d.name, params, body }) d.span
      (handlerFault? env.library d).forM fun kind => Check.faultAt id kind d.span
      return id) :=
    .bind (.lift (enterBody_keeps env d.name .void true params d.body)) fun inner =>
      .bind (resolveBlock_keeps inner .eventBody d.body) fun body =>
        .bind (.lift exitBody_keeps) fun _ => .bind (.lift (.alloc rfl d.span)) fun id =>
          .bind (.optionForM fun kind hk => .lift
            (.faultAt id (Notice.deadCode?_fault (handlerFault?_ne_deadCode hk) d.span)))
              fun _ => .pure id
  exact .ite (.bind (.lift (.warn rfl)) fun _ => hrest) hrest

theorem resolveHandlers_keeps (env : Env) (state : String) (seen : List String)
    (ds : List HandlerDecl) : (resolveHandlers env state seen ds).Keeps := by
  induction ds generalizing seen with
  | nil => exact .pure _
  | cons d rest ih =>
    refine .bind (resolveHandler_keeps env d) fun id => ?_
    have hrest : CheckBody.Keeps (do
        return id :: (← resolveHandlers env state (d.name :: seen) rest)) :=
      .bind (ih _) fun _ => .pure _
    exact .ite (.bind (.lift (.faultAt id rfl)) fun _ => hrest) hrest

theorem resolveState_keeps (env : Env) (d : StateDecl) (id : NodeId) :
    (resolveState env d id).Keeps := by
  refine .bind (resolveHandlers_keeps env d.name [] d.handlers) fun handlers => ?_
  intro run a run' h hrun
  obtain ⟨now, r, hget, hfill⟩ := CheckBody.bind_ok hrun
  obtain ⟨rfl, rfl⟩ := CheckBody.pure_ok hget
  rcases hk : run.tree.kind? id with _ | kind
  · rw [hk] at hfill
    cases hfill
  · rw [hk] at hfill
    cases kind with
    | state s =>
      obtain rfl := congrArg Prod.snd (Except.ok.inj hfill)
      exact h.withTree (Tree.scopes_fill hk rfl rfl)
    | _ => cases hfill

/-! ### The whole script -/

theorem warnUnusedGlobals_keeps (globals functions : List NodeId) :
    (warnUnusedGlobals globals functions).Keeps :=
  .bind (.forM fun _ _ => .bind .tree fun _ => .optionForM fun _ _ => .ite (.warn rfl) (.pure _))
    fun _ => .forM fun _ _ => .bind .tree fun _ =>
      .optionForM fun _ _ => .ite (.warn rfl) (.pure _)

theorem resolveScript_keeps (library : Catalog) (warnUnused : Bool) (script : Script) :
    (resolveScript library warnUnused script).Keeps := by
  refine .bind (.lift (declareFunctions_keeps library [] script.functions))
    fun (functionNames, functions) => ?_
  refine .bind (.lift (declareDefaultState_keeps script)) fun (stateNames, defaultState) => ?_
  refine .bind (.lift (declareStates_keeps stateNames script.states)) fun (stateNames, states) => ?_
  refine .bind (.lift (resolveGlobals_keeps _ script.globals)) fun (globalNames, globals) => ?_
  refine .bind (.forM fun (d, id) _ => resolveFunction_keeps _ d id) fun _ => ?_
  refine .bind (.forM fun (d, id) _ => resolveState_keeps _ d id) fun _ => ?_
  refine .bind (.forM fun (d, id) _ => resolveState_keeps _ d id) fun _ => ?_
  exact .ite (.bind (.lift (warnUnusedGlobals_keeps globals functions)) fun _ =>
    .lift (.alloc rfl script.span)) (.lift (.alloc rfl script.span))

/-- **Dead code is reported once for every segment of every scope.** -/
theorem Script.check_accounts {script : Script} {library : Catalog} {options : CheckOptions}
    {c : CheckedScript} (h : script.check library options = .ok c) :
    (c.notices.filterMap (·.deadCode?)).Perm c.tree.deadCode := by
  unfold Script.check at h
  cases hr : (resolveScript library options.warnUnused script).run {} with
  | error e =>
    rw [hr] at h
    cases h
  | ok r =>
    rw [hr] at h
    cases h
    have haccounts : r.2.Accounts :=
      resolveScript_keeps library options.warnUnused script {} r.1 r.2 rfl hr
    have hsorted : (if options.sortNotices then Notice.sort r.2.notices
        else r.2.notices).Perm r.2.notices := by
      split
      · exact List.mergeSort_perm _ _
      · exact .refl _
    exact (hsorted.filterMap _).trans (.of_eq haccounts)

end Lsl
