/- # Names in statements

The statements of a body become the nodes they are expected to become, and
nothing can go wrong on the way: the labels found beforehand are met one after
the other, each in its scope and at its place, and what is looked up in the
tree is there.

Key definitions: `CheckBody.Gives`, `Env.At`, `Run.Goes`, `Run.Arms`, `Run.Lays`,
`GivesStmt`, `GivesParts`, `GivesStmts`.
Key theorems: `inScope_gives`, `givesStmts_cons`, `newStmt`.
-/
import Lsl.Proofs.Check.StmtActs
import Lsl.Proofs.Scoping.Layout

namespace Lsl

variable {α β : Type} {library : Catalog} {rules : Rules} {o : Surroundings} {env : Env} {b : BlockView}
  {blocks outer : List BlockView} {run run' run'' : Run} {survey survey' : Survey}
  {sites : List LabelSite} {next later : List NodeId}

/-! ### Steps that do not fail -/

namespace CheckBody

/-- The step succeeds, with a result and a run that are so. -/
def Gives (x : CheckBody α) (run : Run) (Q : α → Run → Prop) : Prop :=
  ∃ a run', x run = .ok (a, run') ∧ Q a run'

namespace Gives

variable {x : CheckBody α} {f : α → CheckBody β} {Q : α → Run → Prop} {R : β → Run → Prop}

theorem pure {a : α} (h : Q a run) : (Pure.pure a : CheckBody α).Gives run Q := ⟨a, run, rfl, h⟩

theorem lift {x : Check α} (h : Q (x run).1 (x run).2) : (liftM x : CheckBody α).Gives run Q :=
  ⟨_, _, rfl, h⟩

theorem bind (h : x.Gives run Q) (hf : ∀ a run', Q a run' → (f a).Gives run' R) :
    (x >>= f).Gives run R := by
  obtain ⟨a, run', hx, hq⟩ := h
  obtain ⟨c, run'', hc, hr⟩ := hf a run' hq
  refine ⟨c, run'', ?_, hr⟩
  change (x run >>= fun s => f s.1 s.2) = _
  rw [hx]
  exact hc

theorem lift_bind {x : Check α} (h : (f (x run).1).Gives (x run).2 R) :
    ((liftM x : CheckBody α) >>= f).Gives run R := h

theorem get_bind {f : Run → CheckBody β} (h : (f run).Gives run R) :
    ((get : CheckBody Run) >>= f).Gives run R := h

theorem map {g : α → β} (h : x.Gives run Q) (hr : ∀ a run', Q a run' → R (g a) run') :
    (g <$> x).Gives run R := by
  rw [map_eq_pure_bind]
  exact h.bind fun a run' hq => .pure (hr a run' hq)

theorem mono {Q' : α → Run → Prop} (h : x.Gives run Q) (hq : ∀ a run', Q a run' → Q' a run') :
    x.Gives run Q' := by
  obtain ⟨a, run', hx, h⟩ := h
  exact ⟨a, run', hx, hq a run' h⟩

end Gives

theorem expect_some (a : α) (id : NodeId) (expected : String) :
    CheckBody.expect (some a) id expected = pure a := rfl

end CheckBody

open CheckBody

/-! ### Parts of a body -/

/-- Something wrong was reported. -/
def Run.Wrong (run : Run) : Prop := ∃ n ∈ run.notices, n.isFault = true

theorem Run.Wrong.mono (h : run.Wrong) (hn : run.notices ⊆ run'.notices) : run'.Wrong := by
  obtain ⟨n, hmem, hf⟩ := h
  exact ⟨n, hn hmem, hf⟩

/-- What is known before a part of a body is resolved: the names around it, and
the labels in it, which come next. -/
structure Env.At (library : Catalog) (env : Env) (o : Surroundings) (blocks : List BlockView)
    (run : Run) (sites : List LabelSite) (next later : List NodeId) : Prop where
  names : env.Names library o run.tree
  shows : run.scopes.Shows library blocks
  labels : run.labels = next ++ later
  next : List.Forall₂ (fun id site => run.tree.labelSite? id = some site) next sites
  body : ∃ body, env.body = some body

/-- A part of a body was resolved and became what it was expected to become. -/
structure Run.Goes (library : Catalog) (o : Surroundings) (survey : Survey) (later : List NodeId)
    (run run' : Run) : Prop extends run.Reads library o survey.sites run' where
  size : run'.tree.size = survey.node
  lastScope : run'.lastScope = survey.last
  labels : run'.labels = later

namespace Run.Goes

theorem refl (run : Run) :
    run.Goes library o { node := run.tree.size, last := run.lastScope } run.labels run :=
  { Reads.refl run with size := rfl, lastScope := rfl, labels := rfl }

theorem after {later' : List NodeId} (h : run.Goes library o survey later run')
    (g : run'.Goes library o survey' later' run'') :
    run.Goes library o (survey.after survey') later' run'' :=
  { h.toReads.trans g.toReads with
    size := g.size
    lastScope := g.lastScope
    labels := g.labels }

theorem takes {nodes : Nat} {more : List Site} (h : run.Goes library o survey later run')
    (g : run'.Takes library o nodes more run'') :
    run.Goes library o
      { survey with node := survey.node + nodes, sites := survey.sites ++ more } later run'' :=
  { h.toReads.trans g.toReads with
    size := by rw [g.size, h.size]
    lastScope := g.lastScope.trans h.lastScope
    labels := g.labels.trans h.labels }

/-- Expressions that follow. -/
theorem exprs (h : run.Goes library o survey later run') {es : List Expr} {ids : List NodeId}
    (g : TakesTerms library rules o blocks (nodesOfExprs es) (sitesOfExprs blocks run'.tree.size es)
      run' run'' ids) : run.Goes library o (survey.exprs blocks es) later run'' := by
  rw [h.size] at g
  exact h.takes g.takes

/-- One node that follows. -/
theorem close (h : run.Goes library o survey later run') (g : run'.Takes library o 1 [] run'') :
    run.Goes library o survey.close later run'' := by
  have := h.takes g
  rwa [List.append_nil] at this

/-- Scopes that are opened, closed or changed. -/
theorem scopes (h : run.Goes library o survey later run') (scopes : ScopeStack) :
    run.Goes library o survey later { run' with scopes } :=
  { h with }

/-- A statement is placed. -/
theorem place (h : run.Goes library o survey later run') {t : Tree}
    (hg : run'.tree.Extends t) (hs : t.size = run'.tree.size) :
    run.Goes library o survey later { run' with tree := t } where
  grows := h.grows.trans hg
  notices := h.notices
  reports := h.reports
  bound s hs := (h.bound s hs).grows hg
  size := hs.trans h.size
  lastScope := h.lastScope
  labels := h.labels

end Run.Goes

namespace Env.At

/-- Where no label comes next. -/
theorem nil (h : env.At library o blocks run [] next later) : next = [] ∧ run.labels = later := by
  obtain rfl := List.forall₂_nil_right_iff.mp h.next
  exact ⟨rfl, h.labels⟩

/-- Resolving expressions meets no label. -/
theorem takes {nodes : Nat} {more : List Site} (h : env.At library o blocks run sites next later)
    (g : run.Takes library o nodes more run') : env.At library o blocks run' sites next later where
  names := g.names h.names
  shows := g.shows h.shows
  labels := g.labels.trans h.labels
  next := h.next.imp fun _ _ hs => g.grows.labelSite? hs
  body := h.body

/-- The labels of a part, and those of the rest. -/
theorem split {sites' : List LabelSite}
    (h : env.At library o blocks run (sites ++ sites') next later) :
    ∃ first rest, next = first ++ rest ∧ env.At library o blocks run sites first (rest ++ later)
      ∧ ∀ run' blocks', run.tree.Extends run'.tree →
        run'.scopes.Shows library blocks' → run'.labels = rest ++ later →
        env.At library o blocks' run' sites' rest later := by
  have hnext : next = next.take sites.length ++ next.drop sites.length :=
    (List.take_append_drop sites.length next).symm
  refine ⟨next.take sites.length, next.drop sites.length, hnext,
    ⟨h.names, h.shows, ?_, List.forall₂_take_append _ _ _ h.next, h.body⟩,
      fun run' blocks' hg hs hl => ?_⟩
  · rw [h.labels, ← List.append_assoc, ← hnext]
  · exact ⟨h.names.grows hg, hs, hl,
      (List.forall₂_drop_append _ _ _ h.next).imp (fun _ _ h => hg.labelSite? h), h.body⟩

end Env.At

/-! ### What parts become -/

/-- Scopes that were entered after number `last`, up to number `last'`, with
these labels in them. -/
structure Run.Arms (rules : Rules) (o : Surroundings) (blocks : List BlockView) (ids : List NodeId)
    (last last' : Nat) (labels : List NodeId) (run : Run) : Prop where
  names : ∀ x ∈ ids, ∃ c, run.tree.scope? x = some c
    ∧ run.tree.Scoped rules o run.Wrong ({ scopeId := c.scopeId } :: blocks) c.statements
  visits : run.tree.Visits ids (numbersAfter last last') labels
  le : last ≤ last'

/-- Statements of the innermost block, with the scopes and labels in them. -/
structure Run.Lays (rules : Rules) (o : Surroundings) (blocks : List BlockView) (ids : List NodeId)
    (last last' : Nat) (labels : List NodeId) (run : Run) : Prop where
  names : run.tree.Scoped rules o run.Wrong blocks ids
  visits : run.tree.Visits ids (numbersAfter last last') labels
  le : last ≤ last'

section

variable {ids ids' labels labels' : List NodeId} {first middle last : Nat}

theorem Run.Arms.nil (run : Run) (n : Nat) : run.Arms rules o blocks [] n n [] :=
  ⟨by simp, by simpa using .nil, Nat.le_refl n⟩

theorem Run.Arms.grows (h : run.Arms rules o blocks ids first last labels)
    {P : Nat → Prop} (hg : run.tree.Grows P run'.tree) (hn : run.notices ⊆ run'.notices) :
    run'.Arms rules o blocks ids first last labels where
  names x hx := by
    obtain ⟨c, hc, hs⟩ := h.names x hx
    exact ⟨c, hg.scope? hc, hs.grows hg fun hw => hw.mono hn⟩
  visits := h.visits.grows hg
  le := h.le

theorem Run.Arms.append (h : run.Arms rules o blocks ids first middle labels)
    (g : run.Arms rules o blocks ids' middle last labels') :
    run.Arms rules o blocks (ids ++ ids') first last (labels ++ labels') where
  names x hx := (List.mem_append.mp hx).elim (h.names x) (g.names x)
  visits := by
    rw [← numbersAfter_append h.le g.le]
    exact h.visits.append g.visits
  le := Nat.le_trans h.le g.le

theorem Run.Lays.grows (h : run.Lays rules o blocks ids first last labels)
    {P : Nat → Prop} (hg : run.tree.Grows P run'.tree) (hn : run.notices ⊆ run'.notices) :
    run'.Lays rules o blocks ids first last labels :=
  ⟨h.names.grows hg fun hw => hw.mono hn, h.visits.grows hg, h.le⟩

theorem Run.Lays.cons {id : NodeId} {s : StmtNode}
    (h : run.Lays rules o (b :: outer) [id] first middle labels) (hs : run.tree.stmt? id = some s)
    (g : run.Lays rules o (b.behind id s.kind :: outer) ids middle last labels') :
    run.Lays rules o (b :: outer) (id :: ids) first last (labels ++ labels') where
  names := h.names.cons_of_single hs g.names
  visits := by
    rw [← numbersAfter_append h.le g.le]
    exact h.visits.append g.visits
  le := Nat.le_trans h.le g.le

/-- A statement of which the parts are in order. -/
theorem Run.Arms.stmt {id : NodeId} {s : StmtNode}
    (h : run.Arms rules o (b :: outer) s.kind.arms first last labels) (hs : run.tree.stmt? id = some s)
    (hterms : ∀ c ∈ s.kind.terms, run.tree.Sees rules o (visibleLocals (b :: outer)) c)
    (hplace : run.tree.InPlace rules o run.Wrong b s.kind) :
    run.Lays rules o (b :: outer) [id] first last
      ((if s.kind.isLabel then [id] else []) ++ labels) where
  names := by
    refine .cons hs hterms (fun x hx => ?_) (fun x hx c hc => ?_) hplace .nil
    · obtain ⟨c, hc, -⟩ := h.names x hx
      exact ⟨c, hc⟩
    · obtain ⟨c', hc', hin⟩ := h.names x hx
      obtain rfl := Option.some.inj (hc'.symm.trans hc)
      exact hin
  visits := .single_stmt hs h.visits
  le := h.le

/-- A scope of which the statements are in order. -/
theorem Run.Lays.scope {id : NodeId} {c : CodeScope}
    (h : run.Lays rules o ({ scopeId := c.scopeId } :: blocks) c.statements (first + 1) last labels)
    (hc : run.tree.scope? id = some c) (hid : c.scopeId = first + 1) :
    run.Arms rules o blocks [id] first last labels where
  names x hx := by
    rw [List.mem_singleton.mp hx]
    exact ⟨c, hc, h.names⟩
  visits := by
    have hvisits := Tree.Visits.single_scope hc h.visits
    rwa [hid, numbersAfter_cons h.le] at hvisits
  le := Nat.le_of_succ_le h.le

end

/-! ### Appending -/

/-- Appending a statement that is there succeeds. -/
theorem appendStmt_gives {tr : Tracker} {id : NodeId} {s : StmtNode} (facts : Facts)
    (hstmts : ∀ a ∈ tr.statements, ∃ n, run.tree.stmt? a = some n)
    (hs : run.tree.stmt? id = some s)
    (hl : s.kind.isLabel = true →
      s.info.scopeId = tr.scopeId ∧ s.info.index = tr.nextIndex) :
    (appendStmt tr id facts).Gives run fun tr' run' =>
      tr'.statements = tr.statements ++ [id] ∧ tr'.scopeId = tr.scopeId
        ∧ run.tree.Extends run'.tree ∧ run'.tree.size = run.tree.size
        ∧ run' = { run with tree := run'.tree } := by
  have hlast : tr.statements.getLast?.filter (fun a => (run.tree.stmt? a).isNone) = none := by
    rw [Option.filter_eq_none_iff]
    intro a ha
    obtain ⟨n, hn⟩ := hstmts a (List.mem_of_getLast? ha)
    simp [hn]
  rcases hc : tr.classify id (run.tree.span id) facts.returns (run.tree.reachedByLiveJump id)
    with ⟨c, reach⟩
  have happ := Tree.append_eq hlast hc
  rw [if_neg (by simp [hs])] at happ
  obtain ⟨t', tr', ha⟩ : ∃ t' tr', run.tree.append tr id facts = ⟨t', tr', .ok reach⟩ :=
    ⟨_, _, happ⟩
  refine ⟨tr', { run with tree := t' }, ?_, Tree.statements_append ha, Tree.scopeId_append ha,
    (Tree.grows_append ha hs hl).mono fun i hi => ?_,
    (Tree.retains_append ha hs hl).size, rfl⟩
  · rw [appendStmt_run, ha]
    rfl
  · rw [hi, Tree.sort?_of_kind? (Tree.stmt?_eq_some.mp hs)]
    exact ⟨by simp [NodeKind.sort], by simp [NodeKind.sort]⟩

/-! ### Closing scopes -/

theorem warnUnusedLocals_takes {n : Nat} {more : List Site} (h : run.Takes library o n more run')
    (locals : List (String × NodeId)) :
    run.Takes library o n more (warnUnusedLocals locals run').2 := by
  refine h.forM fun ⟨name, decl⟩ _ run' h => ?_
  change run.Takes library o n more ((if isUnusedLocal run'.tree decl then
    Check.warn (.localNeverUsed name) (run'.tree.span decl) else pure () : Check Unit) run').2
  rw [Check.ite_run]
  split
  · exact h.say rfl
  · exact h

theorem reportSegment_takes {n : Nat} {more : List Site} (h : run.Takes library o n more run')
    (env : Env) (segment : DeadSegment) :
    run.Takes library o n more (reportSegment env segment run').2 := by
  unfold reportSegment
  rcases env.valueFunction? with _ | name
  · exact h.say rfl
  · cases segment.reason with
    | afterReturn =>
      cases segment.statements.head? with
      | none => exact h.say rfl
      | some first => exact h.fault first rfl
    | _ => exact h.say rfl

/-- Closing a scope makes a node of the statements that the tracker has seen. -/
theorem closeScope_takes (hs : run.scopes.Shows library (b :: blocks)) (env : Env)
    (kind : ScopeKind) (span : Span) (tr : Tracker) :
    ∃ frames run', closeScope env kind span tr run = (run.tree.size, run')
      ∧ ScopeStack.Shows library ⟨frames⟩ blocks
      ∧ Run.Takes library o 1 [] { run with scopes := ⟨frames⟩ } run'
      ∧ run'.tree.scope? run.tree.size = some (tr.scope kind) := by
  obtain ⟨frame, frames, -, hrest, hframes⟩ := List.forall₂_cons_right_iff.mp hs
  have hpop : closeFrame run = (frame.locals, { run with scopes := ⟨frames⟩ }) := by
    simp [closeFrame, ScopeStack.pop?, hframes, modifyGet, MonadStateOf.modifyGet,
      StateT.modifyGet, pure]
  have hwarn : Run.Takes library o 0 [] { run with scopes := ⟨frames⟩ }
      ((if env.warnUnused then warnUnusedLocals frame.locals else pure () : Check Unit)
        { run with scopes := ⟨frames⟩ }).2 := by
    rw [Check.ite_run]
    split
    · exact warnUnusedLocals_takes (.refl _) frame.locals
    · exact .refl _
  have hreport : Run.Takes library o 0 [] { run with scopes := ⟨frames⟩ }
      (tr.segments.forM (reportSegment env) _).2 :=
    hwarn.forM fun segment _ run' h => reportSegment_takes h env segment
  obtain ⟨run₁, hrun₁⟩ : ∃ run₁, run₁ = (tr.segments.forM (reportSegment env)
      ((if env.warnUnused then warnUnusedLocals frame.locals else pure () : Check Unit)
        { run with scopes := ⟨frames⟩ }).2).2 := ⟨_, rfl⟩
  rw [← hrun₁] at hreport
  have hsize : run₁.tree.size = run.tree.size := hreport.size
  refine ⟨frames, { run₁ with tree := (run₁.tree.alloc (.scope (tr.scope kind)) span).1 }, ?_, hrest,
    ?_, ?_⟩
  · unfold closeScope
    rw [Check.bind_run, hpop, ← hsize, hrun₁]
    simp only
    by_cases hw : env.warnUnused = true
    · simp only [hw, ↓reduceIte]
      rfl
    · simp only [Bool.not_eq_true] at hw
      simp only [hw, Bool.false_eq_true, ↓reduceIte]
      rfl
  · have := hreport.step (m := 1) [] [] (Tree.grows_alloc (.scope (tr.scope kind)) span)
      (Tree.size_alloc _ span) rfl (by simp)
    simpa using this
  · rw [← hsize]
    exact Tree.scope?_eq_some.mpr (Tree.kind?_alloc_self _ span)

/-! ### Counting scopes -/

mutual

/-- Looking for labels and looking for names count scopes alike. -/
theorem surveyStmts_last : ∀ (blocks : List BlockView) (node scope index last : Nat)
    (stmts : List Stmt),
    (surveyStmts blocks node last stmts).last = (labelsOfStmts scope index last stmts).1
  | _, _, _, _, _, [] => rfl
  | blocks, node, scope, index, last, s :: rest => by
    have hfirst := surveyStmt_last blocks node scope index last s
    simp only [surveyStmts, labelsOfStmts, Survey.after, hfirst]
    exact surveyStmts_last _ _ scope (index + 1) _ rest

theorem surveyStmt_last : ∀ (blocks : List BlockView) (node scope index last : Nat) (stmt : Stmt),
    (surveyStmt blocks node last stmt).last = (labelsOfStmt scope index last stmt).1
  | _, node, _, _, last, .block (.mk stmts _) _ =>
    surveyStmts_last _ node (last + 1) 0 (last + 1) stmts
  | blocks, node, scope, index, last, .plain stmt => surveyPlain_last blocks node scope index last stmt

theorem surveyPlain_last : ∀ (blocks : List BlockView) (node scope index last : Nat)
    (stmt : PlainStmt),
    (surveyPlain blocks node last stmt).last = (labelsOfPlain scope index last stmt).1
  | blocks, node, _, _, last, .branch cond thenBranch elseIfs elseBranch _ => by
    simp only [surveyPlain, labelsOfPlain, Survey.after, Survey.exprs, Survey.close,
      surveyBody_last _ _ last thenBranch, surveyElseIfs_last _ _ _ elseIfs,
      surveyElse_last _ _ _ elseBranch]
  | _, _, _, _, last, .whileLoop _ body _ => surveyBody_last _ _ last body
  | _, node, _, _, last, .doWhile body _ _ => surveyBody_last _ node last body
  | _, _, _, _, last, .forLoop _ _ _ body _ => surveyBody_last _ _ last body
  | _, _, _, _, _, .empty _ => rfl
  | _, _, _, _, _, .expr .. => rfl
  | _, _, _, _, _, .declare .. => rfl
  | _, _, _, _, _, .ret .. => rfl
  | _, _, _, _, _, .jump .. => rfl
  | _, _, _, _, _, .label .. => rfl
  | _, _, _, _, _, .stateChange .. => rfl

theorem surveyBody_last : ∀ (blocks : List BlockView) (node last : Nat) (body : Stmt),
    (surveyBody blocks node last body).last = (labelsOfBody last body).1
  | _, node, last, .block (.mk stmts _) _ => surveyStmts_last _ node (last + 1) 0 (last + 1) stmts
  | _, node, last, .plain stmt => surveyPlain_last _ node (last + 1) 0 (last + 1) stmt

theorem surveyElseIfs_last : ∀ (blocks : List BlockView) (node last : Nat)
    (elseIfs : List ElseIf),
    (surveyElseIfs blocks node last elseIfs).last = (labelsOfElseIfs last elseIfs).1
  | _, _, _, [] => rfl
  | blocks, node, last, .mk cond body _ :: rest => by
    simp only [surveyElseIfs, labelsOfElseIfs, Survey.after, Survey.exprs,
      surveyBody_last _ _ last body, surveyElseIfs_last _ _ _ rest]

theorem surveyElse_last : ∀ (blocks : List BlockView) (node last : Nat) (body : Option Stmt),
    (surveyElse blocks node last body).last = (labelsOfElse last body).1
  | _, _, _, none => rfl
  | _, node, last, some body => surveyBody_last _ node last body

end

/-! ### What resolving a form of syntax comes to -/

/-- A statement was resolved at place `index` of the innermost block. -/
structure Run.MakesStmt (library : Catalog) (rules : Rules) (o : Surroundings) (b : BlockView)
    (outer : List BlockView) (stmt : Stmt) (index : Nat) (next later : List NodeId) (run : Run)
    (id : NodeId) (run' : Run) : Prop where
  goes : run.Goes library o (surveyStmt (b :: outer) run.tree.size run.lastScope stmt) later run'
  shows : run'.scopes.Shows library (blocksAfter (b :: outer) stmt run'.tree.size)
  lays : run'.Lays rules o (b :: outer) [id] run.lastScope run'.lastScope next
  node : ∃ s, run'.tree.stmt? id = some s
    ∧ blocksAfter (b :: outer) stmt run'.tree.size = b.behind id s.kind :: outer
    ∧ (s.kind.isLabel = true → s.info.scopeId = b.scopeId ∧ s.info.index = index)

/-- Parts of a statement were resolved inside the blocks: expressions, and scopes. -/
structure Run.MakesParts (library : Catalog) (rules : Rules) (o : Surroundings)
    (blocks : List BlockView) (survey : Survey) (next later : List NodeId) (run : Run)
    (terms tests ids : List NodeId)
    (run' : Run) : Prop where
  goes : run.Goes library o survey later run'
  shows : run'.scopes.Shows library blocks
  sees : ∀ c ∈ terms, run'.tree.Sees rules o (visibleLocals blocks) c
  suits : ∀ c ∈ tests, run'.tree.Suits c (validCondition · = true)
  arms : run'.Arms rules o blocks ids run.lastScope run'.lastScope next

/-- Expressions on their own. -/
theorem TakesTerms.parts {es : List Expr} {ids : List NodeId}
    (h : TakesTerms library rules o blocks (nodesOfExprs es) (sitesOfExprs blocks run.tree.size es)
      run run' ids) (tests : List NodeId) (hs : run.scopes.Shows library blocks)
    (ht : ∀ c ∈ tests, run'.tree.Suits c (validCondition · = true)) :
    run.MakesParts library rules o blocks
      (Survey.exprs { node := run.tree.size, last := run.lastScope } blocks es) [] run.labels ids
      tests [] run' where
  goes := (Run.Goes.refl run).exprs h
  shows := h.takes.shows hs
  sees := h.sees
  suits := ht
  arms := by
    rw [h.takes.lastScope]
    exact .nil run' _

/-- Parts that follow on parts. -/
theorem Run.MakesParts.andThen {first second terms tests ids terms' tests' ids' : List NodeId}
    {f : Nat → Nat → Survey}
    (h : run.MakesParts library rules o blocks survey first (second ++ later) terms tests ids run')
    (g : run'.MakesParts library rules o blocks (f run'.tree.size run'.lastScope) second later terms'
      tests' ids' run'') :
    run.MakesParts library rules o blocks (survey.after (f survey.node survey.last))
      (first ++ second) later (terms ++ terms') (tests ++ tests') (ids ++ ids') run'' where
  goes := by
    rw [← h.goes.size, ← h.goes.lastScope]
    exact h.goes.after g.goes
  shows := g.shows
  sees c hc := by
    rcases List.mem_append.mp hc with hc | hc
    · exact (h.sees c hc).grows g.goes.grows
    · exact g.sees c hc
  suits c hc := by
    rcases List.mem_append.mp hc with hc | hc
    · exact (h.suits c hc).grows g.goes.grows
    · exact g.suits c hc
  arms := (h.arms.grows g.goes.grows g.goes.notices).append g.arms

/-- Statements were resolved and appended to the innermost scope, whose tracker
was `tr` and has become `tr'`. -/
structure Run.FillsScope (library : Catalog) (rules : Rules) (o : Surroundings) (b : BlockView)
    (outer : List BlockView) (survey : Survey) (next later : List NodeId) (run : Run)
    (tr tr' : Tracker) (run' : Run) : Prop where
  goes : run.Goes library o survey later run'
  shows : ∃ b', run'.scopes.Shows library (b' :: outer)
  scopeId : tr'.scopeId = tr.scopeId
  lays : ∃ ids, tr'.statements = tr.statements ++ ids
    ∧ run'.Lays rules o (b :: outer) ids run.lastScope run'.lastScope next

section

variable (library : Catalog) (env : Env) (o : Surroundings)

/-- What `resolve` gives is the statement. -/
def GivesStmt (stmt : Stmt) (resolve : Nat → Nat → CheckBody (NodeId × Facts)) : Prop :=
  ∀ (b : BlockView) (outer : List BlockView) (index : Nat) (run : Run) (next later : List NodeId),
    env.At library o (b :: outer) run (labelsOfStmt b.scopeId index run.lastScope stmt).2 next
      later →
    (resolve b.scopeId index).Gives run fun r run' =>
      run.MakesStmt library env.rules o b outer stmt index next later r.1 run'

/-- What `resolve` gives are the parts of the syntax that `found` and `survey`
are about. -/
def GivesParts (found : Nat → Nat × List LabelSite)
    (survey : List BlockView → Nat → Nat → Survey) (resolve : CheckBody α)
    (terms tests arms : α → List NodeId) : Prop :=
  ∀ (blocks : List BlockView) (run : Run) (next later : List NodeId),
    env.At library o blocks run (found run.lastScope).2 next later →
    resolve.Gives run fun r run' =>
      run.MakesParts library env.rules o blocks (survey blocks run.tree.size run.lastScope) next later
        (terms r) (tests r) (arms r) run'

/-- Resolving the statements fills the innermost scope with them. -/
def GivesStmts (stmts : List Stmt) : Prop :=
  ∀ (b : BlockView) (outer : List BlockView) (tr : Tracker) (run : Run) (next later : List NodeId),
    tr.scopeId = b.scopeId → (∀ a ∈ tr.statements, ∃ s, run.tree.stmt? a = some s) →
    env.At library o (b :: outer) run
      (labelsOfStmts b.scopeId tr.nextIndex run.lastScope stmts).2 next later →
    (resolveStmts env stmts tr).Gives run fun tr' run' =>
      run.FillsScope library env.rules o b outer
        (surveyStmts (b :: outer) run.tree.size run.lastScope stmts) next later tr tr' run'

abbrev GivesPlain (stmt : PlainStmt) : Prop :=
  ∀ single, GivesStmt library env o (.plain stmt) fun scope index =>
    resolvePlain env scope index single stmt

abbrev GivesBody (body : Stmt) : Prop :=
  ∀ kind, GivesParts library env o (fun last => labelsOfBody last body)
    (fun blocks node last => surveyBody blocks node last body) (resolveBody env kind body)
    (fun _ => []) (fun _ => []) fun id => [id]

end

/-! ### Scopes -/

/-- The run behind the opening of a scope. -/
def Run.opened (run : Run) : Run :=
  { run with lastScope := run.lastScope + 1, scopes := run.scopes.push (run.lastScope + 1) }

theorem Env.At.opened (h : env.At library o blocks run sites next later) :
    env.At library o ({ scopeId := run.lastScope + 1 } :: blocks) run.opened sites next later where
  names := h.names
  shows := by
    refine .cons ⟨rfl, fun name => ?_⟩ h.shows
    simp [BlockView.local?]
  labels := h.labels
  next := h.next
  body := h.body

/-- A new scope with the statements that `fill` appends to it. -/
theorem inScope_gives {kind : ScopeKind} {single : Bool} {span : Span}
    {fill : Tracker → CheckBody Tracker}
    (hfill : (fill { scopeId := run.lastScope + 1, singleStatement := single }).Gives run.opened
      fun tr' run' => run.opened.FillsScope library env.rules o { scopeId := run.lastScope + 1 }
        blocks survey
        next later { scopeId := run.lastScope + 1, singleStatement := single } tr' run') :
    (inScope env kind single span fill).Gives run fun id run' =>
      run.MakesParts library env.rules o blocks survey.close next later [] [] [id] run' := by
  unfold inScope
  refine .lift_bind (hfill.bind fun tr' run₁ hfills => ?_)
  obtain ⟨⟨b', hshows⟩, ids, hids, hlays⟩ := And.intro hfills.shows hfills.lays
  obtain ⟨frames, run', hclose, hshows', htakes, hscope⟩ :
      ∃ frames run', _ ∧ _ ∧ Run.Takes library o 1 [] { run₁ with scopes := ⟨frames⟩ } run' ∧ _ :=
    closeScope_takes hshows env kind span tr'
  have hgoes : run.Goes library o survey later run₁ :=
    have hg := hfills.goes
    ⟨⟨hg.grows, hg.notices, hg.reports, hg.bound⟩, hg.size, hg.lastScope, hg.labels⟩
  have hlast : run'.lastScope = run₁.lastScope := htakes.lastScope
  refine ⟨run₁.tree.size, run', congrArg Except.ok hclose,
    (hgoes.scopes ⟨frames⟩).close htakes, ?_, by simp, by simp, ?_⟩
  · exact htakes.scopes ▸ hshows'
  · have hlays' : run'.Lays env.rules o ({ scopeId := run.lastScope + 1 } :: blocks) ids
        (run.lastScope + 1) run₁.lastScope next := hlays.grows htakes.grows htakes.notices
    rw [hlast]
    refine Run.Lays.scope (c := tr'.scope kind) ?_ hscope hfills.scopeId
    simp only [Tracker.scope, hfills.scopeId, hids, List.nil_append]
    exact hlays'

/-- One statement, and then the others. -/
theorem givesStmts_cons {s : Stmt} {rest : List Stmt}
    (hs : GivesStmt library env o s fun scope index => resolveStmt env scope index s)
    (hrest : GivesStmts library env o rest) : GivesStmts library env o (s :: rest) := by
  intro b outer tr run next later hid hstmts h
  obtain ⟨first, second, rfl, hfirst, hnext⟩ := h.split
  unfold resolveStmts
  rw [hid]
  refine (hs b outer tr.nextIndex run first (second ++ later) hfirst).bind fun x run₁ hmade => ?_
  obtain ⟨id, facts⟩ := x
  obtain ⟨n, hn, hafter, hlabel⟩ := hmade.node
  refine (appendStmt_gives facts (fun a ha => ?_) hn (hid ▸ hlabel)).bind fun tr₁ run₂ happ => ?_
  · obtain ⟨m, hm⟩ := hstmts a ha
    obtain ⟨m', hm', -⟩ := hmade.goes.grows.stmt? hm
    exact ⟨m', hm'⟩
  obtain ⟨htr, hid₁, hgrow, hsize, hrun₂⟩ := happ
  obtain ⟨t₂, ht₂⟩ : ∃ t, run₂.tree = t := ⟨_, rfl⟩
  rw [ht₂] at hrun₂ hgrow hsize
  subst hrun₂
  have hgoes : run.Goes library o (surveyStmt (b :: outer) run.tree.size run.lastScope s)
      (second ++ later) { run₁ with tree := t₂ } :=
    hmade.goes.place hgrow hsize
  obtain ⟨n', hn', ho, -⟩ := hgrow.stmt? hn
  rw [← StmtNode.behind_of_outline ho] at hafter
  have hlast : run₁.lastScope = (labelsOfStmt b.scopeId tr.nextIndex run.lastScope s).1 :=
    hmade.goes.lastScope.trans (surveyStmt_last ..)
  have hindex : tr₁.nextIndex = tr.nextIndex + 1 := by simp [Tracker.nextIndex, htr]
  have hready := hnext { run₁ with tree := t₂ } (b.behind id n'.kind :: outer) hgoes.grows
    (hafter ▸ hmade.shows) hmade.goes.labels
  rw [← hlast, ← hindex, ← b.behind_scopeId id n'.kind] at hready
  have hstmts₁ : ∀ a ∈ tr₁.statements, ∃ m, t₂.stmt? a = some m := by
    intro a ha
    rw [htr] at ha
    rcases List.mem_append.mp ha with ha | ha
    · obtain ⟨m, hm⟩ := hstmts a ha
      obtain ⟨m', hm', -⟩ := hgoes.grows.stmt? hm
      exact ⟨m', hm'⟩
    · rw [List.mem_singleton.mp ha]
      exact ⟨n', hn'⟩
  refine (hrest (b.behind id n'.kind) outer tr₁ _ second later ?_ hstmts₁ hready).mono
    fun tr' run' hfills => ?_
  · rw [hid₁, hid, BlockView.behind_scopeId]
  obtain ⟨ids, hids, hlays⟩ := hfills.lays
  refine ⟨?_, hfills.shows, hfills.scopeId.trans hid₁, id :: ids, ?_, ?_⟩
  · have hsurvey := hgoes.after hfills.goes
    simp only [hsize, hmade.goes.size, hmade.goes.lastScope] at hsurvey
    rw [hmade.goes.size] at hafter
    rw [← hafter] at hsurvey
    exact hsurvey
  · rw [hids, htr, List.append_assoc]
    rfl
  · have hfirst' : run'.Lays env.rules o (b :: outer) [id] run.lastScope run₁.lastScope first :=
      hmade.lays.grows (hgrow.trans hfills.goes.grows) hfills.goes.notices
    obtain ⟨n'', hn'', ho', -⟩ := hfills.goes.grows.stmt? hn'
    rw [← StmtNode.behind_of_outline ho'] at hlays
    exact hfirst'.cons hn'' hlays

/-- Statements in braces. -/
theorem givesParts_braced {stmts : List Stmt} (hs : GivesStmts library env o stmts)
    (kind : ScopeKind) (span : Span) :
    GivesParts library env o (fun last => labelsOfStmts (last + 1) 0 (last + 1) stmts)
      (fun blocks node last =>
        (surveyStmts ({ scopeId := last + 1 } :: blocks) node (last + 1) stmts).close)
      (inScope env kind false span (resolveStmts env stmts)) (fun _ => []) (fun _ => [])
      fun id => [id] := by
  intro blocks run next later h
  exact inScope_gives (hs _ _ _ _ next later rfl (by simp) h.opened)

/-- One statement without braces. -/
theorem givesBody_plain {stmt : PlainStmt} (hs : GivesPlain library env o stmt) :
    GivesBody library env o (.plain stmt) := by
  intro kind blocks run next later h
  unfold resolveBody
  refine inScope_gives ((hs true _ blocks 0 run.opened next later h.opened).bind
    fun x run₁ hmade => ?_)
  obtain ⟨id, facts⟩ := x
  obtain ⟨n, hn, -, hlabel⟩ := hmade.node
  refine (appendStmt_gives facts (by simp) hn hlabel).mono fun tr' run' happ => ?_
  obtain ⟨htr, hid, hgrow, hsize, hrun'⟩ := happ
  obtain ⟨t', ht'⟩ : ∃ t, run'.tree = t := ⟨_, rfl⟩
  rw [ht'] at hrun' hgrow hsize
  subst hrun'
  refine ⟨hmade.goes.place hgrow hsize, ?_, hid, [id], htr, hmade.lays.grows hgrow ?_⟩
  · obtain ⟨n, -, hafter, -⟩ := hmade.node
    exact ⟨_, hafter ▸ hmade.shows⟩
  · exact List.Subset.refl _

/-! ### New statements -/

/-- A new statement that neither is a label nor declares anything, with what is
told about it. -/
theorem newStmt {stmt : Stmt} {kind : StmtKind} {span : Span} {index : Nat} {more : List Site}
    {run₁ : Run} (hgoes : run.Goes library o survey later run₁)
    (hshows : run₁.scopes.Shows library (b :: outer))
    (harms : run₁.Arms rules o (b :: outer) kind.arms run.lastScope run₁.lastScope next)
    (hterms : ∀ c ∈ kind.terms, run₁.tree.Sees rules o (visibleLocals (b :: outer)) c)
    (hk : kind.isLabel = false) (hd : ∀ v, kind ≠ .declare v)
    (hplace : run'.tree.InPlace rules o run'.Wrong b kind)
    (hafter : ∀ n, blocksAfter (b :: outer) stmt n = b :: outer)
    (hgrow : (run₁.tree.alloc (.stmt { kind }) span).1.Grows (fun _ => True) run'.tree)
    (htakes : run₁.Takes library o 1 more run')
    (hsurvey : surveyStmt (b :: outer) run.tree.size run.lastScope stmt
      = { survey with node := survey.node + 1, sites := survey.sites ++ more }) :
    run.MakesStmt library rules o b outer stmt index next later run₁.tree.size run' := by
  obtain ⟨s', hs', ho, -⟩ := hgrow.stmt? (stmt?_alloc { kind } span)
  have hlabel : s'.kind.isLabel = false := (StmtNode.isLabel_of_outline ho).trans hk
  have harms' := harms.grows htakes.grows htakes.notices
  rw [← (StmtNode.arms_of_outline ho).1, ← htakes.lastScope] at harms'
  refine ⟨hsurvey ▸ hgoes.takes htakes, ?_, ?_, s', hs', ?_, by simp [hlabel]⟩
  · rw [hafter]
    exact htakes.shows hshows
  · have hlays := harms'.stmt hs' (fun c hc => ?_)
      (Tree.InPlace.grows (s := { kind }) hplace (.refl (fun _ => True) _) ho id)
    · simpa [hlabel] using hlays
    · rw [StmtNode.terms_of_outline ho] at hc
      exact (hterms c hc).grows htakes.grows
  · rw [hafter, StmtNode.behind_of_outline ho]
    cases kind <;> first | rfl | exact absurd rfl (hd _)

end Lsl
