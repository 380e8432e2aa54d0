/- # Resolving statements by acts

Resolving a statement makes one loose node, or takes the next label; appending
it puts the node into the innermost scope. What a statement is said to do to the
flow of control is what the tree says of it. A scope that is opened is closed
again, and by then all its labels have been met.

Key definitions: `Env.InBody`, `Env.Ready`, `Yields`, `Resolved`, `FillsStmts`.
Key theorems: `Resolved.append`, `inScope_yields`, `fillsStmts`.
-/
import Lsl.Proofs.Check.ExprActs
import Lsl.Proofs.Reachability.Flow
import Mathlib.Data.List.Forall2

namespace Lsl

variable {script : Script} {library : Catalog} {env : Env} {p : Progress} {run run' : Run}
  {ids ids' : List NodeId}

/-! ### Steps that can fail -/

namespace CheckBody

variable {α β : Type}

theorem bind_ok {x : CheckBody α} {f : α → CheckBody β} {b : β}
    (h : (x >>= f) run = .ok (b, run')) :
    ∃ a r, x run = .ok (a, r) ∧ f a r = .ok (b, run') := by
  change (x run >>= fun s => f s.1 s.2) = .ok (b, run') at h
  cases hx : x run with
  | error e =>
    rw [hx] at h
    cases h
  | ok s =>
    rw [hx] at h
    exact ⟨s.1, s.2, rfl, h⟩

theorem lift_bind (x : Check α) (f : α → CheckBody β) (run : Run) :
    ((liftM x : CheckBody α) >>= f) run = f (x run).1 (x run).2 := rfl

theorem pure_ok {a b : α} (h : (pure a : CheckBody α) run = .ok (b, run')) : a = b ∧ run = run' := by
  cases h
  exact ⟨rfl, rfl⟩

theorem map_ok {f : α → β} {x : CheckBody α} {b : β} (h : (f <$> x) run = .ok (b, run')) :
    ∃ a, x run = .ok (a, run') ∧ f a = b := by
  rw [map_eq_pure_bind] at h
  obtain ⟨a, r, hx, hp⟩ := bind_ok h
  obtain ⟨rfl, rfl⟩ := pure_ok hp
  exact ⟨a, hx, rfl⟩

theorem ite_run (c : Prop) [Decidable c] (x y : CheckBody α) (run : Run) :
    (if c then x else y) run = if c then x run else y run := by
  split <;> rfl

theorem expect_ok {found : Option α} {id : NodeId} {expected : String} {a : α}
    (h : CheckBody.expect found id expected run = .ok (a, run')) : found = some a ∧ run = run' := by
  cases found with
  | none => cases h
  | some b =>
    obtain ⟨rfl, rfl⟩ := pure_ok h
    exact ⟨rfl, rfl⟩

end CheckBody

/-! ### Inside a body -/

/-- What is known while a body is resolved: the names stand for what is in the
tree, labels among them, and the scopes that are open are those of the stack. -/
structure Env.InBody (library : Catalog) (env : Env) (p : Progress) : Prop where
  known : env.Known library p.run.tree p.run.scopes
  labels : ∀ b ∈ env.body, ∀ x ∈ b.labels, x.2 ∈ p.labels
  opened : p.run.scopes.frames.map (·.scopeId) = p.openIds

/-- The labels still to be met are those of the statements that come next, then
`later` ones. When these statements are resolved, `found.1` is the number given
out last, and none of the later labels is in a scope opened meanwhile. -/
structure Env.Ready (library : Catalog) (env : Env) (p : Progress) (found : Nat × List LabelSite)
    (later : List NodeId) : Prop extends env.InBody library p where
  next : ∃ ids, p.run.labels = ids ++ later ∧ List.Forall₂ p.run.tree.LabelAt ids found.2
  outside : ∀ l ∈ later, ∃ s, p.run.tree.stmt? l = some s ∧ s.kind.isLabel = true
    ∧ (s.info.scopeId ≤ p.run.lastScope ∨ found.1 < s.info.scopeId)

/-- The run comes about by acts that leave the loose nodes `ids`, and goes on
with the labels `later` after scope number `last`. -/
structure Yields (script : Script) (library : Catalog) (env : Env) (p : Progress) (run : Run)
    (ids : List NodeId) (last : Nat) (later : List NodeId) : Prop where
  acts : Acts script library p { p with run, loose := ids ++ p.loose }
  inBody : env.InBody library { p with run, loose := ids ++ p.loose }
  labels : run.labels = later
  lastScope : run.lastScope = last

variable {later : List NodeId} {found found' : Nat × List LabelSite} {last : Nat}

theorem Env.InBody.push (h : env.InBody library p) (hp : Pushes script library p run ids) :
    env.InBody library { p with run, loose := ids ++ p.loose } where
  known := hp.known h.known
  labels := h.labels
  opened := by
    rw [show run.scopes = p.run.scopes from hp.scopes]
    exact h.opened

/-- Resolving expressions meets no label and opens no scope. -/
theorem Env.Ready.push (h : env.Ready library p found later)
    (hp : Pushes script library p run ids) :
    env.Ready library { p with run, loose := ids ++ p.loose } found later where
  toInBody := h.toInBody.push hp
  next := by
    obtain ⟨next, hl, hat⟩ := h.next
    refine ⟨next, hp.labels.trans hl, hat.imp fun _ _ hx => hx.grows hp.grows⟩
  outside l hl := by
    obtain ⟨s, hs, hlabel, hscope⟩ := h.outside l hl
    obtain ⟨s', hs', ho, -⟩ := hp.grows.stmt? hs
    obtain ⟨hlabel', hscope', -⟩ := StmtNode.site_of_outline ho hlabel
    exact ⟨s', hs', hlabel', by rw [hscope', hp.lastScope]; exact hscope⟩

/-- Where no label comes next, expressions are all there is. -/
theorem Env.Ready.yields (h : env.Ready library p (last, []) later)
    (hp : Pushes script library p run ids) (hlast : p.run.lastScope = last) :
    Yields script library env p run ids last later where
  acts := hp.acts
  inBody := h.toInBody.push hp
  labels := by
    obtain ⟨next, hl, hat⟩ := h.next
    obtain rfl := List.forall₂_nil_right_iff.mp hat
    exact hp.labels.trans hl
  lastScope := hp.lastScope.trans hlast

/-- A part of a body and the rest of it: what is known before the first part,
and what is known before the rest when the first part is done. -/
theorem Env.Ready.split {scope : Nat}
    (h : env.Ready library p (found'.1, found.2 ++ found'.2) later)
    (hle : p.run.lastScope ≤ found.1) (hw : SitesWithin scope found.1 found')
    (hscope : scope ≤ p.run.lastScope) :
    ∃ middle, env.Ready library p found middle ∧
      ∀ p', p.run.tree.Grows (fun _ => True) p'.run.tree → env.InBody library p' →
        p'.run.labels = middle → p'.run.lastScope = found.1 → env.Ready library p' found' later := by
  obtain ⟨next, hl, hat⟩ := h.next
  obtain ⟨first, rest, rfl, hfirst, hrest⟩ : ∃ first rest, next = first ++ rest
      ∧ List.Forall₂ p.run.tree.LabelAt first found.2
      ∧ List.Forall₂ p.run.tree.LabelAt rest found'.2 :=
    ⟨_, _, (List.take_append_drop found.2.length next).symm,
      List.forall₂_take_append _ _ _ hat, List.forall₂_drop_append _ _ _ hat⟩
  refine ⟨rest ++ later, ⟨h.toInBody, ⟨first, by rw [hl, List.append_assoc], hfirst⟩, ?_⟩, ?_⟩
  · intro l hmem
    rcases List.mem_append.mp hmem with hmem | hmem
    · -- a label of the rest stands in the scope that is looked at, or in one opened later
      obtain ⟨site, hsite, s, hs, hlabel, hid, -⟩ : ∃ site ∈ found'.2, p.run.tree.LabelAt l site := by
        obtain ⟨i, hi, rfl⟩ := List.mem_iff_getElem.mp hmem
        have hlen := hrest.length_eq
        exact ⟨found'.2[i], List.getElem_mem _, List.forall₂_iff_get.mp hrest |>.2 i hi (hlen ▸ hi)⟩
      refine ⟨s, hs, hlabel, ?_⟩
      have := hw.site site hsite
      omega
    · obtain ⟨s, hs, hlabel, hid⟩ := h.outside l hmem
      have := hw.le
      exact ⟨s, hs, hlabel, by omega⟩
  · intro p' hg hb hl' hlast'
    refine ⟨hb, ⟨rest, hl', hrest.imp fun _ _ hx => hx.grows hg⟩, fun l hmem => ?_⟩
    obtain ⟨s, hs, hlabel, hid⟩ := h.outside l hmem
    obtain ⟨s', hs', ho, -⟩ := hg.stmt? hs
    obtain ⟨hlabel', hscope', -⟩ := StmtNode.site_of_outline ho hlabel
    refine ⟨s', hs', hlabel', ?_⟩
    simp only at hid
    omega

namespace Yields

theorem grows (h : Yields script library env p run ids last later) :
    p.run.tree.Grows (fun _ => True) run.tree := h.acts.grows

theorem trans {later' : List NodeId} {last' : Nat}
    (h : Yields script library env p run ids last later)
    (g : Yields script library env { p with run, loose := ids ++ p.loose } run' ids' last' later') :
    Yields script library env p run' (ids' ++ ids) last' later' where
  acts := by
    rw [List.append_assoc]
    exact h.acts.trans g.acts
  inBody := by
    rw [List.append_assoc]
    exact g.inBody
  labels := g.labels
  lastScope := g.lastScope

/-- Expressions that follow. -/
theorem push (h : Yields script library env p run ids last later)
    (g : Pushes script library { p with run, loose := ids ++ p.loose } run' ids') :
    Yields script library env p run' (ids' ++ ids) last later :=
  h.trans ⟨g.acts, h.inBody.push g, g.labels.trans h.labels, g.lastScope.trans h.lastScope⟩

/-- A step that only reports something or changes local names. -/
theorem next (h : Yields script library env p run ids last later)
    (hact : Act script library { p with run, loose := ids ++ p.loose }
      { p with run := run', loose := ids' ++ p.loose })
    (hscopes : run'.scopes = run.scopes) (hlabels : run'.labels = run.labels)
    (hlast : run'.lastScope = run.lastScope) :
    Yields script library env p run' ids' last later where
  acts := h.acts.tail hact
  inBody := by
    refine ⟨?_, h.inBody.labels, ?_⟩
    · rw [hscopes]
      exact h.inBody.known.grows hact.grows
    · rw [hscopes]
      exact h.inBody.opened
  labels := hlabels.trans h.labels
  lastScope := hlast.trans h.lastScope

end Yields

/-! ### Scopes -/

theorem warnUnusedLocals_pushes (h : Pushes script library p run ids)
    (locals : List (String × NodeId)) :
    Pushes script library p (warnUnusedLocals locals run).2 ids := by
  refine h.forM fun ⟨name, decl⟩ _ run h => ?_
  change Pushes script library p ((if isUnusedLocal run.tree decl then
    Check.warn (.localNeverUsed name) (run.tree.span decl) else pure () : Check Unit) run).2 ids
  rw [Check.ite_run]
  split
  · exact h.say rfl
  · exact h

/-- Dead code is reported; where it is an error, the first dead statement is marked. -/
theorem reportSegment_pushes (h : Pushes script library p run ids) (segment : DeadSegment)
    {first : NodeId} (hfirst : segment.statements.head? = some first)
    (hroot : ∀ run loose, first ∈ Progress.roots { p with run, loose }) :
    Pushes script library p (reportSegment env segment run).2 ids := by
  unfold reportSegment
  rcases env.valueFunction? with _ | name
  · exact h.say rfl
  · cases segment.reason with
    | afterReturn =>
      rw [hfirst]
      exact h.faultRoot (hroot _ _) [.fault (.deadCodeAfterReturn name) segment.span] (by simp)
        (by simp [Notice.marks])
    | _ => exact h.say rfl

/-- Closing a scope makes a loose node of it, whose statements are those the
tracker has seen. -/
theorem closeScope_acts {tr : Tracker} {aside : List NodeId} {outer : List Level}
    (kind : ScopeKind) (span : Span) (hb : env.InBody library p) (hl : p.loose = [])
    (hst : p.stack = ⟨tr, aside⟩ :: outer) (hseg : tr.Segmented)
    (hpending : ∀ l ∈ p.run.labels, ∃ s, p.run.tree.stmt? l = some s ∧ s.kind.isLabel = true
      ∧ s.info.scopeId ≠ tr.scopeId) :
    let r := closeScope env kind span tr p.run
    let p' : Progress := { p with run := r.2, loose := r.1 :: aside, stack := outer }
    Acts script library p p' ∧ env.InBody library p' ∧ r.2.labels = p.run.labels
      ∧ r.2.lastScope = p.run.lastScope ∧ r.2.tree.scope? r.1 = some (tr.scope kind) := by
  -- the frame of the scope is the innermost one
  obtain ⟨frame, frames, hframes⟩ : ∃ f rest, p.run.scopes.frames = f :: rest := by
    have := hb.opened
    rw [Progress.openIds, hst] at this
    exact List.exists_cons_of_ne_nil fun h => by simp [h] at this
  have hopened : frames.map (·.scopeId) = outer.map (·.tracker.scopeId) := by
    have := hb.opened
    rw [Progress.openIds, hst, hframes] at this
    exact (List.cons.inj this).2
  have hpop : closeFrame p.run = (frame.locals, { p.run with scopes := ⟨frames⟩ }) := by
    simp [closeFrame, ScopeStack.pop?, hframes, modifyGet, MonadStateOf.modifyGet,
      StateT.modifyGet, pure]
  let p₀ : Progress := { p with run := { p.run with scopes := ⟨frames⟩ } }
  have hroot : ∀ s ∈ tr.statements, ∀ run loose, s ∈ Progress.roots { p₀ with run, loose } := by
    intro s hs run loose
    have : s ∈ p.stack.flatMap fun l => l.tracker.statements ++ l.aside := by
      rw [hst]
      simp [hs]
    exact List.mem_append_left _ (List.mem_append_right _ this)
  have hwarn : Pushes script library p₀
      ((if env.warnUnused then warnUnusedLocals frame.locals else pure () : Check Unit) p₀.run).2
      [] := by
    rw [Check.ite_run]
    split
    · exact warnUnusedLocals_pushes (.refl p₀) frame.locals
    · exact .refl p₀
  have hreport : Pushes script library p₀ ((tr.segments.forM (reportSegment env))
      ((if env.warnUnused then warnUnusedLocals frame.locals else pure () : Check Unit)
        p₀.run).2).2 [] := by
    refine hwarn.forM fun segment hs run h => ?_
    obtain ⟨first, hf, hhead⟩ := hseg.segments segment hs
    exact reportSegment_pushes h segment hhead (hroot first hf)
  obtain ⟨run, hrun⟩ : ∃ run, run = ((tr.segments.forM (reportSegment env))
      ((if env.warnUnused then warnUnusedLocals frame.locals else pure () : Check Unit)
        p₀.run).2).2 := ⟨_, rfl⟩
  rw [← hrun] at hreport
  have hclose : closeScope env kind span tr p.run
      = (run.tree.size, { run with tree := (run.tree.alloc (.scope (tr.scope kind)) span).1 }) := by
    unfold closeScope
    rw [Check.bind_run, hpop, hrun]
    simp only
    by_cases hw : env.warnUnused = true
    · simp only [hw, ↓reduceIte]
      rfl
    · simp only [Bool.not_eq_true] at hw
      simp only [hw, Bool.false_eq_true, ↓reduceIte]
      rfl
  have hacts := hreport.acts
  simp only [hclose]
  refine ⟨?_, ⟨?_, hb.labels, ?_⟩, hreport.labels, hreport.lastScope, ?_⟩
  · refine .head (.names p ⟨frames⟩) (hacts.tail (.closeScope { p₀ with run, loose := [] ++ p₀.loose }
      tr aside outer kind span hl hst fun l hmem s hs => ?_))
    obtain ⟨s₀, hs₀, hlabel, hne⟩ := hpending l (hreport.labels ▸ hmem)
    obtain ⟨s', hs', ho, -⟩ := hacts.grows.stmt? hs₀
    obtain rfl : s' = s := Option.some.inj (hs'.symm.trans hs)
    rw [(StmtNode.site_of_outline ho hlabel).2.1]
    exact hne
  · have hknown : env.Known library p₀.run.tree p₀.run.scopes :=
      ⟨hb.known.library, hb.known.functions, hb.known.globals, hb.known.params,
        hb.known.labels, fun f hf x hx =>
        hb.known.locals f (hframes ▸ List.mem_cons_of_mem _ hf) x hx⟩
    exact (hreport.known hknown).grows (P := fun _ => True) (Tree.grows_alloc _ _)
  · rw [show run.scopes = ⟨frames⟩ from hreport.scopes]
    exact hopened
  · exact Tree.scope?_eq_some.mpr (Tree.kind?_alloc_self _ span)

/-- Statements were appended to the innermost scope, whose tracker was `tr` and
has become `tr'`; nothing is loose in it. -/
structure Filled (script : Script) (library : Catalog) (env : Env) (p : Progress) (run : Run)
    (tr' : Tracker) (last : Nat) (later : List NodeId) : Prop where
  fills : ∃ tr aside outer, p.loose = [] ∧ p.stack = ⟨tr, aside⟩ :: outer
    ∧ tr'.scopeId = tr.scopeId ∧ tr'.Segmented
    ∧ Acts script library p { p with run, stack := ⟨tr', aside⟩ :: outer }
  known : env.Known library run.tree run.scopes
  opened : run.scopes.frames.map (·.scopeId) = p.openIds
  names : ∀ b ∈ env.body, ∀ x ∈ b.labels, x.2 ∈ p.labels
  labels : run.labels = later
  lastScope : run.lastScope = last

/-- The progress behind the opening of a scope. -/
def Progress.opened (p : Progress) (singleStatement : Bool) : Progress :=
  { p with
    run := { p.run with
      lastScope := p.run.lastScope + 1, scopes := p.run.scopes.push (p.run.lastScope + 1) }
    loose := []
    stack := ⟨{ scopeId := p.run.lastScope + 1, singleStatement }, p.loose⟩ :: p.stack }

theorem Env.Ready.openScope (h : env.Ready library p found later) (singleStatement : Bool) :
    env.Ready library (p.opened singleStatement) found later where
  known := by
    refine ⟨h.known.library, h.known.functions, h.known.globals, h.known.params, h.known.labels,
      fun f hf x hx => ?_⟩
    rcases List.mem_cons.mp hf with rfl | hf
    · simp at hx
    · exact h.known.locals f hf x hx
  labels := h.labels
  opened := by
    simp only [Progress.opened, ScopeStack.push, Progress.openIds, List.map_cons]
    rw [h.opened]
    rfl
  next := h.next
  outside l hl := by
    obtain ⟨s, hs, hlabel, hscope⟩ := h.outside l hl
    refine ⟨s, hs, hlabel, ?_⟩
    simp only [Progress.opened]
    omega

/-- A scope that is filled by appending statements is a loose node when it is closed. -/
theorem inScope_yields {kind : ScopeKind} {singleStatement : Bool} {span : Span}
    {fill : Tracker → CheckBody Tracker} {id : NodeId} (h : env.Ready library p found later)
    (hle : p.run.lastScope + 1 ≤ found.1)
    (hfill : ∀ tr' run', fill { scopeId := p.run.lastScope + 1, singleStatement }
        (p.opened singleStatement).run = .ok (tr', run') →
      Filled script library env (p.opened singleStatement) run' tr' found.1 later)
    (hrun : inScope env kind singleStatement span fill p.run = .ok (id, run)) :
    Yields script library env p run [id] found.1 later
      ∧ ∃ c, run.tree.scope? id = some c ∧ c.kind = kind := by
  unfold inScope at hrun
  rw [CheckBody.lift_bind] at hrun
  obtain ⟨tr', run₁, hf, hclose⟩ := CheckBody.bind_ok hrun
  have hfilled := hfill tr' run₁ hf
  obtain ⟨tr, aside, outer, hl, hst, hid, hseg, hacts⟩ := hfilled.fills
  obtain ⟨⟨rfl, rfl⟩, rfl⟩ : (⟨{ scopeId := p.run.lastScope + 1, singleStatement }, p.loose⟩ : Level)
      = ⟨tr, aside⟩ ∧ p.stack = outer := List.cons.inj hst
  let p₁ : Progress := { p with run := run₁, loose := [], stack := ⟨tr', p.loose⟩ :: p.stack }
  have hb : env.InBody library p₁ := by
    refine ⟨hfilled.known, hfilled.names, ?_⟩
    simp only [p₁, Progress.openIds, List.map_cons, hid]
    exact hfilled.opened
  have hpending : ∀ l ∈ run₁.labels, ∃ s, run₁.tree.stmt? l = some s ∧ s.kind.isLabel = true
      ∧ s.info.scopeId ≠ tr'.scopeId := by
    intro l hmem
    rw [hfilled.labels] at hmem
    obtain ⟨s, hs, hlabel, hscope⟩ := h.outside l hmem
    obtain ⟨s', hs', ho, -⟩ := hacts.grows.stmt? hs
    obtain ⟨hlabel', hscope', -⟩ := StmtNode.site_of_outline ho hlabel
    refine ⟨s', hs', hlabel', ?_⟩
    rw [hscope', hid]
    simp only
    omega
  obtain ⟨hca, hcb, hcl, hcs, hcscope⟩ : Acts script library p₁ _ ∧ _ :=
    closeScope_acts kind span hb rfl rfl hseg hpending
  rw [show closeScope env kind span tr' p₁.run = (id, run) from Except.ok.inj hclose]
    at hca hcb hcl hcs hcscope
  refine ⟨⟨.head (.openScope p singleStatement) (hacts.trans hca), hcb, ?_, ?_⟩, _, hcscope, rfl⟩
  · rw [hcl]
    exact hfilled.labels
  · rw [hcs]
    exact hfilled.lastScope

/-! ### Appending -/

theorem appendStmt_run (tr : Tracker) (id : NodeId) (facts : Facts) (run : Run) :
    appendStmt tr id facts run = (match (run.tree.append tr id facts).outcome with
      | .error e => (throw e : CheckBody Tracker)
      | .ok _ => (do
          set { run with tree := (run.tree.append tr id facts).tree }
          return (run.tree.append tr id facts).tracker)) run := rfl

theorem appendStmt_ok {tr tr' : Tracker} {id : NodeId} {facts : Facts}
    (h : appendStmt tr id facts run = .ok (tr', run')) :
    ∃ t' reach, run.tree.append tr id facts = ⟨t', tr', .ok reach⟩
      ∧ run' = { run with tree := t' } := by
  rw [appendStmt_run] at h
  rcases ha : run.tree.append tr id facts with ⟨t', tr₁, outcome⟩
  rw [ha] at h
  cases outcome with
  | error e => cases h
  | ok reach =>
    cases h
    exact ⟨t', reach, rfl, rfl⟩

/-- A statement that is ready to be appended at place `index` of scope `scope`:
a loose node, or the next label. Its facts are what the tree says of it. -/
inductive Resolved (script : Script) (library : Catalog) (env : Env) (p : Progress) (run : Run)
    (id : NodeId) (facts : Facts) (scope index last : Nat) (later : List NodeId) : Prop where
  | loose (s : StmtNode) (h : Yields script library env p run [id] last later)
    (hs : run.tree.stmt? id = some s) (hk : s.kind.isLabel = false)
    (hf : facts = run.tree.facts id index)
  | label (s : StmtNode) (hb : env.InBody library p) (hl : p.run.labels = id :: later)
    (hrun : run = { p.run with labels := later }) (hs : p.run.tree.stmt? id = some s)
    (hk : s.kind.isLabel = true) (hscope : s.info.scopeId = scope) (hindex : s.info.index = index)
    (hf : facts = {}) (hlast : p.run.lastScope = last)

theorem facts_label {t : Tree} {id : Nat} {s : StmtNode} (index : Nat) (hs : t.stmt? id = some s)
    (hk : s.kind.isLabel = true) : t.facts id index = {} := by
  rcases s with ⟨kind, info⟩
  cases kind <;> simp [StmtKind.isLabel] at hk
  simp [Tree.facts, hs]

theorem segmented_append {t t' : Tree} {tr tr' : Tracker} {id : Nat} {facts : Facts}
    {reach : Reach} (hseg : tr.Segmented)
    (h : t.append tr id facts = ⟨t', tr', .ok reach⟩) :
    tr'.Segmented ∧ tr'.scopeId = tr.scopeId ∧ tr'.nextIndex = tr.nextIndex + 1 := by
  obtain ⟨s, c, -, hc, rfl, -⟩ := Tree.append_ok h
  have hsame := Tracker.sameScope_classify tr id (t.span id) facts.returns (t.reachedByLiveJump id)
  have hcseg := hseg.classify id (t.span id) facts.returns (t.reachedByLiveJump id)
  rw [hc] at hsame hcseg
  refine ⟨hcseg.record _, hsame.scopeId, ?_⟩
  change c.statements.length = _
  rw [show c.statements = tr.statements ++ [id] from hsame.statements]
  simp [Tracker.nextIndex]

/-- Appending a resolved statement puts it into the innermost scope. -/
theorem Resolved.append {id : NodeId} {facts : Facts} {tr tr' : Tracker} {aside : List NodeId}
    {outer : List Level}
    (h : Resolved script library env p run id facts tr.scopeId tr.nextIndex last later)
    (hl : p.loose = []) (hst : p.stack = ⟨tr, aside⟩ :: outer) (hseg : tr.Segmented)
    (hrun : appendStmt tr id facts run = .ok (tr', run')) :
    Filled script library env p run' tr' last later ∧ tr'.nextIndex = tr.nextIndex + 1 := by
  obtain ⟨t', reach, ha, rfl⟩ := appendStmt_ok hrun
  obtain ⟨hseg', hid, hnext⟩ := segmented_append hseg ha
  refine ⟨?_, hnext⟩
  cases h with
  | loose s h hs hk hf =>
    subst hf
    have hact : Act script library { p with run, loose := [id] ++ p.loose } _ :=
      .append _ id s p.loose tr tr' aside outer t' reach rfl hst hs hk ha
    exact ⟨⟨tr, aside, outer, hl, hst, hid, hseg', h.acts.tail hact⟩,
      h.inBody.known.grows hact.grows, h.inBody.opened, h.inBody.labels, h.labels, h.lastScope⟩
  | label s hb hlab hr hs hk hscope hindex hf hlast =>
    subst hr
    rw [hf, ← facts_label tr.nextIndex hs hk] at ha
    have hact : Act script library p _ :=
      .appendLabel p id s later tr tr' aside outer t' reach hlab hst hs hk hscope hindex ha
    exact ⟨⟨tr, aside, outer, hl, hst, hid, hseg', .single hact⟩, hb.known.grows hact.grows,
      hb.opened, hb.labels, rfl, hlast⟩

/-! ### Plain statements -/

namespace Yields

theorem say (h : Yields script library env p run ids last later) {n : Notice}
    (hn : n.marks = false) :
    Yields script library env p { run with notices := run.notices ++ [n] } ids last later :=
  h.next (.say _ n hn) rfl rfl rfl

theorem fault (h : Yields script library env p run ids last later) {id : NodeId} (hid : id ∈ ids)
    (n : Notice) (hn : n.marks = true) :
    Yields script library env p
      { run with tree := run.tree.markError id, notices := run.notices ++ [n] } ids last later :=
  h.next (.fault _ id [n] (List.mem_append_left _ (List.mem_append_left _
    (List.mem_append_left _ hid))) (by simp) (by simpa using hn)) rfl rfl rfl

/-- The scopes know one more local variable, or none. -/
theorem names (h : Yields script library env p run ids last later) {scopes : ScopeStack}
    (hk : env.Known library run.tree scopes)
    (ho : scopes.frames.map (·.scopeId) = run.scopes.frames.map (·.scopeId)) :
    Yields script library env p { run with scopes } ids last later where
  acts := h.acts.tail (.names _ scopes)
  inBody := ⟨hk, h.inBody.labels, ho.trans h.inBody.opened⟩
  labels := h.labels
  lastScope := h.lastScope

/-- A new statement in the place of its parts. -/
theorem makeStmt (h : Yields script library env p run ids last later) (kind : StmtKind)
    (span : Span) (hc : ids.Perm kind.children) (hk : kind.isLabel = false)
    (hnew : kind.outline = kind) (hf : run.tree.FormedStmt script kind)
    (hj : Progress.MayLead { p with run, loose := kind.children ++ p.loose } (.stmt { kind })) :
    Yields script library env p
      { run with tree := ((run.tree.alloc (.stmt { kind }) span).1.noteUse run.tree.size
          (.stmt { kind })) }
      [run.tree.size] last later := by
  have hshuffle := h.next (.shuffle _ (kind.children ++ p.loose) (hc.append_right _)) rfl rfl rfl
  refine hshuffle.next (.makeSound _ (.stmt { kind }) p.loose span rfl ?_ hf hj
    (by simp [NodeKind.sort]) (by simp [NodeKind.sort])) rfl rfl rfl
  simp only [NodeKind.outline, StmtNode.outline, hnew, hk, Bool.false_eq_true, ↓reduceIte]

end Yields

/-- Statements of these kinds neither return nor jump. -/
def StmtKind.isPassing : StmtKind → Bool
  | ret _ | jump .. | block _ | branch .. => false
  | _ => true

attribute [local simp] StmtKind.isPassing

theorem facts_passing {t : Tree} {id : Nat} {s : StmtNode} (index : Nat) (hs : t.stmt? id = some s)
    (hk : s.kind.isPassing = true) : t.facts id index = {} := by
  rcases s with ⟨kind, info⟩
  cases kind <;> simp at hk <;> simp [Tree.facts, hs]

theorem StmtNode.isPassing_of_outline {s s' : StmtNode} (h : s'.outline = s.outline) :
    s'.kind.isPassing = s.kind.isPassing := by
  rcases s with ⟨kind, info⟩
  rcases s' with ⟨kind', info'⟩
  cases kind <;> cases kind' <;>
    simp_all [StmtNode.outline, StmtKind.outline]

theorem stmt?_alloc {t : Tree} (s : StmtNode) (span : Span) :
    (t.alloc (.stmt s) span).1.stmt? t.size = some s :=
  Tree.stmt?_eq_some.mpr (Tree.kind?_alloc_self _ span)

/-- A new statement that neither returns nor jumps, with whatever is reported on
it afterwards. -/
theorem resolved_passing {kind : StmtKind} {span : Span} {id scope index : Nat}
    (h : Yields script library env p run' [id] last later)
    (hs : (run.tree.alloc (.stmt { kind }) span).1.Grows (fun _ => True) run'.tree)
    (hid : id = run.tree.size) (hk : kind.isLabel = false) (hpass : kind.isPassing = true) :
    Resolved script library env p run' id {} scope index last later := by
  subst hid
  obtain ⟨s', hs', ho, -⟩ := hs.stmt? (stmt?_alloc { kind } span)
  refine .loose s' h hs' ?_ ?_
  · rw [StmtNode.isLabel_of_outline ho]
    exact hk
  · rw [facts_passing index hs']
    rw [StmtNode.isPassing_of_outline ho]
    exact hpass

/-- A plain statement made of expressions. -/
theorem allocStmt_resolved (h : Yields script library env p run ids last later) (kind : StmtKind)
    (span : Span) {scope index : Nat} (hc : ids.Perm kind.children) (hk : kind.isLabel = false)
    (hnew : kind.outline = kind) (hf : run.tree.FormedStmt script kind)
    (hpass : kind.isPassing = true) :
    Resolved script library env p (Check.allocStmt kind span run).2
      (Check.allocStmt kind span run).1 {} scope index last later := by
  have hu : ∀ t id, Tree.noteUse t id (.stmt { kind }) = t := by
    intro t id
    cases kind <;> simp at hpass <;> rfl
  have hmake := h.makeStmt kind span hc hk hnew hf fun _ _ _ _ he => by
    cases kind <;> simp at hpass <;> simp at he
  rw [hu] at hmake
  exact resolved_passing hmake (.refl _ _) rfl hk hpass

/-- A declaration is refused with an error, or binds its name. -/
theorem declareLocal_cases (env : Env) (id : NodeId) (name : String) (span : Span) (run : Run) :
    (∃ kind, kind.OfExpr
        ∧ (env.library.hasConstant name = true ∨ ∃ d, run.scopes.define name id = .error d)
        ∧ (declareLocal env id name span run).2
          = { run with tree := run.tree.markError id, notices := run.notices ++ [.fault kind span] })
      ∨ ∃ scopes, env.library.hasConstant name = false ∧ run.scopes.define name id = .ok scopes
        ∧ ((declareLocal env id name span run).2 = { run with scopes }
          ∨ ∃ kind, (declareLocal env id name span run).2
            = { run with scopes, notices := run.notices ++ [.warning kind span] }) := by
  unfold declareLocal
  rw [Check.bind_run, Check.get_run]
  simp only
  by_cases hc : env.library.hasConstant name = true
  · simp only [if_pos hc]
    exact .inl ⟨_, ⟨by simp, by simp, rfl⟩, .inl hc, rfl⟩
  · simp only [if_neg hc]
    cases hd : run.scopes.define name id with
    | error previous => exact .inl ⟨_, ⟨by simp, by simp, rfl⟩, .inr ⟨previous, rfl⟩, rfl⟩
    | ok scopes =>
      refine .inr ⟨scopes, Bool.eq_false_iff.mpr hc, rfl, ?_⟩
      simp only
      by_cases hp : (env.param? name).isSome = true
      · simp only [if_pos hp]
        exact .inr ⟨_, rfl⟩
      · simp only [if_neg hp]
        by_cases hg : (env.globals.lookup name).isSome = true
        · simp only [if_pos hg]
          exact .inr ⟨_, rfl⟩
        · simp only [if_neg hg]
          exact .inl rfl

/-- Declaring a name adds it to the innermost scope. -/
theorem ScopeStack.define_ok {scopes scopes' : ScopeStack} {name : String} {id : NodeId}
    (h : scopes.define name id = .ok scopes') :
    scopes'.frames.map (·.scopeId) = scopes.frames.map (·.scopeId)
      ∧ ∀ f ∈ scopes'.frames, ∀ x ∈ f.locals,
        (∃ g ∈ scopes.frames, x ∈ g.locals) ∨ x.2 = id := by
  unfold ScopeStack.define at h
  split at h
  · obtain rfl := Except.ok.inj h
    exact ⟨rfl, fun f hf x hx => .inl ⟨f, hf, hx⟩⟩
  · rename_i f rest hframes
    split at h
    · simp at h
    · obtain rfl := Except.ok.inj h
      refine ⟨by simp [hframes], fun g hg x hx => ?_⟩
      rcases List.mem_cons.mp hg with rfl | hg
      · rcases List.mem_append.mp hx with hx | hx
        · exact .inl ⟨f, by simp [hframes], hx⟩
        · exact .inr (by rw [List.mem_singleton.mp hx])
      · exact .inl ⟨g, by simp [hframes, hg], hx⟩

theorem declareLocal_yields {id : NodeId} (h : Yields script library env p run [id] last later)
    (hs : run.tree.sort? id = some .stmt) (hv : ∃ v, run.tree.var? id = some v) (name : String)
    (span : Span) :
    Yields script library env p (declareLocal env id name span run).2 [id] last later
      ∧ run.tree.Grows (fun _ => True) (declareLocal env id name span run).2.tree := by
  rcases declareLocal_cases env id name span run with
    ⟨kind, hkind, -, hr⟩ | ⟨scopes, -, hd, hr⟩
  · rw [hr]
    exact ⟨h.fault List.mem_cons_self _ (marks_fault span hkind.1), Tree.grows_markError⟩
  · obtain ⟨hids, hlocals⟩ := ScopeStack.define_ok hd
    have hk : env.Known library run.tree scopes := by
      have hk := h.inBody.known
      refine ⟨hk.library, hk.functions, hk.globals, hk.params, hk.labels, fun f hf x hx => ?_⟩
      rcases hlocals f hf x hx with ⟨g, hg, hx⟩ | hx
      · exact hk.locals g hg x hx
      · rw [hx]
        exact ⟨hs, hv⟩
    have hn := h.names hk hids
    rcases hr with hr | ⟨kind, hr⟩
    · rw [hr]
      exact ⟨hn, .refl _ _⟩
    · rw [hr]
      exact ⟨hn.say rfl, .refl _ _⟩

theorem checkInitializer_yields {id : NodeId} (h : Yields script library env p run [id] last later)
    (name : String) (ty : Ty) (init : NodeId) :
    Yields script library env p (checkInitializer id name ty init run).2 [id] last later
      ∧ run.tree.Grows (fun _ => True) (checkInitializer id name ty init run).2.tree := by
  have hrun : checkInitializer id name ty init run
      = if !run.tree.untyped init && !assignable ty (run.tree.exprType init) then
          Check.faultAt id (.initializerMismatch name ty (run.tree.exprType init))
            (run.tree.span init) run
        else ((), run) := Check.ite_run _ _ _ run
  rw [hrun]
  split
  · exact ⟨h.fault List.mem_cons_self _ rfl, Tree.grows_markError⟩
  · exact ⟨h, .refl _ _⟩

theorem resolveDeclaration_resolved (h : env.Ready library p (last, []) later)
    (hlast : p.run.lastScope = last) {decl : VarDecl} (hd : decl ∈ script.locals)
    (scopeId : Nat) (singleStatement : Bool) (span : Span) {scope index : Nat} :
    let r := resolveDeclaration env scopeId singleStatement decl span p.run
    Resolved script library env p r.2 r.1 {} scope index last later := by
  have hinit : PushesTerms script library p _ _ := resolveOption_pushes h.known decl.init
  obtain ⟨⟨init, run⟩, hr⟩ : ∃ r, resolveOption env decl.init p.run = r := ⟨_, rfl⟩
  rw [hr] at hinit
  let kind : StmtKind := .declare
    { name := decl.name, ty := decl.ty, scope := .inner, init, declaredIn := scopeId }
  have hmade : Yields script library env p
      { run with tree := (run.tree.alloc (.stmt { kind }) span).1 } [run.tree.size] last later :=
    (h.yields hinit.pushes hlast).makeStmt kind span (.refl _) rfl rfl
      ⟨⟨decl, hd, rfl⟩, fun c hc => hinit.terms c (by simpa using hc)⟩
      (fun _ _ _ _ he => by simp [kind] at he)
  have hkind := Tree.kind?_alloc_self (t := run.tree) (.stmt { kind }) span
  have hsort := Tree.sort?_of_kind? hkind
  have hvar : ∃ v, (run.tree.alloc (.stmt { kind }) span).1.var? run.tree.size = some v :=
    ⟨_, by simp [Tree.var?, hkind, NodeKind.var?, kind]; rfl⟩
  -- what is reported on the declaration leaves it loose
  let run₁ : Run := ((if singleStatement then
    Check.faultAt run.tree.size (.declarationWithoutBraces decl.name) span else pure () :
      Check Unit) { run with tree := (run.tree.alloc (.stmt { kind }) span).1 }).2
  have h₁ : Yields script library env p run₁ [run.tree.size] last later
      ∧ (run.tree.alloc (.stmt { kind }) span).1.Grows (fun _ => True) run₁.tree := by
    simp only [run₁]
    rw [Check.ite_run]
    split
    · exact ⟨hmade.fault List.mem_cons_self _ rfl, Tree.grows_markError⟩
    · exact ⟨hmade, .refl _ _⟩
  obtain ⟨v, hv⟩ := hvar
  obtain ⟨v', hv', -⟩ := h₁.2.var? hv
  have h₂ := declareLocal_yields h₁.1 (h₁.2.sort? hsort) ⟨v', hv'⟩ decl.name span
  obtain ⟨run₂, hrun₂⟩ : ∃ r, (declareLocal env run.tree.size decl.name span run₁).2 = r := ⟨_, rfl⟩
  rw [hrun₂] at h₂
  have h₃ : Yields script library env p
      (init.forM (checkInitializer run.tree.size decl.name decl.ty) run₂).2 [run.tree.size] last
        later
      ∧ run₂.tree.Grows (fun _ => True)
        (init.forM (checkInitializer run.tree.size decl.name decl.ty) run₂).2.tree := by
    cases init with
    | none => exact ⟨h₂.1, .refl _ _⟩
    | some init => exact checkInitializer_yields h₂.1 decl.name decl.ty init
  have hrun : resolveDeclaration env scopeId singleStatement decl span p.run
      = (run.tree.size, (init.forM (checkInitializer run.tree.size decl.name decl.ty) run₂).2) := by
    unfold resolveDeclaration
    rw [Check.bind_run, hr, ← hrun₂]
    cases singleStatement <;> rfl
  simp only [hrun]
  exact resolved_passing h₃.1 ((h₁.2.idem h₂.2).idem h₃.2) rfl rfl rfl

theorem returnFault?_ofExpr {t : Tree} {body : Body} {value : Option NodeId} {kind : Fault}
    (h : returnFault? t body value = some kind) : kind.OfExpr := by
  unfold returnFault? at h
  unfold Fault.OfExpr Fault.isLookup
  grind

theorem resolveReturn_run {value : Option Expr} {value' : Option NodeId} (span : Span)
    (h : resolveOption env value run = (value', run')) :
    let t := (run'.tree.alloc (.stmt { kind := .ret value' }) span).1
    resolveReturn env value span run = (run'.tree.size,
      ((env.body.bind (returnFault? t · value')).forM (fun kind =>
        Check.faultAt run'.tree.size kind span) { run' with tree := t }).2) := by
  unfold resolveReturn
  rw [Check.bind_run, h]
  rfl

theorem resolveReturn_resolved (h : env.Ready library p (last, []) later)
    (hlast : p.run.lastScope = last) (value : Option Expr) (span : Span) {scope index : Nat} :
    let r := resolveReturn env value span p.run
    Resolved script library env p r.2 r.1 { returns := true } scope index last later := by
  have hvalue : PushesTerms script library p _ _ := resolveOption_pushes h.known value
  obtain ⟨⟨value', run⟩, hr⟩ : ∃ r, resolveOption env value p.run = r := ⟨_, rfl⟩
  rw [hr] at hvalue
  let t := (run.tree.alloc (.stmt { kind := .ret value' }) span).1
  have hmade : Yields script library env p { run with tree := t } [run.tree.size] last later :=
    (h.yields hvalue.pushes hlast).makeStmt (.ret value') span (.refl _) rfl rfl
      (fun c hc => hvalue.terms c (by simpa using hc)) (fun _ _ _ _ he => by simp at he)
  obtain ⟨run', hrun, hy, hg⟩ : ∃ run', resolveReturn env value span p.run = (run.tree.size, run')
      ∧ Yields script library env p run' [run.tree.size] last later
      ∧ t.Grows (fun _ => True) run'.tree := by
    rw [resolveReturn_run span hr]
    rcases hf : env.body.bind (returnFault? t · value') with _ | kind
    · exact ⟨{ run with tree := t }, rfl, hmade, .refl _ _⟩
    · obtain ⟨b, -, hb⟩ := Option.bind_eq_some_iff.mp hf
      exact ⟨_, rfl, hmade.fault List.mem_cons_self (.fault kind span)
        (marks_fault span (returnFault?_ofExpr hb).1), Tree.grows_markError⟩
  simp only [hrun]
  obtain ⟨s', hs', ho, -⟩ := hg.stmt? (stmt?_alloc { kind := .ret value' } span)
  rcases s' with ⟨kind', info'⟩
  obtain ⟨rfl⟩ : kind' = .ret value' := by
    cases kind' <;> simp_all [StmtNode.outline, StmtKind.outline]
  exact .loose _ hy hs' rfl (by simp [Tree.facts, hs'])

/-- The label that a jump leads to is one of the body, in an open scope. -/
theorem jumpTarget?_some {name : String} {target : NodeId} {info : StmtInfo}
    (hb : env.InBody library p) (h : jumpTarget? env p.run name = some (target, info)) :
    target ∈ p.labels ∧ info.scopeId ∈ p.openIds
      ∧ ∃ s, p.run.tree.stmt? target = some s ∧ s.info = info ∧ s.kind.isLabel = true := by
  unfold jumpTarget? at h
  obtain ⟨l, hl, h⟩ := Option.bind_eq_some_iff.mp h
  obtain ⟨s, hs, h⟩ := Option.bind_eq_some_iff.mp h
  split at h
  · rename_i hopen
    simp only [Option.some.injEq, Prod.mk.injEq] at h
    obtain ⟨rfl, rfl⟩ := h
    obtain ⟨b, hbody, hlook⟩ := Option.bind_eq_some_iff.mp hl
    have hmem := mem_of_lookup hlook
    obtain ⟨s', hs', hlabel⟩ := hb.known.labels b hbody _ hmem
    obtain rfl : s = s' := Option.some.inj (hs.symm.trans hs')
    refine ⟨hb.labels b hbody _ hmem, ?_, s, hs, rfl, hlabel⟩
    rw [← hb.opened]
    obtain ⟨f, hf, hid⟩ := List.any_eq_true.mp hopen
    exact List.mem_map.mpr ⟨f, hf, by simpa using hid⟩
  · simp at h

theorem resolveJump_nowhere {name : String} (index : Nat) (span : Span)
    (h : jumpTarget? env run name = none) :
    let t := (run.tree.alloc (.stmt { kind := .jump name none false }) span).1
    resolveJump env index name span run = ((run.tree.size, {}), { run with
      tree := t.markError run.tree.size
      notices := run.notices ++ [.fault (.jumpToUndefinedLabel name) span] }) := by
  unfold resolveJump
  rw [Check.bind_run, Check.get_run]
  simp only [h]
  rfl

theorem resolveJump_somewhere {name : String} {label : NodeId} {info : StmtInfo} (index : Nat)
    (span : Span) (h : jumpTarget? env run name = some (label, info)) :
    let t := (run.tree.alloc (.stmt { kind := .jump name (some label) false }) span).1
    let jump : ConstantJump := ⟨run.tree.size, index, label, info.scopeId, info.index⟩
    resolveJump env index name span run
      = ((run.tree.size, { constantJump := if info.dead.isDead then none else some jump }),
        { run with tree := addJump t label run.tree.size }) := by
  unfold resolveJump
  rw [Check.bind_run, Check.get_run]
  simp only [h]
  rfl

theorem resolveJump_resolved (h : env.Ready library p (last, []) later)
    (hlast : p.run.lastScope = last) (name : String) (span : Span) {scope index : Nat} :
    let r := resolveJump env index name span p.run
    Resolved script library env p r.2 r.1.1 r.1.2 scope index last later := by
  have hy : Yields script library env p p.run [] last later := h.yields (.refl p) hlast
  rcases ht : jumpTarget? env p.run name with _ | ⟨target, info⟩
  · -- nowhere to go
    let t := (p.run.tree.alloc (.stmt { kind := .jump name none false }) span).1
    have hrun : resolveJump env index name span p.run = ((p.run.tree.size, {}), { p.run with
        tree := t.markError p.run.tree.size
        notices := p.run.notices ++ [.fault (.jumpToUndefinedLabel name) span] }) :=
      resolveJump_nowhere index span ht
    have hmade := (hy.makeStmt (.jump name none false) span .nil rfl rfl (by simp [Tree.FormedStmt])
      (fun _ _ _ _ he => by simp at he)).fault List.mem_cons_self
        (.fault (.jumpToUndefinedLabel name) span) rfl
    have hs : (t.markError p.run.tree.size).stmt? p.run.tree.size
        = some { kind := .jump name none false } := by
      rw [Tree.stmt?_eq_some, Tree.kind?_markError]
      exact Tree.stmt?_eq_some.mp (stmt?_alloc _ span)
    simp only [hrun]
    exact .loose _ hmade hs rfl (by simp [Tree.facts, hs])
  · obtain ⟨hmem, hopen, s, hs, rfl, hlabel⟩ := jumpTarget?_some h.toInBody ht
    let t := (p.run.tree.alloc (.stmt { kind := .jump name (some target) false }) span).1
    let jump : ConstantJump := ⟨p.run.tree.size, index, target, s.info.scopeId, s.info.index⟩
    have hrun : resolveJump env index name span p.run
        = ((p.run.tree.size, { constantJump := if s.info.dead.isDead then none else some jump }),
          { p.run with tree := addJump t target p.run.tree.size }) :=
      resolveJump_somewhere index span ht
    have hmade := hy.makeStmt (.jump name (some target) false) span .nil rfl rfl
      (fun l hl => by
        obtain rfl := Option.some.inj hl
        exact ⟨s, hs, hlabel⟩)
      (fun _ _ _ _ he => by
        simp only [NodeKind.stmt.injEq, StmtNode.mk.injEq, StmtKind.jump.injEq,
          Option.some.injEq] at he
        obtain ⟨⟨-, rfl, -⟩, -⟩ := he
        exact ⟨hmem, s, hs, hopen⟩)
    have hne : target ≠ p.run.tree.size :=
      Nat.ne_of_lt (Tree.has_of_kind? (Tree.stmt?_eq_some.mp hs))
    have hself : (addJump t target p.run.tree.size).stmt? p.run.tree.size
        = some { kind := .jump name (some target) false } := by
      rw [Tree.stmt?_addJump, if_neg hne.symm]
      exact stmt?_alloc _ span
    have htarget : (addJump t target p.run.tree.size).stmt? target
        = some (s.withJump p.run.tree.size) := by
      have hold : t.stmt? target = some s := by
        rw [Tree.stmt?_eq_some, Tree.kind?_alloc, if_neg hne]
        exact Tree.stmt?_eq_some.mp hs
      rw [Tree.stmt?_addJump, if_pos rfl, hold]
      rfl
    simp only [hrun]
    refine .loose _ hmade hself rfl ?_
    have hinfo : (s.withJump p.run.tree.size).info = s.info := by
      unfold StmtNode.withJump
      split <;> rfl
    simp [Tree.facts, hself, htarget, hinfo, jump]

theorem takeLabel_run (name : String) (span : Span) (run : Run) :
    takeLabel name span run = (match run.labels with
      | [] => (throw (InternalError.labelOutOfSync span) : CheckBody NodeId)
      | first :: rest => (do
          set { run with labels := rest }
          match run.tree.stmt? first with
          | some ⟨.label found _, _⟩ =>
            if found = name then return first else throw (InternalError.labelOutOfSync span)
          | _ => throw (InternalError.labelOutOfSync span))) run := rfl

/-- The next label is taken if it has the name. -/
theorem takeLabel_next {first : NodeId} {rest : List NodeId} (name : String) (span : Span)
    (h : run.labels = first :: rest) :
    takeLabel name span run = (match run.tree.stmt? first with
      | some ⟨.label found _, _⟩ =>
        if found = name then (pure first : CheckBody NodeId)
        else throw (InternalError.labelOutOfSync span)
      | _ => throw (InternalError.labelOutOfSync span)) { run with labels := rest } := by
  rw [takeLabel_run, h]
  rfl

theorem takeLabel_ok {name : String} {span : Span} {id : NodeId}
    (h : takeLabel name span run = .ok (id, run')) :
    ∃ rest, run.labels = id :: rest ∧ run' = { run with labels := rest } := by
  cases hl : run.labels with
  | nil =>
    rw [takeLabel_run, hl] at h
    cases h
  | cons first rest =>
    rw [takeLabel_next name span hl] at h
    refine ⟨rest, ?_⟩
    rcases hs : run.tree.stmt? first with _ | ⟨kind, info⟩
    · rw [hs] at h
      cases h
    · rw [hs] at h
      cases kind with
      | label found jumps =>
        simp only [CheckBody.ite_run] at h
        split at h
        · obtain ⟨rfl, rfl⟩ := CheckBody.pure_ok h
          exact ⟨rfl, rfl⟩
        · cases h
      | _ => cases h

theorem takeLabel_resolved {name : String} {span : Span} {id scope index : Nat}
    (h : env.Ready library p (labelsOfPlain scope index last (.label name span)) later)
    (hlast : p.run.lastScope = last) (hrun : takeLabel name span p.run = .ok (id, run)) :
    Resolved script library env p run id {} scope index last later := by
  obtain ⟨rest, hl, rfl⟩ := takeLabel_ok hrun
  obtain ⟨next, hnext, hat⟩ := h.next
  obtain ⟨first, more, hfirst, hmore, rfl⟩ := List.forall₂_cons_right_iff.mp hat
  obtain rfl := List.forall₂_nil_right_iff.mp hmore
  obtain ⟨rfl, rfl⟩ : id = first ∧ rest = later := List.cons.inj (hl.symm.trans hnext)
  obtain ⟨s, hs, hk, hscope, hindex⟩ := hfirst
  exact .label s h.toInBody hl rfl hs hk hscope hindex rfl hlast

theorem resolveStateChange_resolved (h : env.Ready library p (last, []) later)
    (hlast : p.run.lastScope = last) (target : String) (span : Span) {scope index : Nat} :
    let r := resolveStateChange env target span p.run
    Resolved script library env p r.2 r.1 {} scope index last later := by
  have hy : Yields script library env p p.run [] last later := h.yields (.refl p) hlast
  let kind : StmtKind := .stateChange target (env.states.lookup target)
  have hmade := hy.makeStmt kind span .nil rfl rfl trivial fun _ _ _ _ he => by simp [kind] at he
  unfold resolveStateChange
  by_cases hs : (env.states.lookup target).isNone = true
  · simp only [hs, ↓reduceIte]
    exact resolved_passing (hmade.fault List.mem_cons_self
      (.fault (.stateChangeToUndefined target) span) rfl) Tree.grows_markError rfl rfl rfl
  · simp only [hs, Bool.false_eq_true, ↓reduceIte]
    exact resolved_passing hmade (.refl _ _) rfl rfl rfl

/-! ### Compound statements -/

theorem getScope_ok {id : NodeId} {c : CodeScope} (h : getScope id run = .ok (c, run')) :
    run.tree.scope? id = some c ∧ run = run' := CheckBody.expect_ok h

theorem mapM_getScope_ok {ids : List NodeId} {cs : List CodeScope}
    (h : ids.mapM getScope run = .ok (cs, run')) :
    ids.filterMap run.tree.scope? = cs ∧ run = run' := by
  induction ids generalizing cs run run' with
  | nil =>
    obtain ⟨rfl, rfl⟩ := CheckBody.pure_ok h
    exact ⟨rfl, rfl⟩
  | cons id rest ih =>
    rw [List.mapM_cons] at h
    obtain ⟨c, r, hc, h⟩ := CheckBody.bind_ok h
    obtain ⟨hscope, rfl⟩ := getScope_ok hc
    obtain ⟨cs', r, hcs, h⟩ := CheckBody.bind_ok h
    obtain ⟨hrest, rfl⟩ := ih hcs
    obtain ⟨rfl, rfl⟩ := CheckBody.pure_ok h
    exact ⟨by rw [List.filterMap_cons_some hscope, hrest], rfl⟩

theorem allocStmt_run (kind : StmtKind) (span : Span) (run : Run) :
    Check.allocStmt kind span run
      = (run.tree.size, { run with tree := (run.tree.alloc (.stmt { kind }) span).1 }) := rfl

theorem finishBlock_resolved {block : NodeId}
    (h : Yields script library env p run [block] last later)
    (hs : ∃ c, run.tree.scope? block = some c) {span : Span} {id scope index : Nat}
    {facts : Facts} (hrun : finishBlock index block span run = .ok ((id, facts), run')) :
    Resolved script library env p run' id facts scope index last later := by
  obtain ⟨c, hc⟩ := hs
  have hmade := h.makeStmt (.block block) span (.refl _) rfl rfl
    (Tree.sort?_of_kind? (Tree.scope?_eq_some.mp hc)) fun _ _ _ _ he => by simp at he
  unfold finishBlock at hrun
  rw [CheckBody.lift_bind, allocStmt_run] at hrun
  obtain ⟨c', r, hg, hp⟩ := CheckBody.bind_ok hrun
  obtain ⟨hc', rfl⟩ := getScope_ok hg
  obtain ⟨hpair, rfl⟩ := CheckBody.pure_ok hp
  obtain ⟨rfl, rfl⟩ := Prod.mk.inj hpair
  have hself := stmt?_alloc (t := run.tree) { kind := .block block } span
  exact .loose _ hmade hself rfl (by simp only [Tree.facts, hself, hc'])

/-- The conditions and bodies of further arms, in the order they are written. -/
abbrev armParts (elseIfs : List (NodeId × NodeId)) : List NodeId :=
  elseIfs.flatMap fun (c, b) => [c, b]

theorem finishBranch_resolved {cond thenScope : NodeId} {elseIfs : List (NodeId × NodeId)}
    {elseScope : Option NodeId}
    (h : Yields script library env p run
      (elseScope.toList ++ (armParts elseIfs).reverse ++ [thenScope] ++ [cond]) last later)
    (hf : run.tree.FormedStmt script (.branch cond thenScope elseIfs elseScope)) {span : Span}
    {id scope index : Nat} {facts : Facts}
    (hrun : finishBranch index cond thenScope elseIfs elseScope span run
      = .ok ((id, facts), run')) :
    Resolved script library env p run' id facts scope index last later := by
  have hperm : (elseScope.toList ++ (armParts elseIfs).reverse ++ [thenScope] ++ [cond]).Perm
      (StmtKind.branch cond thenScope elseIfs elseScope).children := by
    have hrev : elseScope.toList ++ (armParts elseIfs).reverse ++ [thenScope] ++ [cond]
        = (StmtKind.branch cond thenScope elseIfs elseScope).children.reverse := by
      cases elseScope <;> simp [StmtKind.children]
    rw [hrev]
    exact List.reverse_perm _
  have hmade := h.makeStmt (.branch cond thenScope elseIfs elseScope) span hperm rfl rfl hf
    fun _ _ _ _ he => by simp at he
  have hself := stmt?_alloc (t := run.tree)
    { kind := .branch cond thenScope elseIfs elseScope } span
  unfold finishBranch at hrun
  rw [CheckBody.lift_bind, allocStmt_run] at hrun
  cases elseScope with
  | none =>
    obtain ⟨hpair, rfl⟩ := CheckBody.pure_ok hrun
    obtain ⟨rfl, rfl⟩ := Prod.mk.inj hpair
    exact .loose _ hmade hself rfl (by simp only [Tree.facts, hself])
  | some elseScope =>
    obtain ⟨first, r, hget, hrun⟩ := CheckBody.bind_ok hrun
    obtain ⟨hfirst, rfl⟩ := getScope_ok hget
    obtain ⟨others, r, hgets, hrun⟩ := CheckBody.bind_ok hrun
    obtain ⟨hothers, rfl⟩ := mapM_getScope_ok hgets
    obtain ⟨hpair, rfl⟩ := CheckBody.pure_ok hrun
    obtain ⟨rfl, rfl⟩ := Prod.mk.inj hpair
    refine .loose _ hmade hself rfl ?_
    change _ = Tree.facts (run.tree.alloc _ span).1 run.tree.size index
    simp only at hfirst hothers
    simp only [Tree.facts, hself, hfirst, hothers]

/-! ### Statements -/

/-- Nothing appended. -/
theorem Filled.refl {tr : Tracker} {aside : List NodeId} {outer : List Level}
    (h : env.Ready library p (last, []) later) (hlast : p.run.lastScope = last)
    (hl : p.loose = []) (hst : p.stack = ⟨tr, aside⟩ :: outer) (hseg : tr.Segmented) :
    Filled script library env p p.run tr last later where
  fills := ⟨tr, aside, outer, hl, hst, rfl, hseg, by rw [← hst]⟩
  known := h.known
  opened := h.opened
  names := h.labels
  labels := by
    obtain ⟨next, hl, hat⟩ := h.next
    obtain rfl := List.forall₂_nil_right_iff.mp hat
    exact hl
  lastScope := hlast

/-- What is known after a statement was appended. -/
theorem Filled.inBody {tr tr' : Tracker} {aside : List NodeId} {outer : List Level}
    (h : Filled script library env p run tr' last later) (hst : p.stack = ⟨tr, aside⟩ :: outer) :
    env.InBody library { p with run, stack := ⟨tr', aside⟩ :: outer } where
  known := h.known
  labels := h.names
  opened := by
    obtain ⟨tr₀, aside₀, outer₀, -, hst₀, hid, -⟩ := h.fills
    obtain ⟨⟨rfl, rfl⟩, rfl⟩ : (⟨tr, aside⟩ : Level) = ⟨tr₀, aside₀⟩ ∧ outer = outer₀ :=
      List.cons.inj (hst.symm.trans hst₀)
    rw [h.opened]
    simp only [Progress.openIds, hst, List.map_cons, hid]

theorem Filled.trans {tr tr₁ tr₂ : Tracker} {aside : List NodeId} {outer : List Level}
    {last' : Nat} {later' : List NodeId} (hst : p.stack = ⟨tr, aside⟩ :: outer)
    (h : Filled script library env p run tr₁ last later)
    (g : Filled script library env { p with run, stack := ⟨tr₁, aside⟩ :: outer } run' tr₂ last'
      later') :
    Filled script library env p run' tr₂ last' later' := by
  obtain ⟨tr₀, aside₀, outer₀, hl, hst₀, hid, -, hacts⟩ := h.fills
  obtain ⟨⟨rfl, rfl⟩, rfl⟩ : (⟨tr, aside⟩ : Level) = ⟨tr₀, aside₀⟩ ∧ outer = outer₀ :=
    List.cons.inj (hst.symm.trans hst₀)
  obtain ⟨tr₃, aside₁, outer₁, -, hst₁, hid₁, hseg, gacts⟩ := g.fills
  obtain ⟨⟨rfl, rfl⟩, rfl⟩ : (⟨tr₁, aside⟩ : Level) = ⟨tr₃, aside₁⟩ ∧ outer = outer₁ :=
    List.cons.inj hst₁
  refine ⟨⟨tr, aside, outer, hl, hst, hid₁.trans hid, hseg, hacts.trans gacts⟩, g.known, ?_,
    g.names, g.labels, g.lastScope⟩
  rw [g.opened]
  simp only [Progress.openIds, hst, List.map_cons, hid]

/-- Expressions first. -/
theorem Pushes.yields (hp : Pushes script library p run ids)
    (h : Yields script library env { p with run, loose := ids ++ p.loose } run' ids' last later) :
    Yields script library env p run' (ids' ++ ids) last later where
  acts := by
    rw [List.append_assoc]
    exact hp.acts.trans h.acts
  inBody := by
    rw [List.append_assoc]
    exact h.inBody
  labels := h.labels
  lastScope := h.lastScope

/-- A loop, which has no say in the flow behind it. -/
theorem loop_resolved (h : Yields script library env p run ids last later) (kind : StmtKind)
    (span : Span)
    {id scope index : Nat} {facts : Facts} (hc : ids.Perm kind.children)
    (hk : kind.isLabel = false) (hnew : kind.outline = kind)
    (hf : run.tree.FormedStmt script kind)
    (hpass : kind.isPassing = true)
    (hrun : ((liftM (Check.allocStmt kind span) : CheckBody NodeId) >>= fun id =>
      (pure (id, ({} : Facts)) : CheckBody (NodeId × Facts))) run = .ok ((id, facts), run')) :
    Resolved script library env p run' id facts scope index last later := by
  rw [CheckBody.lift_bind] at hrun
  obtain ⟨hpair, rfl⟩ := CheckBody.pure_ok hrun
  obtain ⟨rfl, rfl⟩ := Prod.mk.inj hpair
  exact allocStmt_resolved h kind span hc hk hnew hf hpass

/-- The condition of a loop that may have none, and what comes after it. -/
theorem loopCondition_pushes {β : Type} {f : Option NodeId → CheckBody β} {b : β}
    (hk : env.Known library p.run.tree p.run.scopes) (cond : Option Expr)
    (hrun : (match cond with
      | none => (pure none : CheckBody (Option NodeId)) >>= f
      | some cond => (some <$> (liftM (resolveCondition env cond) : CheckBody NodeId)) >>= f) p.run
        = .ok (b, run')) :
    ∃ cond' run, PushesTerms script library p run cond'.toList ∧ f cond' run = .ok (b, run') := by
  cases cond with
  | none => exact ⟨none, p.run, .refl p, hrun⟩
  | some cond =>
    have hc : PushesTerm script library p _ := resolveCondition_pushes hk cond
    exact ⟨some (resolveCondition env cond p.run).1, _, (PushesTerms.refl p).snoc hc, hrun⟩

/-! ### Statement by statement

What resolving each form of syntax comes to, given what it comes to for its
parts. The labels found beforehand are split along the syntax. -/

section

variable (script : Script) (library : Catalog) (env : Env)

/-- Resolving the statements fills the innermost scope with them. -/
def FillsStmts (stmts : List Stmt) : Prop :=
  ∀ (p : Progress) (tr tr' : Tracker) (aside : List NodeId) (outer : List Level) (run : Run)
    (last : Nat) (later : List NodeId),
    env.Ready library p (labelsOfStmts tr.scopeId tr.nextIndex last stmts) later →
    p.run.lastScope = last → tr.scopeId ≤ last → p.loose = [] → p.stack = ⟨tr, aside⟩ :: outer →
    tr.Segmented → resolveStmts env stmts tr p.run = .ok (tr', run) →
    Filled script library env p run tr' (labelsOfStmts tr.scopeId tr.nextIndex last stmts).1 later

/-- What `resolve` gives at place `index` of scope `scope` can be appended there. -/
def ResolvesTo (found : Nat → Nat → Nat → Nat × List LabelSite)
    (resolve : Nat → Nat → CheckBody (NodeId × Facts)) : Prop :=
  ∀ (p : Progress) (run : Run) (scope index last : Nat) (later : List NodeId) (id : NodeId)
    (facts : Facts),
    env.Ready library p (found scope index last) later → p.run.lastScope = last → scope ≤ last →
    resolve scope index p.run = .ok ((id, facts), run) →
    Resolved script library env p run id facts scope index (found scope index last).1 later

/-- What `resolve` gives is a scope of the kind. -/
def YieldsScope (kind : ScopeKind) (found : Nat → Nat × List LabelSite)
    (resolve : CheckBody NodeId) : Prop :=
  ∀ (p : Progress) (run : Run) (last : Nat) (later : List NodeId) (id : NodeId),
    env.Ready library p (found last) later → p.run.lastScope = last →
    resolve p.run = .ok (id, run) →
    Yields script library env p run [id] (found last).1 later
      ∧ ∃ c, run.tree.scope? id = some c ∧ c.kind = kind

def YieldsElseIfs (elseIfs : List ElseIf) : Prop :=
  ∀ (p : Progress) (run : Run) (last : Nat) (later : List NodeId) (arms : List (NodeId × NodeId)),
    env.Ready library p (labelsOfElseIfs last elseIfs) later → p.run.lastScope = last →
    resolveElseIfs env elseIfs p.run = .ok (arms, run) →
    Yields script library env p run (armParts arms).reverse (labelsOfElseIfs last elseIfs).1 later
      ∧ ∀ arm ∈ arms, run.tree.IsTerm arm.1 ∧ run.tree.sort? arm.2 = some .scope

def YieldsElse (body : Option Stmt) : Prop :=
  ∀ (p : Progress) (run : Run) (last : Nat) (later : List NodeId) (arm : Option NodeId),
    env.Ready library p (labelsOfElse last body) later → p.run.lastScope = last →
    resolveElse env body p.run = .ok (arm, run) →
    Yields script library env p run arm.toList (labelsOfElse last body).1 later
      ∧ ∀ s ∈ arm, run.tree.sort? s = some .scope

abbrev ResolvesStmt (s : Stmt) : Prop :=
  ResolvesTo script library env (fun scope index last => labelsOfStmt scope index last s)
    fun scope index => resolveStmt env scope index s

abbrev ResolvesPlain (stmt : PlainStmt) : Prop :=
  ∀ singleStatement, ResolvesTo script library env
    (fun scope index last => labelsOfPlain scope index last stmt)
    fun scope index => resolvePlain env scope index singleStatement stmt

abbrev YieldsBody (body : Stmt) : Prop :=
  ∀ kind, YieldsScope script library env kind (fun last => labelsOfBody last body)
    (resolveBody env kind body)

end

/-- One statement, and then the others. -/
theorem fillsStmts_cons {s : Stmt} {rest : List Stmt} (hs : ResolvesStmt script library env s)
    (hrest : FillsStmts script library env rest) :
    FillsStmts script library env (s :: rest) := by
  intro p tr tr' aside outer run last later h hlast hscope hl hst hseg hrun
  subst hlast
  have hle := (labelsOfStmt_within tr.scopeId tr.nextIndex p.run.lastScope s).le
  obtain ⟨middle, hfirst, hnext⟩ := h.split hle (labelsOfStmts_within tr.scopeId _ _ rest) hscope
  unfold resolveStmts at hrun
  obtain ⟨⟨id, facts⟩, run₁, hstmt, hrun⟩ := CheckBody.bind_ok hrun
  obtain ⟨tr₁, run₂, happend, hrun⟩ := CheckBody.bind_ok hrun
  have hres := hs p run₁ tr.scopeId tr.nextIndex _ middle id facts hfirst rfl hscope hstmt
  obtain ⟨hfilled, hindex⟩ := hres.append hl hst hseg happend
  obtain ⟨tr₀, aside₀, outer₀, -, hst₀, hid, hseg₁, hacts⟩ := hfilled.fills
  obtain ⟨⟨rfl, rfl⟩, rfl⟩ : (⟨tr, aside⟩ : Level) = ⟨tr₀, aside₀⟩ ∧ outer = outer₀ :=
    List.cons.inj (hst.symm.trans hst₀)
  have hready := hnext { p with run := run₂, stack := ⟨tr₁, aside⟩ :: outer } hacts.grows
    (hfilled.inBody hst) hfilled.labels hfilled.lastScope
  obtain ⟨last₁, hlast₁⟩ :
      ∃ n, (labelsOfStmt tr.scopeId tr.nextIndex p.run.lastScope s).1 = n := ⟨_, rfl⟩
  have hlabels : (labelsOfStmts tr.scopeId tr.nextIndex p.run.lastScope (s :: rest)).1
      = (labelsOfStmts tr.scopeId (tr.nextIndex + 1) last₁ rest).1 := by
    rw [← hlast₁]
    rfl
  rw [hlast₁] at hready hle hfilled
  rw [hlabels]
  rw [← hid, ← hindex] at hready ⊢
  exact hfilled.trans hst (hrest _ tr₁ tr' aside outer run last₁ later hready hfilled.lastScope
    (by rw [hid]; exact Nat.le_trans hscope hle) hl rfl hseg₁ hrun)

/-- Statements in braces. -/
theorem yieldsScope_braced {stmts : List Stmt} (hs : FillsStmts script library env stmts)
    (kind : ScopeKind) (span : Span) :
    YieldsScope script library env kind (fun last => labelsOfStmts (last + 1) 0 (last + 1) stmts)
      (inScope env kind false span (resolveStmts env stmts)) := by
  intro p run last later id h hlast hrun
  subst hlast
  refine inScope_yields h (labelsOfStmts_within _ _ _ stmts).le (fun tr' run' hfill => ?_) hrun
  exact hs _ _ tr' _ _ run' _ later (h.openScope false) rfl (Nat.le_refl _) rfl rfl
    (Tracker.Segmented.empty _ _) hfill

theorem resolvesStmt_block {stmts : List Stmt} {inner span : Span}
    (hs : FillsStmts script library env stmts) :
    ResolvesStmt script library env (.block (.mk stmts inner) span) := by
  intro p run scope index last later id facts h hlast _ hrun
  simp only [resolveStmt] at hrun
  obtain ⟨block, run₁, hin, hrun⟩ := CheckBody.bind_ok hrun
  obtain ⟨hyield, c, hscope, -⟩ := yieldsScope_braced hs _ _ p run₁ last later block h hlast hin
  exact finishBlock_resolved hyield ⟨c, hscope⟩ hrun

/-- One statement without braces. -/
theorem yieldsBody_plain {stmt : PlainStmt} (hs : ResolvesPlain script library env stmt) :
    YieldsBody script library env (.plain stmt) := by
  intro kind p run last later id h hlast hrun
  subst hlast
  unfold resolveBody at hrun
  refine inScope_yields h (labelsOfPlain_within _ _ _ stmt).le (fun tr' run' hfill => ?_) hrun
  obtain ⟨⟨stmtId, facts⟩, run₁, hstmt, happend⟩ := CheckBody.bind_ok hfill
  have hres := hs true _ run₁ _ 0 _ later stmtId facts (h.openScope true) rfl (Nat.le_refl _) hstmt
  exact (hres.append rfl rfl (Tracker.Segmented.empty _ _) happend).1

attribute [local simp] resolvePlain

theorem resolvesPlain_empty (span : Span) : ResolvesPlain script library env (.empty span) := by
  intro single p run scope index last later id facts h hlast _ hrun
  have hwarn : Pushes script library p
      ((if !single then Check.warn .uselessSemicolon span else pure () : Check Unit) p.run).2
      [] := by
    rw [Check.ite_run]
    split
    · exact (Pushes.refl p).say rfl
    · exact .refl p
  have hr : Resolved script library env p _ _ _ scope index last later :=
    allocStmt_resolved (h.yields hwarn hlast) .empty span .nil rfl rfl trivial rfl
  cases single <;> cases hrun <;> exact hr

theorem resolvesPlain_expr (e : Expr) (span : Span) :
    ResolvesPlain script library env (.expr e span) := by
  intro single p run scope index last later id facts h hlast _ hrun
  have hvalue : PushesTerm script library p _ := resolveExpr_pushes env e p h.known
  obtain ⟨⟨value, run₁⟩, hr⟩ : ∃ r, resolveExpr env e p.run = r := ⟨_, rfl⟩
  rw [hr] at hvalue
  simp only [resolvePlain] at hrun
  rw [CheckBody.lift_bind, hr] at hrun
  by_cases heffect : e.hasEffect = true
  · simp only [heffect, Bool.not_true, Bool.false_eq_true, ↓reduceIte] at hrun
    cases hrun
    exact allocStmt_resolved (h.yields hvalue.pushes hlast) (.expr value) span (.refl _) rfl rfl
      hvalue.term rfl
  · simp only [heffect, Bool.not_false, ↓reduceIte] at hrun
    cases hrun
    exact allocStmt_resolved (h.yields (hvalue.pushes.say rfl) hlast) (.expr value) span (.refl _)
      rfl rfl hvalue.term rfl

theorem resolvesPlain_declare {decl : VarDecl} (hd : decl ∈ script.locals) (span : Span) :
    ResolvesPlain script library env (.declare decl span) := by
  intro single p run scope index last later id facts h hlast _ hrun
  cases hrun
  exact resolveDeclaration_resolved h hlast hd scope single span

theorem resolvesPlain_ret (value : Option Expr) (span : Span) :
    ResolvesPlain script library env (.ret value span) := by
  intro single p run scope index last later id facts h hlast _ hrun
  cases hrun
  exact resolveReturn_resolved h hlast value span

theorem resolvesPlain_jump (name : String) (span : Span) :
    ResolvesPlain script library env (.jump name span) := by
  intro single p run scope index last later id facts h hlast _ hrun
  have hr : let r := resolveJump env index name span p.run
      Resolved script library env p r.2 r.1.1 r.1.2 scope index last later :=
    resolveJump_resolved h hlast name span
  rw [show resolveJump env index name span p.run = ((id, facts), run) from Except.ok.inj hrun]
    at hr
  exact hr

theorem resolvesPlain_label (name : String) (span : Span) :
    ResolvesPlain script library env (.label name span) := by
  intro single p run scope index last later id facts h hlast _ hrun
  simp only [resolvePlain] at hrun
  obtain ⟨label, run₁, hlabel, hrun⟩ := CheckBody.bind_ok hrun
  obtain ⟨hpair, rfl⟩ := CheckBody.pure_ok hrun
  obtain ⟨rfl, rfl⟩ := Prod.mk.inj hpair
  exact takeLabel_resolved h hlast hlabel

theorem resolvesPlain_stateChange (target : String) (span : Span) :
    ResolvesPlain script library env (.stateChange target span) := by
  intro single p run scope index last later id facts h hlast _ hrun
  cases hrun
  exact resolveStateChange_resolved h hlast target span

theorem resolvesPlain_branch {cond : Expr} {thenBranch : Stmt} {elseIfs : List ElseIf}
    {elseBranch : Option Stmt} {span : Span} (hthen : YieldsBody script library env thenBranch)
    (helseIfs : YieldsElseIfs script library env elseIfs)
    (helse : YieldsElse script library env elseBranch) :
    ResolvesPlain script library env (.branch cond thenBranch elseIfs elseBranch span) := by
  intro single p run scope index last later id facts h hlast _ hrun
  simp only [resolvePlain] at hrun
  have hcond : PushesTerm script library p _ := resolveCondition_pushes h.known cond
  rw [CheckBody.lift_bind] at hrun
  obtain ⟨⟨c, run₀⟩, hc⟩ : ∃ r, resolveCondition env cond p.run = r := ⟨_, rfl⟩
  rw [hc] at hcond hrun
  have hlast₀ : run₀.lastScope = last := hcond.pushes.lastScope.trans hlast
  -- the labels of the `else` come last, those of the first arm first
  have hbody := labelsOfBody_within 0 last thenBranch
  have harms := hbody.append (labelsOfElseIfs_within 0 _ elseIfs)
  obtain ⟨later₂, hready, hready₃⟩ := (h.push hcond.pushes).split
    (Nat.le_trans (Nat.le_of_eq hlast₀) harms.le) (labelsOfElse_within 0 _ elseBranch)
    (Nat.zero_le _)
  obtain ⟨later₁, hready₁, hready₂⟩ := hready.split
    (Nat.le_trans (Nat.le_of_eq hlast₀) hbody.le) (labelsOfElseIfs_within 0 _ elseIfs)
    (Nat.zero_le _)
  obtain ⟨thenScope, run₁, h₁, hrun⟩ := CheckBody.bind_ok hrun
  obtain ⟨hy₁, c₁, hc₁, -⟩ := hthen _ _ run₁ last later₁ thenScope hready₁ hlast₀ h₁
  obtain ⟨arms, run₂, h₂, hrun⟩ := CheckBody.bind_ok hrun
  obtain ⟨hy₂, hs₂⟩ := helseIfs _ run₂ _ later₂ arms
    (hready₂ { p with run := run₁, loose := [thenScope] ++ ([c] ++ p.loose) } hy₁.grows
      hy₁.inBody hy₁.labels hy₁.lastScope) hy₁.lastScope h₂
  obtain ⟨elseScope, run₃, h₃, hrun⟩ := CheckBody.bind_ok hrun
  obtain ⟨hy₃, hs₃⟩ := helse _ run₃ _ later elseScope
    (hready₃ { p with
      run := run₂, loose := (armParts arms).reverse ++ ([thenScope] ++ ([c] ++ p.loose)) }
      (hy₁.grows.idem hy₂.grows) hy₂.inBody hy₂.labels hy₂.lastScope) hy₂.lastScope h₃
  refine finishBranch_resolved (hcond.pushes.yields (hy₁.trans (hy₂.trans hy₃))) ?_ hrun
  have hg := hy₂.grows.idem hy₃.grows
  refine ⟨hg.isTerm (hy₁.grows.isTerm hcond.term),
    hg.sort? (Tree.sort?_of_kind? (Tree.scope?_eq_some.mp hc₁)), fun arm harm => ?_, hs₃⟩
  exact ⟨hy₃.grows.isTerm (hs₂ arm harm).1, hy₃.grows.sort? (hs₂ arm harm).2⟩

theorem resolvesPlain_whileLoop {cond : Expr} {body : Stmt} {span : Span}
    (hbody : YieldsBody script library env body) :
    ResolvesPlain script library env (.whileLoop cond body span) := by
  intro single p run scope index last later id facts h hlast _ hrun
  simp only [resolvePlain] at hrun
  have hcond : PushesTerm script library p _ := resolveCondition_pushes h.known cond
  rw [CheckBody.lift_bind] at hrun
  obtain ⟨⟨c, run₀⟩, hc⟩ : ∃ r, resolveCondition env cond p.run = r := ⟨_, rfl⟩
  rw [hc] at hcond hrun
  obtain ⟨bodyScope, run₁, h₁, hrun⟩ := CheckBody.bind_ok hrun
  obtain ⟨hy, s, hs, hk⟩ := hbody _ _ run₁ last later bodyScope (h.push hcond.pushes)
    (hcond.pushes.lastScope.trans hlast) h₁
  exact loop_resolved (hcond.pushes.yields hy) (.whileLoop c bodyScope) span (.swap ..) rfl rfl
    ⟨hy.grows.isTerm hcond.term, s, hs, congrArg _ hk⟩ rfl hrun

theorem resolvesPlain_doWhile {cond : Expr} {body : Stmt} {span : Span}
    (hbody : YieldsBody script library env body) :
    ResolvesPlain script library env (.doWhile body cond span) := by
  intro single p run scope index last later id facts h hlast _ hrun
  simp only [resolvePlain] at hrun
  obtain ⟨bodyScope, run₀, h₀, hrun⟩ := CheckBody.bind_ok hrun
  obtain ⟨hy, s, hs, hk⟩ := hbody _ p run₀ last later bodyScope h hlast h₀
  have hcond : PushesTerm script library _ _ := resolveCondition_pushes hy.inBody.known cond
  rw [CheckBody.lift_bind] at hrun
  obtain ⟨⟨c, run₁⟩, hc⟩ : ∃ r, resolveCondition env cond run₀ = r := ⟨_, rfl⟩
  rw [hc] at hcond hrun
  exact loop_resolved (hy.push hcond.pushes) (.doWhile bodyScope c) span (.swap ..) rfl rfl
    ⟨hcond.term, s, hcond.pushes.grows.scope? hs, congrArg _ hk⟩ rfl hrun

theorem resolvesPlain_forLoop {init step : List Expr} {cond : Option Expr} {body : Stmt}
    {span : Span} (hbody : YieldsBody script library env body) :
    ResolvesPlain script library env (.forLoop init cond step body span) := by
  intro single p run scope index last later id facts h hlast _ hrun
  simp only [resolvePlain] at hrun
  have hinit : PushesTerms script library p _ _ := resolveExprs_pushes env init p h.known
  rw [CheckBody.lift_bind] at hrun
  obtain ⟨⟨init', run₀⟩, hi⟩ : ∃ r, resolveExprs env init p.run = r := ⟨_, rfl⟩
  rw [hi] at hinit hrun
  obtain ⟨cond', run₁, hcond, hrun⟩ : ∃ (cond' : Option NodeId) (run₁ : Run),
      PushesTerms script library { p with run := run₀, loose := init'.reverse ++ p.loose } run₁
        cond'.toList ∧ _ :=
    loopCondition_pushes (hinit.pushes.known h.known) cond hrun
  have hstep : PushesTerms script library { p with
      run := run₁, loose := cond'.toList ++ (init'.reverse ++ p.loose) } _ _ :=
    resolveExprs_pushes env step _ (hcond.pushes.known (hinit.pushes.known h.known))
  rw [CheckBody.lift_bind] at hrun
  obtain ⟨⟨step', run₂⟩, hs⟩ : ∃ r, resolveExprs env step run₁ = r := ⟨_, rfl⟩
  rw [hs] at hstep hrun
  have hterms := (hinit.pushes.trans hcond.pushes).trans (List.append_assoc .. ▸ hstep.pushes)
  obtain ⟨bodyScope, run₃, h₃, hrun⟩ := CheckBody.bind_ok hrun
  obtain ⟨hy, s, hscope, hk⟩ := hbody _ _ run₃ last later bodyScope (h.push hterms)
    (hterms.lastScope.trans hlast) h₃
  have hg := hstep.pushes.grows.idem hy.grows
  refine loop_resolved (hterms.yields hy) (.forLoop init' cond' step' bodyScope) span ?_ rfl
    rfl ⟨fun c hmem => ?_, fun c hmem => ?_, fun c hmem => ?_, s, hscope, congrArg _ hk⟩ rfl hrun
  · -- the parts were made in the order they are written
    have hrev : [bodyScope] ++ (step'.reverse ++ (cond'.toList ++ init'.reverse))
        = (StmtKind.forLoop init' cond' step' bodyScope).children.reverse := by
      cases cond' <;> simp [StmtKind.children]
    exact hrev ▸ List.reverse_perm _
  · exact hg.isTerm (hcond.pushes.grows.isTerm (hinit.terms c (List.mem_reverse.mpr hmem)))
  · exact hg.isTerm (hcond.terms c (Option.mem_toList.mpr hmem))
  · exact hy.grows.isTerm (hstep.terms c (List.mem_reverse.mpr hmem))

theorem yieldsElseIfs_cons {cond : Expr} {body : Stmt} {span : Span} {rest : List ElseIf}
    (hbody : YieldsBody script library env body) (hrest : YieldsElseIfs script library env rest) :
    YieldsElseIfs script library env (.mk cond body span :: rest) := by
  intro p run last later arms h hlast hrun
  unfold resolveElseIfs at hrun
  have hcond : PushesTerm script library p _ := resolveCondition_pushes h.known cond
  rw [CheckBody.lift_bind] at hrun
  obtain ⟨⟨c, run₀⟩, hc⟩ : ∃ r, resolveCondition env cond p.run = r := ⟨_, rfl⟩
  rw [hc] at hcond hrun
  have hlast₀ : run₀.lastScope = last := hcond.pushes.lastScope.trans hlast
  obtain ⟨middle, hfirst, hnext⟩ := (h.push hcond.pushes).split
    (Nat.le_trans (Nat.le_of_eq hlast₀) (labelsOfBody_within 0 last body).le)
    (labelsOfElseIfs_within 0 _ rest) (Nat.zero_le _)
  obtain ⟨bodyScope, run₁, h₁, hrun⟩ := CheckBody.bind_ok hrun
  obtain ⟨hy₁, s, hs, -⟩ := hbody _ _ run₁ last middle bodyScope hfirst hlast₀ h₁
  obtain ⟨more, run₂, h₂, hrun⟩ := CheckBody.bind_ok hrun
  obtain ⟨hy₂, hs₂⟩ := hrest _ run₂ _ later more
    (hnext { p with run := run₁, loose := [bodyScope] ++ ([c] ++ p.loose) } hy₁.grows
      hy₁.inBody hy₁.labels hy₁.lastScope) hy₁.lastScope h₂
  obtain ⟨rfl, rfl⟩ := CheckBody.pure_ok hrun
  refine ⟨?_, fun arm harm => ?_⟩
  · have hparts : (armParts ((c, bodyScope) :: more)).reverse
        = (armParts more).reverse ++ [bodyScope] ++ [c] := by
      simp [armParts]
    rw [hparts]
    exact hcond.pushes.yields (hy₁.trans hy₂)
  · rcases List.mem_cons.mp harm with rfl | harm
    · exact ⟨hy₂.grows.isTerm (hy₁.grows.isTerm hcond.term),
        hy₂.grows.sort? (Tree.sort?_of_kind? (Tree.scope?_eq_some.mp hs))⟩
    · exact hs₂ arm harm

theorem yieldsElse_some {body : Stmt} (hbody : YieldsBody script library env body) :
    YieldsElse script library env (some body) := by
  intro p run last later arm h hlast hrun
  obtain ⟨id, h₁, rfl⟩ := CheckBody.map_ok hrun
  obtain ⟨hyield, c, hc, -⟩ := hbody _ p run last later id h hlast h₁
  refine ⟨hyield, fun s hs => ?_⟩
  obtain rfl := Option.some.inj hs
  exact Tree.sort?_of_kind? (Tree.scope?_eq_some.mp hc)

/-! ### All statements -/

mutual

theorem fillsStmts : ∀ (stmts : List Stmt), (∀ d ∈ localsOfStmts stmts, d ∈ script.locals) →
    FillsStmts script library env stmts
  | [], _ => fun p tr tr' aside outer run last later h hlast _ hl hst hseg hrun => by
    obtain ⟨rfl, rfl⟩ := CheckBody.pure_ok hrun
    exact .refl h hlast hl hst hseg
  | s :: rest, hd =>
    fillsStmts_cons (resolvesStmt s fun d h => hd d (List.mem_append_left _ h))
      (fillsStmts rest fun d h => hd d (List.mem_append_right _ h))

theorem resolvesStmt : ∀ (s : Stmt), (∀ d ∈ localsOfStmt s, d ∈ script.locals) →
    ResolvesStmt script library env s
  | .block (.mk stmts _) _, hd => resolvesStmt_block (fillsStmts stmts hd)
  | .plain stmt, hd => resolvesPlain stmt hd false

theorem resolvesPlain : ∀ (stmt : PlainStmt), (∀ d ∈ localsOfPlain stmt, d ∈ script.locals) →
    ResolvesPlain script library env stmt
  | .empty span, _ => resolvesPlain_empty span
  | .expr e span, _ => resolvesPlain_expr e span
  | .declare decl span, hd => resolvesPlain_declare (hd decl List.mem_cons_self) span
  | .ret value span, _ => resolvesPlain_ret value span
  | .jump name span, _ => resolvesPlain_jump name span
  | .label name span, _ => resolvesPlain_label name span
  | .stateChange target span, _ => resolvesPlain_stateChange target span
  | .branch _ thenBranch elseIfs elseBranch _, hd =>
    resolvesPlain_branch
      (yieldsBody thenBranch fun d h => hd d (List.mem_append_left _ (List.mem_append_left _ h)))
      (yieldsElseIfs elseIfs fun d h => hd d (List.mem_append_left _ (List.mem_append_right _ h)))
      (yieldsElse elseBranch fun d h => hd d (List.mem_append_right _ h))
  | .whileLoop _ body _, hd => resolvesPlain_whileLoop (yieldsBody body hd)
  | .doWhile body _ _, hd => resolvesPlain_doWhile (yieldsBody body hd)
  | .forLoop _ _ _ body _, hd => resolvesPlain_forLoop (yieldsBody body hd)

theorem yieldsBody : ∀ (body : Stmt), (∀ d ∈ localsOfStmt body, d ∈ script.locals) →
    YieldsBody script library env body
  | .block (.mk stmts inner) _, hd => fun kind => yieldsScope_braced (fillsStmts stmts hd) kind inner
  | .plain stmt, hd => yieldsBody_plain (resolvesPlain stmt hd)

theorem yieldsElseIfs : ∀ (elseIfs : List ElseIf),
    (∀ d ∈ localsOfElseIfs elseIfs, d ∈ script.locals) → YieldsElseIfs script library env elseIfs
  | [], _ => fun p run last later arms h hlast hrun => by
    obtain ⟨rfl, rfl⟩ := CheckBody.pure_ok hrun
    exact ⟨h.yields (.refl p) hlast, by simp⟩
  | .mk _ body _ :: rest, hd =>
    yieldsElseIfs_cons (yieldsBody body fun d h => hd d (List.mem_append_left _ h))
      (yieldsElseIfs rest fun d h => hd d (List.mem_append_right _ h))

theorem yieldsElse : ∀ (body : Option Stmt), (∀ d ∈ localsOfElse body, d ∈ script.locals) →
    YieldsElse script library env body
  | none, _ => fun p run last later arm h hlast hrun => by
    obtain ⟨rfl, rfl⟩ := CheckBody.pure_ok hrun
    exact ⟨h.yields (.refl p) hlast, by simp⟩
  | some body, hd => yieldsElse_some (yieldsBody body hd)

end

end Lsl
