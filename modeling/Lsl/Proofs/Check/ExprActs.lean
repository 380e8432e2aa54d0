/- # Resolving expressions by acts

Resolving an expression makes one loose node and leaves everything else that is
loose or open as it is.

Key definitions: `Env.Known`, `Pushes`.
Key theorems: `Expr.Made.pushes`, `resolveExpr_pushes`, `resolveCondition_pushes`.
-/
import Lsl.Proofs.Check.Acts
import Lsl.Proofs.Check.Judgements
import Lsl.Proofs.Check.LabelSites

namespace Lsl

/-- What the names of an environment stand for is in the tree. -/
structure Env.Known (library : Catalog) (env : Env) (t : Tree) (scopes : ScopeStack) : Prop where
  library : env.library = library
  functions : ∀ x ∈ env.functions, t.sort? x.2 = some .function
  globals : ∀ x ∈ env.globals, t.sort? x.2 = some .global
  params : ∀ b ∈ env.body, ∀ x ∈ b.params, t.sort? x.2 = some .param
  labels : ∀ b ∈ env.body, ∀ x ∈ b.labels, ∃ s, t.stmt? x.2 = some s ∧ s.kind.isLabel = true
  locals : ∀ f ∈ scopes.frames, ∀ x ∈ f.locals,
    t.sort? x.2 = some .stmt ∧ ∃ v, t.var? x.2 = some v

theorem Env.Known.grows {library : Catalog} {env : Env} {t t' : Tree} {scopes : ScopeStack}
    {P : Nat → Prop} (h : env.Known library t scopes) (hg : t.Grows P t') :
    env.Known library t' scopes where
  library := h.library
  functions x hx := hg.sort? (h.functions x hx)
  globals x hx := hg.sort? (h.globals x hx)
  params b hb x hx := hg.sort? (h.params b hb x hx)
  labels b hb x hx := by
    obtain ⟨s, hs, hl⟩ := h.labels b hb x hx
    obtain ⟨s', hs', ho, -⟩ := hg.stmt? hs
    exact ⟨s', hs', (StmtNode.site_of_outline ho hl).1⟩
  locals f hf x hx := by
    obtain ⟨hs, v, hv⟩ := h.locals f hf x hx
    obtain ⟨v', hv', -⟩ := hg.var? hv
    exact ⟨hg.sort? hs, v', hv'⟩

section

variable (script : Script) (library : Catalog)

/-- The run comes about by acts that leave the loose nodes `ids` and touch
nothing else that is loose or open. -/
structure Pushes (p : Progress) (run : Run) (ids : List NodeId) : Prop where
  acts : Acts script library p { p with run, loose := ids ++ p.loose }
  scopes : run.scopes = p.run.scopes
  labels : run.labels = p.run.labels
  lastScope : run.lastScope = p.run.lastScope

end

variable {script : Script} {library : Catalog} {p : Progress} {run run' : Run} {env : Env}
  {ids ids' : List NodeId}

namespace Pushes

theorem refl (p : Progress) : Pushes script library p p.run [] := ⟨.refl, rfl, rfl, rfl⟩

theorem trans (h : Pushes script library p run ids)
    (g : Pushes script library { p with run, loose := ids ++ p.loose } run' ids') :
    Pushes script library p run' (ids' ++ ids) where
  acts := by
    rw [List.append_assoc]
    exact h.acts.trans g.acts
  scopes := g.scopes.trans h.scopes
  labels := g.labels.trans h.labels
  lastScope := g.lastScope.trans h.lastScope

theorem perm (h : Pushes script library p run ids) (hp : ids.Perm ids') :
    Pushes script library p run ids' where
  acts := h.acts.tail (.shuffle _ _ (hp.append_right _))
  scopes := h.scopes
  labels := h.labels
  lastScope := h.lastScope

theorem grows (h : Pushes script library p run ids) :
    p.run.tree.Grows (fun _ => True) run.tree := h.acts.grows

theorem known (h : Pushes script library p run ids)
    (hk : env.Known library p.run.tree p.run.scopes) : env.Known library run.tree run.scopes := by
  rw [h.scopes]
  exact hk.grows h.grows

/-- Telling something makes no node. -/
theorem say (h : Pushes script library p run ids) {n : Notice} (hn : n.marks = false) :
    Pushes script library p { run with notices := run.notices ++ [n] } ids :=
  ⟨h.acts.tail (.say _ n hn), h.scopes, h.labels, h.lastScope⟩

/-- Telling something that marks nothing makes no node. -/
theorem tell (h : Pushes script library p run ids) {ns : List Notice}
    (hns : ∀ n ∈ ns, n.marks = false) :
    Pushes script library p { run with notices := run.notices ++ ns } ids := by
  induction ns generalizing run with
  | nil => simpa using h
  | cons n rest ih =>
    have hrest := ih (h.say (hns n List.mem_cons_self)) fun m hm => hns m (List.mem_cons_of_mem _ hm)
    simpa using hrest

/-- Errors about a node that has no parent yet. -/
theorem faultRoot (h : Pushes script library p run ids) {id : NodeId}
    (hid : id ∈ Progress.roots { p with run, loose := ids ++ p.loose }) (ns : List Notice)
    (hne : ns ≠ []) (hns : ∀ n ∈ ns, n.marks = true) :
    Pushes script library p
      { run with tree := run.tree.markError id, notices := run.notices ++ ns } ids :=
  ⟨h.acts.tail (.fault _ id ns hid hne hns), h.scopes, h.labels, h.lastScope⟩

/-- Errors about a loose node. -/
theorem fault (h : Pushes script library p run ids) {id : NodeId} (hid : id ∈ ids ++ p.loose)
    (ns : List Notice) (hne : ns ≠ []) (hns : ∀ n ∈ ns, n.marks = true) :
    Pushes script library p
      { run with tree := run.tree.markError id, notices := run.notices ++ ns } ids :=
  h.faultRoot (List.mem_append_left _ (List.mem_append_left _ hid)) ns hne hns

end Pushes

/-- Steps that leave the same loose nodes, one after the other. -/
theorem Pushes.forM {α : Type} {xs : List α} {f : α → Check PUnit}
    (hf : ∀ x ∈ xs, ∀ run, Pushes script library p run ids →
      Pushes script library p (f x run).2 ids)
    (h : Pushes script library p run ids) : Pushes script library p (xs.forM f run).2 ids := by
  induction xs generalizing run with
  | nil => exact h
  | cons x rest ih =>
    rw [Check.forM_cons_run]
    exact ih (fun y hy => hf y (List.mem_cons_of_mem _ hy)) (hf x List.mem_cons_self run h)

/-! ### Judgements -/

theorem marks_fault {kind : Fault} (span : Span) (h : kind ≠ .missingDefaultState) :
    (Notice.fault kind span).marks = true := by
  cases kind <;> simp_all [Notice.marks]

theorem isTerm_alloc {t : Tree} (e : ExprNode) (span : Span) :
    (t.alloc (.expr e) span).1.IsTerm t.size :=
  .inl (Tree.sort?_of_kind? (Tree.kind?_alloc_self (.expr e) span))

/-- The node of a judgement takes the place of its operands, is marked if
something is wrong, and is noted where it belongs. -/
theorem judgement_pushes (h : Pushes script library p run ids) {j : Judgement} (span : Span)
    (hc : ids.Perm j.node.kind.children) (ht : ∀ c ∈ j.node.kind.children, run.tree.IsTerm c)
    (hb : run.tree.Bound library j.node) (hm : j.Marks) :
    Pushes script library p
      { run with
        tree := (j.tree span run.tree).noteUse run.tree.size (.expr j.node)
        notices := run.notices ++ j.faults.map fun x => .fault x.1 x.2 }
      [run.tree.size] := by
  refine ⟨(h.perm hc).acts.tail ?_, h.scopes, h.labels, h.lastScope⟩
  have hact : Act script library _ _ := .make { p with run, loose := j.node.kind.children ++ p.loose }
    (.expr j.node) p.loose span (j.faults.map fun x => .fault x.1 x.2) rfl rfl ⟨ht, hb⟩
    (fun _ _ _ _ hk => by simp at hk) (by simp [NodeKind.sort]) (by simp [NodeKind.sort])
    (fun n hn => by
      obtain ⟨y, hy, rfl⟩ := List.mem_map.mp hn
      exact marks_fault y.2 (hm y hy).1)
  have htree : (j.tree span run.tree).noteUse run.tree.size (.expr j.node)
      = (run.tree.alloc (.expr j.node) span).1.settle
          (!(j.faults.map fun x => Notice.fault x.1 x.2).isEmpty) run.tree.size (.expr j.node) := by
    unfold Judgement.tree Tree.settle
    cases j.faults <;> rfl
  rw [htree]
  exact hact

/-- A new loose expression. -/
structure PushesTerm (script : Script) (library : Catalog) (p : Progress) (r : NodeId × Run) :
    Prop where
  pushes : Pushes script library p r.2 [r.1]
  term : r.2.tree.IsTerm r.1

/-- New loose expressions, the last one first. -/
structure PushesTerms (script : Script) (library : Catalog) (p : Progress) (run : Run)
    (ids : List NodeId) : Prop where
  pushes : Pushes script library p run ids
  terms : ∀ id ∈ ids, run.tree.IsTerm id

namespace PushesTerms

theorem refl (p : Progress) : PushesTerms script library p p.run [] := ⟨.refl p, by simp⟩

/-- One more operand. -/
theorem snoc (h : PushesTerms script library p run ids) {r : NodeId × Run}
    (g : PushesTerm script library { p with run, loose := ids ++ p.loose } r) :
    PushesTerms script library p r.2 (r.1 :: ids) where
  pushes := h.pushes.trans g.pushes
  terms id hid := by
    rcases List.mem_cons.mp hid with rfl | hid
    · exact g.term
    · exact g.pushes.grows.isTerm (h.terms id hid)

end PushesTerms

/-- An error in the place of nodes that cannot be put together. -/
theorem Pushes.reject (h : Pushes script library p run ids) (ns : List Notice) (span : Span)
    (hns : ∀ n ∈ ns, n.marks = true)
    (hwhy : ns ≠ [] ∨ ∃ d ∈ ids, run.tree.hasErrors d = true) :
    PushesTerm script library p (run.tree.size,
      { run with tree := (run.tree.allocError span).1, notices := run.notices ++ ns }) where
  pushes := ⟨h.acts.tail (.reject _ ids p.loose ns span rfl hns hwhy), h.scopes, h.labels,
    h.lastScope⟩
  term := .inr (Tree.sort?_of_kind? (Tree.kind?_of_node? (Tree.node?_allocError_self span)))

/-! ### Names and calls -/

theorem mem_of_lookup {names : List (String × NodeId)} {name : String} {id : NodeId}
    (h : names.lookup name = some id) : (name, id) ∈ names := by
  obtain ⟨before, after, rfl, -⟩ := List.lookup_eq_some_iff.mp h
  simp

/-- The type of a variable is noted on each name that stands for it. -/
theorem bound_bindName {name : String} {binding : Binding}
    (hk : env.Known library run.tree run.scopes)
    (hb : bindName env run.scopes name = some binding) :
    run.tree.Bound library
      ⟨.ref name binding, bindingType run.tree binding, binding.isConstant⟩ := by
  have hvar : ∀ {d sort}, run.tree.sort? d = some sort → (sort = .global ∨ sort = .param) →
      run.tree.sort? d = some sort
        ∧ ∃ v, run.tree.var? d = some v ∧ v.ty = ((run.tree.var? d).map (·.ty)).getD .void := by
    intro d sort hs hsort
    obtain ⟨v, hv⟩ := Tree.var?_of_declaration (hsort.imp (· ▸ hs) (· ▸ hs))
    exact ⟨hs, v, hv, by simp [hv]⟩
  unfold bindName at hb
  rcases hl : run.scopes.lookup? name with _ | d
  · rcases hp : env.param? name with _ | d
    · rcases hg : env.globals.lookup name with _ | d
      · -- a constant of the library
        simp only [hl, hp, hg, Option.map_none, Option.none_or, Option.map_eq_some_iff] at hb
        obtain ⟨k, hc, rfl⟩ := hb
        rw [hk.library] at hc
        exact List.mem_of_find?_eq_some hc
      · simp only [hl, hp, hg, Option.map_none, Option.none_or, Option.map_some, Option.some_or,
          Option.some.injEq] at hb
        subst hb
        exact hvar (hk.globals _ (mem_of_lookup hg)) (by simp)
    · simp only [hl, hp, Option.map_none, Option.none_or, Option.map_some, Option.some_or,
        Option.some.injEq] at hb
      subst hb
      obtain ⟨b, hbody, hlook⟩ := Option.bind_eq_some_iff.mp hp
      exact hvar (hk.params b hbody _ (mem_of_lookup hlook)) (by simp)
  · simp only [hl, Option.map_some, Option.some_or, Option.some.injEq] at hb
    subst hb
    obtain ⟨f, hf, hlook⟩ := List.exists_of_findSome?_eq_some hl
    obtain ⟨hs, v, hv⟩ := hk.locals f hf _ (mem_of_lookup hlook)
    exact ⟨hs, v, hv, by simp [bindingType, hv]⟩

theorem Expr.Judged.bound {e : Expr} {j : Judgement} (h : e.Judged env run ids j)
    (hk : env.Known library run.tree run.scopes) : run.tree.Bound library j.node := by
  cases h with
  | name name span binding hb => exact bound_bindName hk hb
  | component => exact rfl
  | userCall name args span ids function decl hf hd => exact hk.functions _ (mem_of_lookup hf)
  | _ => trivial

/-- Where something means nothing, this is an error, or an argument is wrong already. -/
theorem Expr.Rejected.why {e : Expr} {ns : List Notice} (h : e.Rejected env run ids ns)
    (hk : env.Known library run.tree run.scopes) :
    ns ≠ [] ∨ ∃ d ∈ ids, run.tree.hasErrors d = true := by
  cases h with
  | name => exact .inl (by simp)
  | function name args span ids function hf hd =>
    obtain ⟨k, hkind, hs⟩ := Option.map_eq_some_iff.mp (hk.functions _ (mem_of_lookup hf))
    cases k <;> simp [NodeKind.sort] at hs
    rw [Tree.function?_eq_some.mpr hkind] at hd
    cases hd
  | call name args span ids kind hf hch =>
    rcases kind with _ | kind
    · -- nothing more is reported where an argument is wrong already
      obtain ⟨-, hk⟩ | ⟨-, -, hnone⟩ := chooseOverload_error hch
      · cases hk
      obtain ⟨arg, harg, hu⟩ := List.mem_map.mp (hnone rfl)
      refine .inr ⟨arg, harg, ?_⟩
      unfold argumentOf at hu
      split at hu
      · rename_i hun
        exact (Bool.and_eq_true_iff.mp hun).1
      · simp at hu
    · exact .inl (by simp)

/-! ### Expressions -/

/-- The node of an expression takes the place of those of its operands. -/
theorem Expr.Made.pushes {e : Expr} {r : NodeId × Run} (h : e.Made env ids run r)
    (hids : PushesTerms script library p run ids.reverse)
    (hk : env.Known library p.run.tree p.run.scopes) : PushesTerm script library p r := by
  have hknown := hids.pushes.known hk
  cases h with
  | judged j hj span said hsaid =>
    have hterms : ∀ c ∈ j.node.kind.children, run.tree.IsTerm c := fun c hc =>
      hids.terms c (List.mem_reverse.mpr (hj.children ▸ hc))
    have htold : Pushes script library p { run with notices := run.notices ++ said } ids.reverse :=
      hids.pushes.tell fun n hn => by
        obtain ⟨-, kind, span, rfl⟩ := hsaid n hn
        rfl
    refine ⟨judgement_pushes htold span (hj.children ▸ List.reverse_perm _) hterms (hj.bound hknown)
      hj.marks, ?_⟩
    exact (Tree.grows_noteUse (P := fun _ => True) (.expr j.node)).isTerm
      ((grows_judgement (P := fun _ => True) j span run.tree).isTerm (isTerm_alloc j.node span))
  | rejected ns hns span =>
    refine hids.pushes.reject ns span (fun n hn => ?_) ((hns.why hknown).imp id
      fun ⟨d, hd, herr⟩ => ⟨d, List.mem_reverse.mpr hd, herr⟩)
    obtain ⟨hof, kind, span, rfl⟩ := hns.said n hn
    exact marks_fault span hof.1

theorem resolveExprs_pushes (env : Env) (es : List Expr) (p : Progress)
    (hk : env.Known library p.run.tree p.run.scopes) :
    PushesTerms script library p (resolveExprs env es p.run).2
      (resolveExprs env es p.run).1.reverse := by
  induction es using exprs_induction generalizing p with
  | nil => exact .refl p
  | cons e rest hoperands hrest =>
    have he := (resolveExpr_made env e p.run).pushes (hoperands p hk) hk
    have hrest := hrest
      { p with
        run := (resolveExpr env e p.run).2
        loose := [(resolveExpr env e p.run).1] ++ p.loose } (he.pushes.known hk)
    rw [resolveExprs_cons, List.reverse_cons]
    refine ⟨he.pushes.trans hrest.pushes, fun id hid => ?_⟩
    rcases List.mem_append.mp hid with hid | hid
    · exact hrest.terms id hid
    · obtain rfl := List.mem_singleton.mp hid
      exact hrest.pushes.grows.isTerm he.term

/-- **Resolving an expression makes one loose node** and changes nothing that
was loose or open before. -/
theorem resolveExpr_pushes (env : Env) (e : Expr) (p : Progress)
    (hk : env.Known library p.run.tree p.run.scopes) :
    PushesTerm script library p (resolveExpr env e p.run) :=
  (resolveExpr_made env e p.run).pushes (resolveExprs_pushes env e.operands p hk) hk

/-! ### Expressions in their places -/

theorem resolveOption_pushes (hk : env.Known library p.run.tree p.run.scopes) (e : Option Expr) :
    PushesTerms script library p (resolveOption env e p.run).2
      (resolveOption env e p.run).1.toList := by
  cases e with
  | none => exact .refl p
  | some e => exact (PushesTerms.refl p).snoc (resolveExpr_pushes env e p hk)

/-- What becomes of a condition, given what becomes of the expression. -/
theorem resolveCondition_run {cond : Expr} {run run' : Run} {id : NodeId}
    (hr : resolveExpr env cond run = (id, run')) :
    resolveCondition env cond run
      = if run'.tree.untyped id then (id, run')
        else if !validCondition (run'.tree.exprType id) then
          (id, { run' with
            tree := run'.tree.markError id
            notices := run'.notices
              ++ [.fault (.invalidCondition (run'.tree.exprType id)) cond.span] })
        else if run'.tree.isConstant id then
          (id, { run' with
            notices := run'.notices ++ [.warning .constantCondition cond.span] })
        else (id, run') := by
  unfold resolveCondition
  rw [Check.bind_run, hr]
  change (if run'.tree.untyped id then (pure id : Check NodeId)
    else if !validCondition (run'.tree.exprType id) then
      Check.faultAt id (.invalidCondition (run'.tree.exprType id)) cond.span >>= fun _ => pure id
    else if run'.tree.isConstant id then
      Check.warn .constantCondition cond.span >>= fun _ => pure id
    else pure id) run' = _
  simp only [Check.ite_run]
  rfl

theorem resolveCondition_pushes (hk : env.Known library p.run.tree p.run.scopes) (cond : Expr) :
    PushesTerm script library p (resolveCondition env cond p.run) := by
  have h : PushesTerm script library p _ := resolveExpr_pushes env cond p hk
  obtain ⟨⟨id, run⟩, hr⟩ : ∃ r, resolveExpr env cond p.run = r := ⟨_, rfl⟩
  rw [hr] at h
  rw [resolveCondition_run hr]
  split
  · exact h
  · split
    · exact ⟨h.pushes.fault List.mem_cons_self _ (by simp) (by simp [Notice.marks]),
        (Tree.grows_markError (P := fun _ => True)).isTerm h.term⟩
    · split
      · exact ⟨h.pushes.say rfl, h.term⟩
      · exact h

end Lsl
