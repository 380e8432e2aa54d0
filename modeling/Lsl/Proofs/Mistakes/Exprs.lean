/- # Expressions with mistakes

Where the name `n` stands in place of an expression, one error is reported and a node
without type is made. All that is built on it agrees with what is built on the
expression: it has the same type or is wrong and has none, and nothing else is
reported. The one exception is writing to a component of `n`: the component of a
wrong expression still has a type, and it is no variable.

Key definitions: `Run.Mirrors`, `Tree.Target`, `Run.Resolves`.
Key theorems: `Run.Mirrors.finish`, `resolveExpr_resolves`.
-/
import Lsl.Proofs.Mistakes.Judgements
import Lsl.Proofs.Mistakes.Replaced

namespace Lsl

variable {n : String} {L : Links} {env env' : Env} {run run' r r' s s' : Run}
  {ids ids' : List NodeId} {fs gs : List (Fault × Span)} {t t' t₁ t₁' : Tree} {i j : NodeId}
  {e e' : Expr}

/-! ### Both runs go on -/

/-- Both runs went on and made nodes that agree; the second one reported these errors. -/
structure Run.Mirrors (run run' r r' : Run) (ids ids' : List NodeId) (fs : List (Fault × Span)) :
    Prop where
  left : run.Spares r ids
  right : run'.Spares r' ids'
  told : r'.faults = run'.faults ++ fs
  agree : List.Forall₂ (Tree.Agrees r.tree r'.tree) ids ids'

namespace Run.Mirrors

theorem refl (run run' : Run) : run.Mirrors run' run run' [] [] [] where
  left := .refl run
  right := .refl run'
  told := (List.append_nil _).symm
  agree := .nil

theorem trans {more more' : List NodeId} (h : run.Mirrors run' r r' ids ids' fs)
    (g : r.Mirrors r' s s' more more' gs) :
    run.Mirrors run' s s' (ids ++ more) (ids' ++ more') (fs ++ gs) where
  left := h.left.trans g.left
  right := h.right.trans g.right
  told := by rw [g.told, h.told, List.append_assoc]
  agree := List.rel_append (h.agree.imp fun _ _ ha => ha.keeps g.left.tree g.right.tree) g.agree

/-- Warnings do not matter. -/
theorem say (h : run.Mirrors run' r r' ids ids' fs) (ns ns' : List Notice)
    (hns : ns'.filterMap Notice.fault? = []) :
    run.Mirrors run' { r with notices := r.notices ++ ns } { r' with notices := r'.notices ++ ns' }
      ids ids' fs where
  left := h.left.say _
  right := h.right.say _
  told := by rw [Run.faults_say r' r'.tree ns', hns, List.append_nil, h.told]
  agree := h.agree

theorem linked (h : run.Mirrors run' r r' ids ids' fs) (hl : run.Linked n L run') :
    r.Linked n L r' := hl.spares h.left h.right

end Run.Mirrors

/-! ### The node of a judgement -/

theorem expr?_judgement (j : Judgement) (span : Span) (t : Tree) :
    (j.tree span t).expr? t.size = some j.node :=
  (grows_judgement (P := fun _ => True) j span t).expr?
    (Tree.expr?_eq_some.mpr (Tree.kind?_alloc_self _ span))

/-- The other nodes are what they were. -/
theorem expr?_judgement_of_has (j : Judgement) (span : Span) (hi : t.Has i) :
    (j.tree span t).expr? i = t.expr? i := by
  have hkind : (j.tree span t).kind? i = (t.alloc (.expr j.node) span).1.kind? i := by
    unfold Judgement.tree
    simp only
    split
    · rfl
    · exact Tree.kind?_markError
  rw [Tree.expr?, hkind, Tree.kind?_alloc, if_neg (Nat.ne_of_lt hi)]
  rfl

theorem span_judgement (j : Judgement) (span : Span) (t : Tree)
    (hc : ∀ c ∈ j.node.kind.children, t.Has c) : (j.tree span t).span t.size = span := by
  obtain ⟨m, hm, hgrow⟩ := (grows_judgement (P := fun _ => True) j span t).nodes t.size _
    (Tree.node?_alloc_self (.expr j.node) span hc)
  rw [Tree.span, hm]
  exact hgrow.span

/-- A node is marked if one of its parts is. -/
theorem hasErrors_judgement_of_child {j : Judgement} (span : Span) {c : NodeId}
    (hc : ∀ c ∈ j.node.kind.children, t.Has c) (hmem : c ∈ j.node.kind.children)
    (h : t.hasErrors c = true) : (j.tree span t).hasErrors t.size = true :=
  (grows_judgement (P := fun _ => True) j span t).hasErrors
    (Tree.hasErrors_alloc_of_any (.expr j.node) span hc (List.any_eq_true.mpr ⟨c, hmem, h⟩))

/-- Where nothing is wrong in the end, a judgement has found nothing. -/
theorem Run.Spotless.judged {j : Judgement} {span : Span}
    (h : Run.Spotless (finishExpr j span r).2) : j.faults = [] := by
  rw [finishExpr_run] at h
  exact h.said r rfl

/-- **A judgement that follows another makes a node that agrees.** -/
theorem Run.Mirrors.finish (h : run.Mirrors run' r r' ids ids' fs) (j j' : Judgement)
    {lost : List (Fault × Span)} (span span' : Span) (hc : ∀ c ∈ j.node.kind.children, c ∈ ids)
    (hc' : ∀ c ∈ j'.node.kind.children, c ∈ ids') (hf : j.Follows r'.tree j' lost) :
    run.Mirrors run' (finishExpr j span r).2 (finishExpr j' span' r').2
      [(finishExpr j span r).1] [(finishExpr j' span' r').1] (fs ++ lost) where
  left := h.left.finish j span hc
  right := h.right.finish j' span' hc'
  told := by
    rw [finishExpr_run, Run.faults_say, h.told, Run.filterMap_faults, hf.faults, List.append_assoc]
  agree := by
    have hhas : ∀ c ∈ j'.node.kind.children, r'.tree.Has c := fun c hm =>
      (h.right.loose c (hc' c hm)).2.has
    refine .cons ⟨?_, ?_, fun hu => ?_⟩ .nil
    · exact ((h.left.finish j span hc).loose _ (List.mem_singleton_self _)).2.has
    · exact ((h.right.finish j' span' hc').loose _ (List.mem_singleton_self _)).2.has
    · rw [finishExpr_run] at hu ⊢
      rw [finishExpr_run]
      simp only [Tree.untyped, Tree.exprType, expr?_judgement, Option.map_some, Option.getD_some]
        at hu ⊢
      rcases hf.ty with hty | ⟨hvoid, c, hmem, hwrong⟩
      · exact hty
      · rw [hasErrors_judgement_of_child span' hhas hmem hwrong, hvoid] at hu
        cases hu

/-! ### What can be written to -/

/-- How the second node can be written to if the first can: a variable is one, unless
the name `n` stands in its place, and what is wrong is a component of that name. -/
structure Tree.Target (n : String) (e' : Expr) (t t' : Tree) (i j : NodeId) : Prop where
  names : t.IsVariable i → (∃ span, e' = .ident n span) ∧ t'.expr? j = none
    ∨ (∀ span, e' ≠ .ident n span) ∧ t'.IsVariable j
  faults : assignmentFaults t i = [] → assignmentFaults t' j = e'.lostPart n

namespace Tree

theorem assignmentFaults_keeps (hk : t.Keeps t₁) (hi : t.Loose i) :
    assignmentFaults t₁ i = assignmentFaults t i := by
  have hwhy : assignmentFault? t₁ i = assignmentFault? t i := by
    unfold assignmentFault?
    rw [hk.expr? hi.has]
    rcases he : t.expr? i with _ | ⟨kind, ty, constant⟩
    · rfl
    · cases kind with
      | component object c =>
        have hheld := hi.held object (by
          rw [children_of_kind? (expr?_eq_some.mp he)]
          exact List.mem_cons_self)
        simp only [hk.expr? hheld]
      | _ => rfl
  unfold assignmentFaults
  rw [hwhy, hk.untyped hi.has, hk.span hi.has]

theorem IsVariable.keeps (hk : t.Keeps t₁) (hi : t.Has i) : t₁.IsVariable i ↔ t.IsVariable i := by
  unfold IsVariable
  rw [hk.expr? hi]

theorem Target.keeps (h : Target n e' t t' i j) (hk : t.Keeps t₁) (hk' : t'.Keeps t₁')
    (hi : t.Loose i) (hj : t'.Loose j) : Target n e' t₁ t₁' i j where
  names hv := by
    rw [hk'.expr? hj.has, IsVariable.keeps hk' hj.has]
    exact h.names ((IsVariable.keeps hk hi.has).mp hv)
  faults hf := by
    rw [assignmentFaults_keeps hk hi] at hf
    rw [assignmentFaults_keeps hk' hj, h.faults hf]

/-- What is neither a name nor a component cannot be written to. -/
theorem Target.of_other {e₁ : ExprNode} (hclean : t.Clean) (he : t.expr? i = some e₁)
    (hname : ∀ name b, e₁.kind ≠ .ref name b) (hpart : ∀ object c, e₁.kind ≠ .component object c) :
    Target n e' t t' i j := by
  have hvariable : ¬ t.IsVariable i := by
    rintro ⟨name, b, ty, k, href, -⟩
    obtain rfl := Option.some.inj (he.symm.trans href)
    exact hname name b rfl
  refine ⟨fun hv => absurd hv hvariable, fun hf => ?_⟩
  rcases isPlace_of_assignmentFaults ⟨hclean i, e₁, he⟩ hf with
    hv | ⟨object, c, ty, k, hcomponent, -⟩
  · exact absurd hv hvariable
  · obtain rfl := Option.some.inj (he.symm.trans hcomponent)
    exact absurd rfl (hpart object c)

end Tree

/-- A place can be written to. -/
theorem assignmentFaults_of_isPlace (h : t.IsPlace i) : assignmentFaults t i = [] := by
  obtain ⟨name, b, ty, k, he, hconstant⟩ | ⟨object, c, ty, k, he, name, b, ty', k', ho, hconstant⟩ := h
  · rw [assignmentFaults, assignmentFault?, he]
    cases b <;> first | rfl | cases hconstant
  · rw [assignmentFaults, assignmentFault?, he]
    simp only [ho, Option.map_some]
    cases b <;> first | rfl | cases hconstant

/-- A component of what is no expression is wrong to write to, as it has a type. -/
theorem assignmentFaults_of_lost {object : NodeId} {c : Component} {k : Bool}
    (he : t.expr? i = some ⟨.component object c, .float, k⟩) (ho : t.expr? object = none) :
    assignmentFaults t i = [(.notAssignable, t.span i)] := by
  simp [assignmentFaults, assignmentFault?, Tree.untyped, Tree.exprType, he, ho, Ty.isVoid]

/-! ### Resolving expressions -/

/-- A warning is no fault, whether it is given or not. -/
theorem filterMap_warning (c : Bool) (w : Warning) (span : Span) :
    (if c then [Notice.warning w span] else []).filterMap Notice.fault? = [] := by
  cases c <;> rfl

/-- Both runs resolved an expression, and one can be written to as the other can. -/
structure Run.Resolves (n : String) (run run' : Run) (x x' : NodeId × Run) (e' : Expr)
    (fs : List (Fault × Span)) : Prop extends
    Run.Mirrors run run' x.2 x'.2 [x.1] [x'.1] fs where
  target : Tree.Target n e' x.2.tree x'.2.tree x.1 x'.1

theorem Run.Spotless.clean (h : run.Spotless) : run.tree.Clean := h.unmarked

/-- What neither is a name nor has components. -/
theorem Run.Mirrors.resolves (h : run.Mirrors run' r r' ids ids' fs) (j j' : Judgement)
    {lost : List (Fault × Span)} (span span' : Span) (hc : ∀ c ∈ j.node.kind.children, c ∈ ids)
    (hc' : ∀ c ∈ j'.node.kind.children, c ∈ ids')
    (hclean : Run.Spotless (finishExpr j span r).2)
    (hname : ∀ name b, j.node.kind ≠ .ref name b)
    (hpart : ∀ object c, j.node.kind ≠ .component object c)
    (hf : j.faults = [] → j.Follows r'.tree j' lost) :
    run.Resolves n run' (finishExpr j span r) (finishExpr j' span' r') e' (fs ++ lost) :=
  { h.finish j j' span span' hc hc' (hf hclean.judged) with
    target := by
      refine Tree.Target.of_other hclean.clean ?_ hname hpart
      rw [finishExpr_run]
      exact expr?_judgement j span r.tree }

/-- The same, where nothing more is wrong. -/
theorem Run.Mirrors.resolvesAlike (h : run.Mirrors run' r r' ids ids' fs) (j j' : Judgement)
    (span span' : Span) (hc : ∀ c ∈ j.node.kind.children, c ∈ ids)
    (hc' : ∀ c ∈ j'.node.kind.children, c ∈ ids')
    (hclean : Run.Spotless (finishExpr j span r).2)
    (hname : ∀ name b, j.node.kind ≠ .ref name b)
    (hpart : ∀ object c, j.node.kind ≠ .component object c)
    (hf : j.faults = [] → j.Follows r'.tree j' []) :
    run.Resolves n run' (finishExpr j span r) (finishExpr j' span' r') e' fs := by
  have hresolves : run.Resolves n run' _ _ e' _ :=
    h.resolves j j' span span' hc hc' hclean hname hpart hf
  rwa [List.append_nil] at hresolves

/-- A number is the same number wherever it stands. -/
theorem Run.resolves_literal (run run' : Run) (kind : ExprKind) (ty : Ty) {span span' : Span}
    (hc : kind.children = []) (hname : ∀ name b, kind ≠ .ref name b)
    (hclean : Run.Spotless (finishExpr (.of kind ty true) span run).2) :
    run.Resolves n run' (finishExpr (.of kind ty true) span run)
      (finishExpr (.of kind ty true) span' run') e' [] := by
  refine (Run.Mirrors.refl run run').resolves _ _ span span' (by simp [Judgement.of, hc])
    (by simp [Judgement.of, hc]) hclean hname ?_ fun _ => ⟨rfl, .inl rfl⟩
  rintro object c rfl
  cases hc

/-- **The name `n` in place of an expression is reported**, and nothing else. -/
theorem resolveName_resolves (he : env.Linked n L env') (hl : run.Linked n L run') (e : Expr)
    (span : Span) : run.Resolves n run' (resolveExpr env e run) (resolveName env' n span run')
      (.ident n span) [(.undefinedVariable n, span)] := by
  have hright := (Expr.Made.of_name env' n span run').spares (.refl run')
  have hrun : resolveName env' n span run' = (run'.tree.size, { run' with
      tree := (run'.tree.allocError span).1
      notices := run'.notices ++ [.fault (.undefinedVariable n) span] }) :=
    resolveName_none (bindName_eq_none he hl) span
  rw [hrun] at hright ⊢
  have hnone : (run'.tree.allocError span).1.expr? run'.tree.size = none := by
    rw [Tree.expr?, Tree.kind?_of_node? (Tree.node?_allocError_self span)]
    rfl
  have huntyped : (run'.tree.allocError span).1.untyped run'.tree.size = true := by
    rw [Tree.untyped, Tree.exprType, hnone,
      Tree.hasErrors_of_node? (Tree.node?_allocError_self span)]
    rfl
  have hleft := resolveExpr_spares env e run
  refine ⟨⟨hleft, hright, Run.faults_say run' _ _, .cons ⟨?_, ?_, fun hu => ?_⟩ .nil⟩,
    fun _ => .inl ⟨⟨span, rfl⟩, hnone⟩, fun _ => ?_⟩
  · exact (hleft.loose _ (List.mem_singleton_self _)).2.has
  · exact (hright.loose _ (List.mem_singleton_self _)).2.has
  · exact absurd hu (by rw [huntyped]; exact Bool.noConfusion)
  · simp only [assignmentFaults, assignmentFault?, hnone]
    rfl

/-- A name that the script declares stands for the same on both sides. -/
theorem resolveIdent_resolves (he : env.Linked n L env') (hl : run.Linked n L run') {name : String}
    {span span' : Span} (hname : name ≠ n)
    (hclean : Run.Spotless (resolveName env name span run).2) :
    run.Resolves n run' (resolveName env name span run) (resolveName env' name span' run')
      (.ident name span') [] := by
  have hleft := (Expr.Made.of_name env name span run).spares (.refl run)
  have hright := (Expr.Made.of_name env' name span' run').spares (.refl run')
  have hbind := bindName_linked he hl name
  -- what the two runs make, where the name stands for something
  have hmakes : ∀ {env : Env} {run : Run} (span : Span) {b : Binding},
      bindName env run.scopes name = some b →
      (resolveName env name span run).2.faults = run.faults
        ∧ ∃ k, (resolveName env name span run).2.tree.expr? (resolveName env name span run).1
            = some ⟨.ref name b, bindingType run.tree b, k⟩ := by
    intro env run span b hb
    have hexpr : ∀ t : Tree, (addReference (t.alloc (.expr ⟨.ref name b, bindingType run.tree b,
        b.isConstant⟩) span).1 b t.size).expr? t.size
          = some ⟨.ref name b, bindingType run.tree b, b.isConstant⟩ := by
      intro t
      rw [((Tree.Keeps.refl _).addReference b t.size).expr? (by
        rw [Tree.Has, Tree.size_alloc]
        exact Nat.lt_succ_self _)]
      exact Tree.expr?_eq_some.mpr (Tree.kind?_alloc_self _ span)
    rw [resolveName_some hb]
    refine ⟨?_, _, hexpr run.tree⟩
    rw [Run.faults_say, filterMap_warning, List.append_nil]
  cases hb : bindName env run.scopes name with
  | none =>
    rw [resolveName_none hb] at hclean
    have hsaid : run.notices ++ [Notice.fault (.undefinedVariable name) span]
        = run.notices ++ [(Fault.undefinedVariable name, span)].map fun x => .fault x.1 x.2 := rfl
    cases hclean.said run hsaid
  | some b =>
    rw [hb] at hbind
    cases hb' : bindName env' run'.scopes name with
    | none =>
      rw [hb'] at hbind
      cases hbind
    | some b' =>
      rw [hb'] at hbind
      obtain ⟨-, k, hexpr⟩ := hmakes span hb
      obtain ⟨htold, k', hexpr'⟩ := hmakes span' hb'
      cases hbind with
      | some hlinked =>
        have hplace : Tree.IsVariable (resolveName env name span run).2.tree
            (resolveName env name span run).1 → b.isConstant = false := by
          rintro ⟨name₀, b₀, ty₀, k₀, href, hconstant⟩
          have hsame := Option.some.inj (hexpr.symm.trans href)
          simp only [ExprNode.mk.injEq, ExprKind.ref.injEq] at hsame
          rwa [hsame.1.2]
        have hvariable : b.isConstant = false → Tree.IsVariable
            (resolveName env' name span' run').2.tree (resolveName env' name span' run').1 :=
          fun hconstant => ⟨name, b', _, k', hexpr', hlinked.isConstant.trans hconstant⟩
        refine ⟨⟨hleft, hright, by rw [htold, List.append_nil], .cons ⟨?_, ?_, fun _ => ?_⟩ .nil⟩,
          fun hv => .inr ⟨?_, hvariable (hplace hv)⟩, fun hf => ?_⟩
        · exact (hleft.loose _ (List.mem_singleton_self _)).2.has
        · exact (hright.loose _ (List.mem_singleton_self _)).2.has
        · rw [Tree.exprType, Tree.exprType, hexpr, hexpr']
          exact bindingType_linked hl.tree hlinked
        · intro s hs
          exact hname (Expr.ident.inj hs).1
        · refine assignmentFaults_of_isPlace (.inl (hvariable (hplace ?_)))
          rcases isPlace_of_assignmentFaults ⟨hclean.clean _, _, hexpr⟩ hf with
            hv | ⟨object, c, ty, k, hcomponent, -⟩
          · exact hv
          · cases hexpr.symm.trans hcomponent

/-- A component of the name `n` is no place to write to. -/
theorem resolveComponent_resolves {o o' : NodeId × Run} {object' : Expr} {c : Component}
    {span span' : Span} (h : run.Resolves n run' o o' object' fs) (hbefore : Run.Spotless o.2)
    (hclean : Run.Spotless (finishExpr (judgeComponent o.2.tree o.1 c span) span o.2).2) :
    run.Resolves n run' (finishExpr (judgeComponent o.2.tree o.1 c span) span o.2)
      (finishExpr (judgeComponent o'.2.tree o'.1 c span') span' o'.2)
      (.component object' c span') fs := by
  have hagree : o.2.tree.Agrees o'.2.tree o.1 o'.1 := (List.forall₂_cons.mp h.agree).1
  have hmirrors := h.toMirrors.finish (judgeComponent o.2.tree o.1 c span)
    (judgeComponent o'.2.tree o'.1 c span') span span' (fun _ hc => hc) (fun _ hc => hc)
    (judgeComponent_follows hagree hbefore.clean hclean.judged)
  rw [List.append_nil] at hmirrors
  refine { hmirrors with target := ?_ }
  rw [finishExpr_run] at hclean ⊢
  rw [finishExpr_run]
  have hexpr := expr?_judgement (judgeComponent o.2.tree o.1 c span) span o.2.tree
  have hexpr' := expr?_judgement (judgeComponent o'.2.tree o'.1 c span') span' o'.2.tree
  have hobject := expr?_judgement_of_has (judgeComponent o.2.tree o.1 c span) span hagree.has
  have hobject' := expr?_judgement_of_has (judgeComponent o'.2.tree o'.1 c span') span' hagree.has'
  refine ⟨fun hv => ?_, fun hf => ?_⟩
  · obtain ⟨name, b, ty, k, href, -⟩ := hv
    cases hexpr.symm.trans href
  · obtain ⟨name, b, ty, k, href, -⟩ | ⟨object, c', ty, k, hcomponent, hv⟩ :=
      isPlace_of_assignmentFaults ⟨hclean.clean _, _, hexpr⟩ hf
    · cases hexpr.symm.trans href
    · obtain rfl : o.1 = object := by
        have hsame := Option.some.inj (hexpr.symm.trans hcomponent)
        simp only [judgeComponent, ExprNode.mk.injEq, ExprKind.component.injEq] at hsame
        exact hsame.1.1
      have hvariable : o.2.tree.IsVariable o.1 := by
        rwa [Tree.IsVariable, hobject] at hv
      rcases h.target.names hvariable with ⟨⟨s, rfl⟩, hnone⟩ | ⟨hother, hplace⟩
      · -- the component of a wrong expression has a type
        have hspan := span_judgement (judgeComponent o'.2.tree o'.1 c span') span' o'.2.tree
          fun d hd => List.mem_singleton.mp hd ▸ hagree.has'
        rw [assignmentFaults_of_lost hexpr' (hobject'.trans hnone), hspan, Expr.lostPart, if_pos rfl]
      · rw [assignmentFaults_of_isPlace (.inr ⟨o'.1, c, _, _, hexpr', ?_⟩),
          Expr.lostPart_component hother]
        rwa [Tree.IsVariable, hobject']

/-! ### Calls -/

/-- Notes on declarations do not matter. -/
theorem Run.Resolves.note {x x' : NodeId × Run} (h : run.Resolves n run' x x' e' fs)
    (hk : x.2.tree.Keeps t) (hk' : x'.2.tree.Keeps t') :
    run.Resolves n run' (x.1, { x.2 with tree := t }) (x'.1, { x'.2 with tree := t' }) e' fs where
  left := h.left.note hk
  right := h.right.note hk'
  told := h.told
  agree := h.agree.imp fun _ _ ha => ha.keeps hk hk'
  target := h.target.keeps hk hk' (h.left.loose _ (List.mem_singleton_self _)).2
    (h.right.loose _ (List.mem_singleton_self _)).2

/-- A call is given up without a word. -/
theorem Run.Mirrors.rejects (h : run.Mirrors run' r r' ids ids' fs) {j : Judgement}
    (span span' : Span) (hc : ∀ c ∈ j.node.kind.children, c ∈ ids)
    (hclean : Run.Spotless (finishExpr j span r).2)
    (hname : ∀ name b, j.node.kind ≠ .ref name b)
    (hpart : ∀ object c, j.node.kind ≠ .component object c) :
    run.Resolves n run' (finishExpr j span r)
      (r'.tree.size, { r' with tree := (r'.tree.allocError span').1 }) e' fs where
  left := h.left.finish j span hc
  right := h.right.reject span' r'.notices
  told := h.told
  agree := by
    refine .cons ⟨?_, ?_, fun hu => ?_⟩ .nil
    · exact ((h.left.finish j span hc).loose _ (List.mem_singleton_self _)).2.has
    · exact ((h.right.reject span' r'.notices).loose _ (List.mem_singleton_self _)).2.has
    · have hself := Tree.node?_allocError_self (t := r'.tree) span'
      rw [Tree.untyped, Tree.hasErrors_of_node? hself, Tree.exprType, Tree.expr?,
        Tree.kind?_of_node? hself] at hu
      cases hu
  target := by
    refine Tree.Target.of_other hclean.clean ?_ hname hpart
    rw [finishExpr_run]
    exact expr?_judgement j span r.tree

theorem resolveUserCall_resolves (he : env.Linked n L env') (hl : r.Linked n L r')
    (h : run.Mirrors run' r r' ids ids' fs) {name : String} {function function' : NodeId}
    (hf : L.functions function function') (span span' : Span) (hbefore : r.Spotless)
    (hclean : Run.Spotless (resolveUserCall env name function ids span r).2) :
    run.Resolves n run' (resolveUserCall env name function ids span r)
      (resolveUserCall env' name function' ids' span' r') e' fs := by
  obtain ⟨f, f', hdecl, hdecl', htype, hparams⟩ := hl.tree.functions function function' hf
  rw [resolveUserCall_some hdecl] at hclean ⊢
  rw [resolveUserCall_some hdecl']
  have hmade : Run.Spotless
      (finishExpr (judgeUserCall env r.tree name function f ids span) span r).2 :=
    hclean.before ((Check.upholds_modifyFunction function _).upholds _)
  have hresolves : run.Resolves n run' _ _ e' _ := h.resolvesAlike
    (judgeUserCall env r.tree name function f ids span)
    (judgeUserCall env' r'.tree name function' f' ids' span') span span'
    (fun _ hc => hc) (fun _ hc => hc) hmade (fun _ _ => ExprKind.noConfusion)
    (fun _ _ => ExprKind.noConfusion)
    (judgeUserCall_follows he.isStatic hl.tree htype hparams h.agree hbefore.clean)
  exact hresolves.note ((Tree.Keeps.refl _).modifyKind _ fun k => k.bare_mapFunction _)
    ((Tree.Keeps.refl _).modifyKind _ fun k => k.bare_mapFunction _)

theorem resolveLibraryCall_resolves (he : env.Linked n L env')
    (h : run.Mirrors run' r r' ids ids' fs) {name : String} (span span' : Span)
    (hbefore : r.Spotless) (hclean : Run.Spotless (resolveLibraryCall env name ids span r).2) :
    run.Resolves n run' (resolveLibraryCall env name ids span r)
      (resolveLibraryCall env' name ids' span' r') e' fs := by
  cases hchoose : chooseOverload (env.library.overloads name) name (ids.map (argumentOf r.tree)) with
  | error kind =>
    -- the node of a call without overload is marked
    rw [resolveLibraryCall_error hchoose] at hclean
    have hmark := Tree.hasErrors_of_node? (Tree.node?_allocError_self (t := r.tree) span)
    exact absurd (hclean.unmarked r.tree.size) (by rw [hmark]; exact Bool.noConfusion)
  | ok found =>
    obtain ⟨f, faults⟩ := found
    have hrun := resolveLibraryCall_ok hchoose span
    rw [hrun] at hclean ⊢
    obtain rfl : faults = [] := by
      have hjudged := hclean.judged
      simp only [judgeLibraryCall, List.append_eq_nil_iff, List.map_eq_nil_iff] at hjudged
      exact hjudged.2
    rw [← he.library] at hchoose
    have hfixed := he.fixed.overloads name
    rw [← he.library] at hfixed
    rcases chooseOverload_weaken hfixed (argumentOf_weakens h.agree hbefore.clean) hchoose with
      hok | hnone
    · rw [resolveLibraryCall_ok hok]
      have hsaid := h.say (if f.deprecated then [.warning (.deprecatedFunction name) span] else [])
        _ (filterMap_warning f.deprecated (.deprecatedFunction name) span')
      exact hsaid.resolvesAlike (judgeLibraryCall env name f [] ids span)
        (judgeLibraryCall env' name f [] ids' span') span span'
        (fun _ hc => hc) (fun _ hc => hc) hclean (fun _ _ => ExprKind.noConfusion)
        (fun _ _ => ExprKind.noConfusion) (judgeLibraryCall_follows he.isStatic)
    · rw [resolveLibraryCall_error hnone]
      exact (h.say _ [] rfl).rejects span span' (fun _ hc => hc) hclean
        (fun _ _ => ExprKind.noConfusion) (fun _ _ => ExprKind.noConfusion)

theorem resolveCast_resolves (he : env.Linked n L env') {operand operand' : NodeId}
    (h : run.Mirrors run' r r' [operand] [operand'] fs) {ty : Ty} (span span' : Span)
    (hbefore : r.Spotless) (hclean : Run.Spotless (resolveCast env ty operand span r).2) :
    run.Resolves n run' (resolveCast env ty operand span r)
      (resolveCast env' ty operand' span' r') e' fs := by
  rw [resolveCast_run] at hclean ⊢
  rw [resolveCast_run]
  have hsaid := h.say (if castIsRedundant r.tree ty operand then
      [.warning (.redundantCast ty) span] else []) _
    (filterMap_warning (castIsRedundant r'.tree ty operand') (.redundantCast ty) span')
  exact hsaid.resolvesAlike (judgeCast env r.tree ty operand span)
    (judgeCast env' r'.tree ty operand' span') span span' (fun _ hc => hc) (fun _ hc => hc) hclean
    (fun _ _ => ExprKind.noConfusion) (fun _ _ => ExprKind.noConfusion)
    (judgeCast_follows he.isStatic (List.forall₂_cons.mp h.agree).1 hbefore.clean)

/-! ### All expressions -/

/-- An expression is resolved as before where the name `n` stands in some places of it, and
is wrong in these places only. -/
def Expr.ResolvesIn (n : String) (L : Links) (env env' : Env) (e : Expr) : Prop :=
  ∀ (e' : Expr) (fs : List (Fault × Span)) (run run' : Run), e.Replaced n e' fs →
    run.Linked n L run' → Run.Spotless (resolveExpr env e run).2 →
      run.Resolves n run' (resolveExpr env e run) (resolveExpr env' e' run') e' fs

/-- The same of expressions that are resolved one by one. -/
def MirrorIn (n : String) (L : Links) (env env' : Env) (es : List Expr) : Prop :=
  ∀ (es' : List Expr) (fs : List (Fault × Span)) (run run' : Run),
    Piecewise (Expr.Replaced n) es es' fs → run.Linked n L run' →
      Run.Spotless (resolveExprs env es run).2 →
        run.Mirrors run' (resolveExprs env es run).2 (resolveExprs env' es' run').2
          (resolveExprs env es run).1 (resolveExprs env' es' run').1 fs

section

variable {x y z w operand object left right : Expr} {es : List Expr}

theorem mirrorIn_nil : MirrorIn n L env env' [] := by
  intro es' fs run run' h hl hclean
  cases h
  exact .refl run run'

theorem mirrorIn_cons (hx : x.ResolvesIn n L env env') (hes : MirrorIn n L env env' es) :
    MirrorIn n L env env' (x :: es) := by
  intro es' fs run run' h hl hclean
  cases h with
  | cons head tail =>
    have hhead := hx _ _ run run' head hl (hclean.before ((upholds_resolveExprs env es).upholds _))
    exact hhead.toMirrors.trans (hes _ _ _ _ tail (hhead.linked hl) hclean)

theorem resolvesIn_integer (he : env.Linked n L env') (text : String) (span : Span) :
    (Expr.integer text span).ResolvesIn n L env env' := by
  intro e' fs run run' h hl hclean
  cases h with
  | name => exact resolveName_resolves he hl _ _
  | integer => exact run.resolves_literal run' _ _ rfl (fun _ _ => ExprKind.noConfusion) hclean

theorem resolvesIn_hex (he : env.Linked n L env') (text : String) (span : Span) :
    (Expr.hex text span).ResolvesIn n L env env' := by
  intro e' fs run run' h hl hclean
  cases h with
  | name => exact resolveName_resolves he hl _ _
  | hex => exact run.resolves_literal run' _ _ rfl (fun _ _ => ExprKind.noConfusion) hclean

theorem resolvesIn_float (he : env.Linked n L env') (text : String) (span : Span) :
    (Expr.float text span).ResolvesIn n L env env' := by
  intro e' fs run run' h hl hclean
  cases h with
  | name => exact resolveName_resolves he hl _ _
  | float => exact run.resolves_literal run' _ _ rfl (fun _ _ => ExprKind.noConfusion) hclean

theorem resolvesIn_string (he : env.Linked n L env') (text : String) (span : Span) :
    (Expr.string text span).ResolvesIn n L env env' := by
  intro e' fs run run' h hl hclean
  cases h with
  | name => exact resolveName_resolves he hl _ _
  | string =>
    refine (Run.Mirrors.refl run run').resolves (judgeString text span)
      (judgeString text _) span _ (fun _ hc => hc) (fun _ hc => hc) hclean
      (fun _ _ => ExprKind.noConfusion) (fun _ _ => ExprKind.noConfusion) fun hf => ⟨?_, .inl rfl⟩
    rw [judgeString, List.map_eq_nil_iff] at hf ⊢
    exact hf

theorem resolvesIn_ident (he : env.Linked n L env') (name : String) (span : Span) :
    (Expr.ident name span).ResolvesIn n L env env' := by
  intro e' fs run run' h hl hclean
  cases h with
  | name => exact resolveName_resolves he hl _ _
  | ident hname => exact resolveIdent_resolves he hl hname hclean

theorem resolvesIn_vector (he : env.Linked n L env') (hx : x.ResolvesIn n L env env')
    (hy : y.ResolvesIn n L env env') (hz : z.ResolvesIn n L env env') (span : Span) :
    (Expr.vector x y z span).ResolvesIn n L env env' := by
  intro e' fs run run' h hl hclean
  cases h with
  | name => exact resolveName_resolves he hl _ _
  | vector rx ry rz =>
    have hparts := mirrorIn_cons hx (mirrorIn_cons hy (mirrorIn_cons hz mirrorIn_nil)) _ _ run run'
      (.cons rx (.cons ry (.cons rz .nil))) hl hclean.operands
    rw [List.append_nil, ← List.append_assoc] at hparts
    exact hparts.resolvesAlike (judgeVector _ _ _ _) (judgeVector _ _ _ _) span _ (fun _ hc => hc)
      (fun _ hc => hc) hclean (fun _ _ => ExprKind.noConfusion) (fun _ _ => ExprKind.noConfusion)
      (judgeVector_follows hparts.agree hclean.operands.clean)

theorem resolvesIn_rotation (he : env.Linked n L env') (hx : x.ResolvesIn n L env env')
    (hy : y.ResolvesIn n L env env') (hz : z.ResolvesIn n L env env')
    (hw : w.ResolvesIn n L env env') (span : Span) :
    (Expr.rotation x y z w span).ResolvesIn n L env env' := by
  intro e' fs run run' h hl hclean
  cases h with
  | name => exact resolveName_resolves he hl _ _
  | rotation rx ry rz rs =>
    have hparts := mirrorIn_cons hx (mirrorIn_cons hy (mirrorIn_cons hz
      (mirrorIn_cons hw mirrorIn_nil))) _ _ run run'
      (.cons rx (.cons ry (.cons rz (.cons rs .nil)))) hl hclean.operands
    rw [List.append_nil, ← List.append_assoc, ← List.append_assoc] at hparts
    exact hparts.resolvesAlike (judgeRotation _ _ _ _ _) (judgeRotation _ _ _ _ _) span _
      (fun _ hc => hc) (fun _ hc => hc) hclean (fun _ _ => ExprKind.noConfusion)
      (fun _ _ => ExprKind.noConfusion) (judgeRotation_follows hparts.agree hclean.operands.clean)

theorem resolvesIn_list (he : env.Linked n L env') (hes : MirrorIn n L env env' es) (span : Span) :
    (Expr.list es span).ResolvesIn n L env env' := by
  intro e' fs run run' h hl hclean
  cases h with
  | name => exact resolveName_resolves he hl _ _
  | list res =>
    have hparts := hes _ _ run run' res hl hclean.operands
    exact hparts.resolvesAlike (judgeList _ _) (judgeList _ _) span _ (fun _ hc => hc)
      (fun _ hc => hc) hclean (fun _ _ => ExprKind.noConfusion) (fun _ _ => ExprKind.noConfusion)
      (judgeList_follows hparts.agree hclean.operands.clean)

theorem resolvesIn_component (he : env.Linked n L env') (ho : object.ResolvesIn n L env env')
    (c : Component) (span : Span) : (Expr.component object c span).ResolvesIn n L env env' := by
  intro e' fs run run' h hl hclean
  cases h with
  | name => exact resolveName_resolves he hl _ _
  | component robject =>
    exact resolveComponent_resolves (ho _ _ run run' robject hl hclean.operands) hclean.operands
      hclean

theorem resolvesIn_call (he : env.Linked n L env') (hes : MirrorIn n L env env' es)
    (name : String) (span : Span) : (Expr.call name es span).ResolvesIn n L env env' := by
  intro e' fs run run' h hl hclean
  cases h with
  | name => exact resolveName_resolves he hl _ _
  | call res =>
    have hbefore := hclean.operands
    have hargs := hes _ _ run run' res hl hbefore
    have hfound := he.functions.lookup name
    simp only [resolveExpr, Check.bind_run, resolveCall] at hclean ⊢
    generalize env.functions.lookup name = found at hfound hclean ⊢
    generalize env'.functions.lookup name = found' at hfound
    cases hfound with
    | none => exact resolveLibraryCall_resolves he hargs span _ hbefore hclean
    | some hf => exact resolveUserCall_resolves he (hargs.linked hl) hargs hf span _ hbefore hclean

theorem resolvesIn_binary (he : env.Linked n L env') (op : BinaryOp)
    (hleft : left.ResolvesIn n L env env') (hright : right.ResolvesIn n L env env') (span : Span) :
    (Expr.binary op left right span).ResolvesIn n L env env' := by
  intro e' fs run run' h hl hclean
  cases h with
  | name => exact resolveName_resolves he hl _ _
  | binary rleft rright =>
    have hbefore : Run.Spotless (resolveExpr env left run).2 :=
      hclean.operands.before ((upholds_resolveExpr env right).upholds _)
    have mleft := hleft _ _ run run' rleft hl hbefore
    have mright := (hright _ _ _ _ rright (mleft.linked hl) hclean.operands).toMirrors
    have mboth := mleft.toMirrors.trans mright
    have htarget := mleft.target.keeps mright.left.tree mright.right.tree
      (mleft.left.loose _ (List.mem_singleton_self _)).2
      (mleft.right.loose _ (List.mem_singleton_self _)).2
    obtain ⟨hal, hagree⟩ := List.forall₂_cons.mp mboth.agree
    exact mboth.resolves (judgeBinary env _ op _ _ span)
      (judgeBinary env' _ op _ _ _) span _ (fun _ hc => hc) (fun _ hc => hc) hclean
      (fun _ _ => ExprKind.noConfusion) (fun _ _ => ExprKind.noConfusion)
      (judgeBinary_follows he.isStatic hal (List.forall₂_cons.mp hagree).1 hclean.operands.clean
        htarget.faults)

theorem resolvesIn_prefixed (he : env.Linked n L env') (op : PrefixOp)
    (ho : operand.ResolvesIn n L env env') (span : Span) :
    (Expr.prefixed op operand span).ResolvesIn n L env env' := by
  intro e' fs run run' h hl hclean
  cases h with
  | name => exact resolveName_resolves he hl _ _
  | prefixed roperand =>
    have moperand := ho _ _ run run' roperand hl hclean.operands
    exact moperand.toMirrors.resolves (judgePrefixed env _ op _ span)
      (judgePrefixed env' _ op _ _) span _ (fun _ hc => hc) (fun _ hc => hc) hclean
      (fun _ _ => ExprKind.noConfusion) (fun _ _ => ExprKind.noConfusion)
      (judgePrefixed_follows he.isStatic (List.forall₂_cons.mp moperand.agree).1
        hclean.operands.clean moperand.target.faults)

theorem resolvesIn_postfixed (he : env.Linked n L env') (op : PostfixOp)
    (ho : operand.ResolvesIn n L env env') (span : Span) :
    (Expr.postfixed op operand span).ResolvesIn n L env env' := by
  intro e' fs run run' h hl hclean
  cases h with
  | name => exact resolveName_resolves he hl _ _
  | postfixed roperand =>
    have moperand := ho _ _ run run' roperand hl hclean.operands
    exact moperand.toMirrors.resolves (judgePostfixed env _ op _ span)
      (judgePostfixed env' _ op _ _) span _ (fun _ hc => hc) (fun _ hc => hc) hclean
      (fun _ _ => ExprKind.noConfusion) (fun _ _ => ExprKind.noConfusion)
      (judgePostfixed_follows he.isStatic (List.forall₂_cons.mp moperand.agree).1
        hclean.operands.clean moperand.target.faults)

theorem resolvesIn_cast (he : env.Linked n L env') (ty : Ty) (ho : operand.ResolvesIn n L env env')
    (span : Span) : (Expr.cast ty operand span).ResolvesIn n L env env' := by
  intro e' fs run run' h hl hclean
  cases h with
  | name => exact resolveName_resolves he hl _ _
  | cast roperand =>
    have moperand := ho _ _ run run' roperand hl hclean.operands
    exact resolveCast_resolves he moperand.toMirrors span _ hclean.operands hclean

theorem resolvesIn_paren (he : env.Linked n L env') (ho : operand.ResolvesIn n L env env')
    (span : Span) : (Expr.paren operand span).ResolvesIn n L env env' := by
  intro e' fs run run' h hl hclean
  cases h with
  | name => exact resolveName_resolves he hl _ _
  | paren roperand =>
    have moperand := ho _ _ run run' roperand hl hclean.operands
    exact moperand.toMirrors.resolvesAlike (judgeParen env _ _ span)
      (judgeParen env' _ _ _) span _ (fun _ hc => hc) (fun _ hc => hc) hclean
      (fun _ _ => ExprKind.noConfusion) (fun _ _ => ExprKind.noConfusion)
      (judgeParen_follows he.isStatic (List.forall₂_cons.mp moperand.agree).1)

end

mutual

theorem resolvesIn (he : env.Linked n L env') : (e : Expr) → e.ResolvesIn n L env env'
  | .integer text span => resolvesIn_integer he text span
  | .hex text span => resolvesIn_hex he text span
  | .float text span => resolvesIn_float he text span
  | .string text span => resolvesIn_string he text span
  | .ident name span => resolvesIn_ident he name span
  | .vector x y z span =>
    resolvesIn_vector he (resolvesIn he x) (resolvesIn he y) (resolvesIn he z) span
  | .rotation x y z w span =>
    resolvesIn_rotation he (resolvesIn he x) (resolvesIn he y) (resolvesIn he z) (resolvesIn he w)
      span
  | .list items span => resolvesIn_list he (mirrorIn he items) span
  | .component object c span => resolvesIn_component he (resolvesIn he object) c span
  | .call name args span => resolvesIn_call he (mirrorIn he args) name span
  | .binary op left right span =>
    resolvesIn_binary he op (resolvesIn he left) (resolvesIn he right) span
  | .prefixed op operand span => resolvesIn_prefixed he op (resolvesIn he operand) span
  | .postfixed op operand span => resolvesIn_postfixed he op (resolvesIn he operand) span
  | .cast ty operand span => resolvesIn_cast he ty (resolvesIn he operand) span
  | .paren inner span => resolvesIn_paren he (resolvesIn he inner) span

theorem mirrorIn (he : env.Linked n L env') : (es : List Expr) → MirrorIn n L env env' es
  | [] => mirrorIn_nil
  | e :: rest => mirrorIn_cons (resolvesIn he e) (mirrorIn he rest)

end

/-- **An expression with the name `n` in some places is wrong in these places only.** -/
theorem resolveExpr_resolves (he : env.Linked n L env') (e : Expr) {e' : Expr}
    {fs : List (Fault × Span)} {run run' : Run} (h : e.Replaced n e' fs)
    (hl : run.Linked n L run') (hclean : Run.Spotless (resolveExpr env e run).2) :
    run.Resolves n run' (resolveExpr env e run) (resolveExpr env' e' run') e' fs :=
  resolvesIn he e e' fs run run' h hl hclean

end Lsl
