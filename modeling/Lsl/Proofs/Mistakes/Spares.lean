/- # Expressions leave the rest alone

Resolving an expression makes new nodes, which lie in each other and in nothing else,
and notes on declarations what refers to them. All other nodes stay what they were,
and so do the open scopes and the labels ahead.

Key definitions: `Tree.Loose`, `Run.Spares`.
Key theorems: `Run.Spares.finish`, `resolveExpr_spares`.
-/
import Lsl.Proofs.Mistakes.Trees
import Lsl.Proofs.Check.ExprActs

namespace Lsl

variable {run run' run'' : Run} {ids ids' : List NodeId}

/-! ### New nodes -/

/-- A node of an expression with its parts, which lies in no other yet. -/
def Tree.Loose (t : Tree) (i : NodeId) : Prop :=
  ∃ m, t.node? i = some m ∧ m.parent = none ∧ m.kind.gist = ⟨none, none, none⟩
    ∧ ∀ c ∈ m.kind.children, t.Has c

namespace Tree

variable {t t₁ : Tree} {i : NodeId}

theorem Loose.has (h : t.Loose i) : t.Has i := by
  obtain ⟨m, hm, -⟩ := h
  exact has_of_node? hm

theorem Loose.parent? (h : t.Loose i) : t.parent? i = none := by
  obtain ⟨m, hm, hp, -⟩ := h
  rw [parent?_of_node? hm, hp]

theorem Loose.held (h : t.Loose i) : ∀ c ∈ t.children i, t.Has c := by
  obtain ⟨m, hm, -, -, hheld⟩ := h
  rwa [children_of_kind? (kind?_of_node? hm)]

theorem Loose.keeps (h : t.Loose i) (hk : t.Keeps t₁) : t₁.Loose i := by
  obtain ⟨m, hm, hp, hgist, hheld⟩ := h
  obtain ⟨k, hnode, hbare⟩ := hk i m hm
  refine ⟨_, hnode, hp, (NodeKind.gist_of_bare hbare).trans hgist, fun c hc => hk.has (hheld c ?_)⟩
  rwa [← NodeKind.children_of_bare hbare]

theorem Loose.markError (h : t.Loose i) : (t.markError i).Loose i := by
  obtain ⟨m, hm, hp, hgist, hheld⟩ := h
  refine ⟨{ m with hasErrors := true }, ?_, hp, hgist,
    fun c hc => Nat.lt_of_lt_of_eq (hheld c hc) size_markError.symm⟩
  rw [node?_markError_of_orphan (by rw [parent?_of_node? hm, hp]), if_pos rfl, hm]
  rfl

end Tree

/-- New nodes were made, of which these lie in no other; all else is as it was. -/
structure Run.Spares (run run' : Run) (ids : List NodeId) : Prop where
  tree : run.tree.Keeps run'.tree
  loose : ∀ i : Nat, i ∈ ids → run.tree.size ≤ i ∧ run'.tree.Loose i
  scopes : run'.scopes = run.scopes
  labels : run'.labels = run.labels
  lastScope : run'.lastScope = run.lastScope

namespace Run.Spares

theorem refl (run : Run) : run.Spares run [] where
  tree := .refl _
  loose _ hi := by cases hi
  scopes := rfl
  labels := rfl
  lastScope := rfl

theorem trans (h : run.Spares run' ids) (g : run'.Spares run'' ids') :
    run.Spares run'' (ids ++ ids') where
  tree := h.tree.trans g.tree
  loose i hi := by
    rcases List.mem_append.mp hi with hi | hi
    · obtain ⟨hle, hloose⟩ := h.loose i hi
      exact ⟨hle, hloose.keeps g.tree⟩
    · obtain ⟨hle, hloose⟩ := g.loose i hi
      exact ⟨Nat.le_trans h.tree.size_le hle, hloose⟩
  scopes := g.scopes.trans h.scopes
  labels := g.labels.trans h.labels
  lastScope := g.lastScope.trans h.lastScope

/-- What is said does not matter. -/
theorem say (h : run.Spares run' ids) (notices : List Notice) :
    run.Spares { run' with notices } ids := { h with }

/-- A new node takes up what is loose. -/
theorem make (h : run.Spares run' ids) (e : ExprNode) (span : Span)
    (hc : ∀ c ∈ e.kind.children, c ∈ ids) (notices : List Notice) :
    run.Spares { run' with tree := (run'.tree.alloc (.expr e) span).1, notices } [run'.tree.size] where
  tree := h.tree.alloc _ span fun c hm => ⟨(h.loose c (hc c hm)).1, (h.loose c (hc c hm)).2.has⟩
  loose i hi := by
    rw [List.mem_singleton.mp hi]
    have hhas : ∀ c ∈ e.kind.children, run'.tree.Has c := fun c hm => (h.loose c (hc c hm)).2.has
    refine ⟨h.tree.size_le, _, Tree.node?_alloc_self (.expr e) span hhas, rfl, rfl, fun c hm => ?_⟩
    exact Nat.lt_of_lt_of_eq (Nat.lt_succ_of_lt (hhas c hm)) (Tree.size_alloc (.expr e) span).symm
  scopes := h.scopes
  labels := h.labels
  lastScope := h.lastScope

/-- An error takes the place of what is loose. -/
theorem reject (h : run.Spares run' ids) (span : Span) (notices : List Notice) :
    run.Spares { run' with tree := (run'.tree.allocError span).1, notices } [run'.tree.size] where
  tree := h.tree.allocError span
  loose i hi := by
    rw [List.mem_singleton.mp hi]
    exact ⟨h.tree.size_le, _, Tree.node?_allocError_self span, rfl, rfl, fun _ hc => by cases hc⟩
  scopes := h.scopes
  labels := h.labels
  lastScope := h.lastScope

/-- The tree is noted on. -/
theorem note (h : run.Spares run' ids) {t : Tree} (ht : run'.tree.Keeps t) :
    run.Spares { run' with tree := t } ids where
  tree := h.tree.trans ht
  loose i hi := ⟨(h.loose i hi).1, (h.loose i hi).2.keeps ht⟩
  scopes := h.scopes
  labels := h.labels
  lastScope := h.lastScope

theorem mark {id : Nat} (h : run.Spares run' [id]) (notices : List Notice) :
    run.Spares { run' with tree := run'.tree.markError id, notices } [id] where
  tree := h.tree.markError (h.loose id (List.mem_singleton_self id)).1
    (h.loose id (List.mem_singleton_self id)).2.parent?
  loose i hi := by
    obtain rfl := List.mem_singleton.mp hi
    exact ⟨(h.loose i hi).1, (h.loose i hi).2.markError⟩
  scopes := h.scopes
  labels := h.labels
  lastScope := h.lastScope

/-- The node of a judgement takes up its operands. -/
theorem finish (h : run.Spares run' ids) (j : Judgement) (span : Span)
    (hc : ∀ c ∈ j.node.kind.children, c ∈ ids) :
    run.Spares (finishExpr j span run').2 [(finishExpr j span run').1] := by
  rw [finishExpr_run]
  have hmade := h.make j.node span hc (run'.notices ++ j.faults.map fun x => .fault x.1 x.2)
  simp only [Judgement.tree]
  split
  · exact hmade
  · exact hmade.mark _

end Run.Spares

/-! ### Expressions -/

/-- The node of an expression takes up those of its operands. -/
theorem Expr.Made.spares {env : Env} {e : Expr} {r : NodeId × Run} (h : e.Made env ids run' r)
    (hids : run.Spares run' ids) : run.Spares r.2 [r.1] := by
  cases h with
  | judged j hj span said hsaid =>
    have hmade : run.Spares { run' with
        tree := j.tree span run'.tree
        notices := run'.notices ++ said ++ j.faults.map fun x => .fault x.1 x.2 }
        [run'.tree.size] := by
      have hnode := hids.make j.node span (fun c hc => hj.children ▸ hc)
        (run'.notices ++ said ++ j.faults.map fun x => .fault x.1 x.2)
      unfold Judgement.tree
      simp only
      split
      · exact hnode
      · exact hnode.mark _
    exact hmade.note (.noteUse _ _ j.node)
  | rejected ns hns span => exact hids.reject span _

theorem resolveExprs_spares (env : Env) (es : List Expr) (run : Run) :
    run.Spares (resolveExprs env es run).2 (resolveExprs env es run).1 := by
  induction es using exprs_induction generalizing run with
  | nil => exact .refl run
  | cons e rest hoperands hrest =>
    exact ((resolveExpr_made env e run).spares (hoperands run)).trans (hrest _)

/-- **Resolving an expression leaves the rest alone.** -/
theorem resolveExpr_spares (env : Env) (e : Expr) (run : Run) :
    run.Spares (resolveExpr env e run).2 [(resolveExpr env e run).1] :=
  (resolveExpr_made env e run).spares (resolveExprs_spares env e.operands run)

end Lsl
