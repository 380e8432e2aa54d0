/- # Where labels stand

The labels found beforehand carry the numbers of the scopes they stand in: that
of the scope that is looked at, or one that is opened while looking. So the
labels of one part of a body are told from those of the next by their scopes.

Key definitions: `SitesWithin`, `Tree.LabelAt`, `Tree.labelSite?`.
Key theorems: `labelsOfStmts_within`, `Tree.LabelAt.grows`, `Tree.Grows.labelSite?`.
-/
import Lsl.Labels
import Lsl.Proofs.Tree.Growth

namespace Lsl

/-- Labels found in scope `scope` or in scopes opened after number `last`; the
first component is the number given out last. -/
structure SitesWithin (scope last : Nat) (found : Nat × List LabelSite) : Prop where
  le : last ≤ found.1
  site : ∀ s ∈ found.2, s.scopeId = scope ∨ (last < s.scopeId ∧ s.scopeId ≤ found.1)

theorem SitesWithin.nil (scope last : Nat) : SitesWithin scope last (last, []) :=
  ⟨Nat.le_refl _, by simp⟩

theorem SitesWithin.append {scope last : Nat} {r r' : Nat × List LabelSite}
    (h : SitesWithin scope last r) (g : SitesWithin scope r.1 r') :
    SitesWithin scope last (r'.1, r.2 ++ r'.2) where
  le := Nat.le_trans h.le g.le
  site s hs := by
    have := h.le
    have := g.le
    rcases List.mem_append.mp hs with hs | hs
    · have := h.site s hs
      omega
    · have := g.site s hs
      omega

/-- Seen from outside, all labels of an inner scope are in scopes opened later. -/
theorem SitesWithin.inner {last : Nat} {r : Nat × List LabelSite}
    (h : SitesWithin (last + 1) (last + 1) r) (scope : Nat) : SitesWithin scope last r where
  le := Nat.le_of_succ_le h.le
  site s hs := by
    have := h.le
    have := h.site s hs
    omega

mutual

theorem labelsOfStmts_within : ∀ (scope index last : Nat) (stmts : List Stmt),
    SitesWithin scope last (labelsOfStmts scope index last stmts)
  | scope, _, last, [] => .nil scope last
  | scope, index, last, s :: rest =>
    (labelsOfStmt_within scope index last s).append (labelsOfStmts_within scope (index + 1) _ rest)

theorem labelsOfStmt_within : ∀ (scope index last : Nat) (stmt : Stmt),
    SitesWithin scope last (labelsOfStmt scope index last stmt)
  | scope, _, last, .block (.mk stmts _) _ =>
    (labelsOfStmts_within (last + 1) 0 (last + 1) stmts).inner scope
  | scope, index, last, .plain stmt => labelsOfPlain_within scope index last stmt

theorem labelsOfPlain_within : ∀ (scope index last : Nat) (stmt : PlainStmt),
    SitesWithin scope last (labelsOfPlain scope index last stmt)
  | scope, _, last, .label name span => ⟨Nat.le_refl _, by simp [labelsOfPlain]⟩
  | scope, _, last, .branch _ thenBranch elseIfs elseBranch _ =>
    ((labelsOfBody_within scope last thenBranch).append
      (labelsOfElseIfs_within scope _ elseIfs)).append (labelsOfElse_within scope _ elseBranch)
  | scope, _, last, .whileLoop _ body _ => labelsOfBody_within scope last body
  | scope, _, last, .doWhile body _ _ => labelsOfBody_within scope last body
  | scope, _, last, .forLoop _ _ _ body _ => labelsOfBody_within scope last body
  | scope, _, last, .empty _ => .nil scope last
  | scope, _, last, .expr .. => .nil scope last
  | scope, _, last, .declare .. => .nil scope last
  | scope, _, last, .ret .. => .nil scope last
  | scope, _, last, .jump .. => .nil scope last
  | scope, _, last, .stateChange .. => .nil scope last

theorem labelsOfBody_within : ∀ (scope last : Nat) (body : Stmt),
    SitesWithin scope last (labelsOfBody last body)
  | scope, last, .block (.mk stmts _) _ =>
    (labelsOfStmts_within (last + 1) 0 (last + 1) stmts).inner scope
  | scope, last, .plain stmt => (labelsOfPlain_within (last + 1) 0 (last + 1) stmt).inner scope

theorem labelsOfElseIfs_within : ∀ (scope last : Nat) (elseIfs : List ElseIf),
    SitesWithin scope last (labelsOfElseIfs last elseIfs)
  | scope, last, [] => .nil scope last
  | scope, last, .mk _ body _ :: rest =>
    (labelsOfBody_within scope last body).append (labelsOfElseIfs_within scope _ rest)

theorem labelsOfElse_within : ∀ (scope last : Nat) (body : Option Stmt),
    SitesWithin scope last (labelsOfElse last body)
  | scope, last, none => .nil scope last
  | scope, last, some body => labelsOfBody_within scope last body

end

/-! ### Labels in the tree -/

/-- The node of a label that was found beforehand. -/
def Tree.LabelAt (t : Tree) (id : NodeId) (site : LabelSite) : Prop :=
  ∃ s, t.stmt? id = some s ∧ s.kind.isLabel = true ∧ s.info.scopeId = site.scopeId
    ∧ s.info.index = site.index

/-- The place of a label, as its node has it. -/
def Tree.labelSite? (t : Tree) (id : NodeId) : Option LabelSite :=
  match t.stmt? id with
  | some ⟨.label name _, info⟩ => some ⟨name, t.span id, info.scopeId, info.index⟩
  | _ => none

/-- A label knows its place from the start. -/
theorem StmtNode.site_of_outline {s s' : StmtNode} (h : s'.outline = s.outline)
    (hl : s.kind.isLabel = true) :
    s'.kind.isLabel = true ∧ s'.info.scopeId = s.info.scopeId ∧ s'.info.index = s.info.index := by
  rcases s with ⟨kind, info⟩
  rcases s' with ⟨kind', info'⟩
  cases kind <;> simp [StmtKind.isLabel] at hl
  cases kind' <;> simp_all [StmtNode.outline, StmtKind.outline, StmtKind.isLabel]

theorem StmtNode.isLabel_of_outline {s s' : StmtNode} (h : s'.outline = s.outline) :
    s'.kind.isLabel = s.kind.isLabel := by
  rcases s with ⟨kind, info⟩
  rcases s' with ⟨kind', info'⟩
  cases kind <;> cases kind' <;> simp_all [StmtNode.outline, StmtKind.outline, StmtKind.isLabel]

theorem Tree.LabelAt.grows {t t' : Tree} {P : Nat → Prop} {id : NodeId} {site : LabelSite}
    (h : t.LabelAt id site) (hg : t.Grows P t') : t'.LabelAt id site := by
  obtain ⟨s, hs, hl, hscope, hindex⟩ := h
  obtain ⟨s', hs', ho, -⟩ := hg.stmt? hs
  obtain ⟨hl', hscope', hindex'⟩ := StmtNode.site_of_outline ho hl
  exact ⟨s', hs', hl', hscope'.trans hscope, hindex'.trans hindex⟩

theorem Tree.labelSite?_eq_some {t : Tree} {id : NodeId} {site : LabelSite} :
    t.labelSite? id = some site ↔ ∃ jumps info, t.stmt? id = some ⟨.label site.name jumps, info⟩
      ∧ t.span id = site.span ∧ info.scopeId = site.scopeId ∧ info.index = site.index := by
  rcases site with ⟨name, span, scopeId, index⟩
  unfold labelSite?
  split
  · rename_i found jumps info hs
    simp only [Option.some.injEq, LabelSite.mk.injEq, hs]
    constructor
    · rintro ⟨rfl, rfl, rfl, rfl⟩
      exact ⟨jumps, info, rfl, rfl, rfl, rfl⟩
    · rintro ⟨jumps', info', ho, rfl, rfl, rfl⟩
      simp_all
  · rename_i hno
    simp only [reduceCtorEq, false_iff]
    rintro ⟨jumps, info, hs, -⟩
    exact hno name jumps info hs

theorem Tree.Grows.labelSite? {t t' : Tree} {P : Nat → Prop} {id : NodeId} {site : LabelSite}
    (hg : t.Grows P t') (h : t.labelSite? id = some site) : t'.labelSite? id = some site := by
  obtain ⟨jumps, info, hs, hspan, hscope, hindex⟩ := labelSite?_eq_some.mp h
  obtain ⟨⟨kind, info'⟩, hs', ho, -⟩ := hg.stmt? hs
  obtain ⟨-, hscope', hindex'⟩ := StmtNode.site_of_outline ho rfl
  obtain ⟨jumps', rfl⟩ : ∃ jumps', kind = .label site.name jumps' := by
    cases kind <;> simp_all [StmtNode.outline, StmtKind.outline]
  refine labelSite?_eq_some.mpr ⟨jumps', info', hs', ?_, hscope'.trans hscope,
    hindex'.trans hindex⟩
  rw [hg.span (has_of_kind? (stmt?_eq_some.mp hs)), hspan]

end Lsl
