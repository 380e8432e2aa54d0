/- # What statements do to the flow of control

A statement returns if it is a return or if every scope in it does, and it jumps
if it is a jump or if every scope in it performs one to the same label. This is
what the facts about a statement say, and it stays so: a statement keeps its
scopes, and a scope what it says about itself.

Key definitions: `Tree.place?`, `Tree.Jumps`, `Tree.Returns`, `Tree.Performs`.
Key theorems: `Tree.returns_of_facts`, `Tree.performs_of_facts`.
-/
import Lsl.Proofs.Check.Within

namespace Lsl

variable {script : Script} {library : Catalog} {t t' : Tree} {P N : Nat → Prop} {i : Nat}

/-! ### Statements with scopes -/

namespace StmtKind

/-- The scopes that control may enter from a statement. -/
def arms : StmtKind → List NodeId
  | block scope => [scope]
  | branch _ thenScope elseIfs elseScope => thenScope :: elseIfs.map (·.2) ++ elseScope.toList
  | whileLoop _ body | doWhile body _ | forLoop _ _ _ body => [body]
  | _ => []

/-- Whether a statement does what all its scopes do. -/
def exhaustive : StmtKind → Bool
  | block _ | branch _ _ _ (some _) => true
  | _ => false

theorem arms_outline (k : StmtKind) : k.outline.arms = k.arms := by cases k <;> rfl

theorem exhaustive_outline (k : StmtKind) : k.outline.exhaustive = k.exhaustive := by
  cases k <;> rfl

/-- The scopes are among the parts, in their order. -/
theorem arms_sublist (k : StmtKind) : k.arms.Sublist k.children := by
  cases k with
  | branch cond thenScope elseIfs elseScope =>
    refine List.Sublist.cons _ (List.Sublist.cons_cons _ (List.Sublist.append ?_ (.refl _)))
    induction elseIfs with
    | nil => exact .refl _
    | cons arm rest ih => exact .cons _ (.cons_cons _ ih)
  | whileLoop cond body => exact .cons _ (.refl _)
  | doWhile body cond => exact .cons_cons _ (.cons _ (.refl _))
  | forLoop init cond step body => exact List.sublist_append_right _ _
  | block scope => exact .refl _
  | _ => exact List.nil_sublist _

end StmtKind

theorem StmtNode.arms_of_outline {s s' : StmtNode} (h : s'.outline = s.outline) :
    s'.kind.arms = s.kind.arms ∧ s'.kind.exhaustive = s.kind.exhaustive := by
  have hk : s'.kind.outline = s.kind.outline := congrArg StmtNode.kind h
  constructor
  · rw [← StmtKind.arms_outline, hk, StmtKind.arms_outline]
  · rw [← StmtKind.exhaustive_outline, hk, StmtKind.exhaustive_outline]

theorem StmtNode.jump_of_outline {s : StmtNode} {name : String} {target : Option NodeId}
    {always : Bool} {info : StmtInfo}
    (h : s.outline = StmtNode.outline ⟨.jump name target always, info⟩) :
    ∃ always' info', s = ⟨.jump name target always', info'⟩ := by
  rcases s with ⟨kind, info'⟩
  cases kind <;> simp_all [StmtNode.outline, StmtKind.outline]

namespace Tree

/-! ### The places of statements -/

/-- What is known of a statement from its place, but whether it is the last. -/
def place? (t : Tree) (id : NodeId) : Option StmtInfo := (t.kind? id).bind (·.placing?)

theorem place?_of_stmt? {s : StmtNode} (h : t.stmt? i = some s) :
    t.place? i = some { s.info with isLast := false } := by
  simp [place?, stmt?_eq_some.mp h, NodeKind.placing?, NodeKind.info?]

theorem stmt?_of_place? {info : StmtInfo} (h : t.place? i = some info) :
    ∃ s, t.stmt? i = some s ∧ { s.info with isLast := false } = info := by
  obtain ⟨k, hk, hp⟩ := Option.bind_eq_some_iff.mp h
  cases k with
  | stmt s => exact ⟨s, stmt?_eq_some.mpr hk, Option.some.inj hp⟩
  | _ => cases hp

theorem isLive_eq : t.isLive i = (t.place? i).all (!·.dead.isDead) := by
  rcases hs : t.stmt? i with _ | s
  · rcases hp : t.place? i with _ | info
    · simp [isLive, hs]
    · obtain ⟨s, hs', -⟩ := stmt?_of_place? hp
      simp [hs] at hs'
  · simp [isLive, hs, place?_of_stmt? hs]

theorem isLive_of_place? {info : StmtInfo} (h : t.place? i = some info) :
    t.isLive i = true ↔ info.dead = .live := by
  simp [isLive_eq, h, Reach.isDead]

/-- A statement keeps its place, unless it is the one that gets it. -/
theorem Grows.place? (hg : t.Grows P t') (hi : t.Has i) (hp : ¬ P i) : t'.place? i = t.place? i := by
  obtain ⟨n, hn⟩ := exists_node? hi
  obtain ⟨n', hn', hgrow⟩ := hg.nodes i n hn
  simp only [Tree.place?, kind?_of_node? hn, kind?_of_node? hn', Option.bind_some]
  exact hgrow.place hp

theorem Grows.isLive (hg : t.Grows P t') (hi : t.Has i) (hp : ¬ P i) : t'.isLive i = t.isLive i := by
  rw [isLive_eq, isLive_eq, hg.place? hi hp]

theorem place?_append {id : Nat} {tr tr' : Tracker} {facts : Facts} {reach : Reach}
    (h : t.append tr id facts = ⟨t', tr', .ok reach⟩) :
    t'.place? id = some { placeInfo tr id facts reach with isLast := false } := by
  obtain ⟨s, c, hs, -, -, rfl⟩ := append_ok h
  obtain ⟨n, hn, hk⟩ := kind?_eq_some.mp (stmt?_eq_some.mp hs)
  obtain ⟨stays, hp⟩ := node?_place id tr.statements.getLast? (placeInfo tr id facts reach)
    (facts.jumpOf reach).isSome hn
  simp [place?, kind?_of_node? hp, hk, NodeKind.mapStmt, NodeKind.placing?, NodeKind.info?,
    StmtNode.placed]

/-- The statement is live and control may go on behind it, as far as returns go. -/
def Passes (t : Tree) (id : NodeId) : Prop :=
  ∃ info, t.place? id = some info ∧ info.dead = .live ∧ info.returnPath = none

/-! ### Jumps -/

/-- The jump `j` leads to the label `l`. -/
def Jumps (t : Tree) (j l : NodeId) : Prop :=
  ∃ name always info, t.stmt? j = some ⟨.jump name (some l) always, info⟩

theorem Jumps.grows {j l : Nat} (h : t.Jumps j l) (hg : t.Grows P t') : t'.Jumps j l := by
  obtain ⟨name, always, info, hj⟩ := h
  obtain ⟨s', hs', ho, -⟩ := hg.stmt? hj
  obtain ⟨always', info', rfl⟩ := StmtNode.jump_of_outline ho
  exact ⟨name, always', info', hs'⟩

/-- No old node becomes a jump. -/
theorem Jumps.of_grows {j l : Nat} (h : t'.Jumps j l) (hg : t.Grows P t') (hj : t.Has j) :
    t.Jumps j l := by
  obtain ⟨name, always, info, hj'⟩ := h
  obtain ⟨n, hn⟩ := exists_node? hj
  obtain ⟨k', hk', ho⟩ := hg.kind? (kind?_of_node? hn)
  obtain rfl := Option.some.inj ((stmt?_eq_some.mp hj').symm.trans hk')
  obtain ⟨s, hs, ho'⟩ := NodeKind.eq_stmt_of_outline ho.symm
  obtain ⟨always', info', rfl⟩ := StmtNode.jump_of_outline ho'
  exact ⟨name, always', info', stmt?_eq_some.mpr (by rw [kind?_of_node? hn, hs])⟩

/-- A label of the scope with this number. -/
def LabelIn (t : Tree) (label : NodeId) (scopeId : Nat) : Prop :=
  ∃ s, t.stmt? label = some s ∧ s.kind.isLabel = true ∧ s.info.scopeId = scopeId

theorem LabelIn.grows {label n : Nat} (h : t.LabelIn label n) (hg : t.Grows P t') :
    t'.LabelIn label n := by
  obtain ⟨s, hs, hl, hscope⟩ := h
  obtain ⟨s', hs', ho, -⟩ := hg.stmt? hs
  obtain ⟨hl', hscope', -⟩ := StmtNode.site_of_outline ho hl
  exact ⟨s', hs', hl', hscope'.trans hscope⟩

theorem LabelIn.unique {label n m : Nat} (h : t.LabelIn label n) (g : t.LabelIn label m) :
    n = m := by
  obtain ⟨s, hs, -, rfl⟩ := h
  obtain ⟨s', hs', -, rfl⟩ := g
  rw [Option.some.inj (hs.symm.trans hs')]

/-- The label of a jump is where the jump says. -/
def Aims (t : Tree) (j : ConstantJump) : Prop := t.LabelIn j.label j.targetScope

/-! ### What statements do -/

/-- Every way through the statement returns. -/
inductive Returns (t : Tree) (id : NodeId) : Prop where
  | ret (value : Option NodeId) (info : StmtInfo) (h : t.stmt? id = some ⟨.ret value, info⟩)
  | scopes (s : StmtNode) (h : t.stmt? id = some s) (he : s.kind.exhaustive = true)
    (harms : ∀ x ∈ s.kind.arms, ∃ c, t.scope? x = some c ∧ c.hasReturnPath = true)

/-- The statement always performs the jump: it is one, or all its scopes perform
one to the same label. A jump of an only scope leads out of it. -/
inductive Performs (t : Tree) (id : NodeId) (j : ConstantJump) : Prop where
  | jump (h : t.Jumps id j.label)
  | scopes (s : StmtNode) (h : t.stmt? id = some s) (he : s.kind.exhaustive = true)
    (harms : ∀ x ∈ s.kind.arms, ∃ c, t.scope? x = some c ∧ ∃ i ∈ c.constantJumps,
      i.label = j.label ∧ (s.kind.arms = [x] → i.targetScope ≠ c.scopeId))

theorem Returns.grows (h : t.Returns i) (hg : t.Grows P t') : t'.Returns i := by
  cases h with
  | ret value info h =>
    obtain ⟨⟨kind, info'⟩, hs', ho, -⟩ := hg.stmt? h
    cases kind <;> simp [StmtNode.outline, StmtKind.outline] at ho
    exact .ret _ info' hs'
  | scopes s h he harms =>
    obtain ⟨s', hs', ho, -⟩ := hg.stmt? h
    obtain ⟨harms', hex⟩ := StmtNode.arms_of_outline ho
    refine .scopes s' hs' (hex.trans he) fun x hx => ?_
    obtain ⟨c, hc, hret⟩ := harms x (harms' ▸ hx)
    exact ⟨c, hg.scope? hc, hret⟩

theorem Performs.grows {j : ConstantJump} (h : t.Performs i j) (hg : t.Grows P t') :
    t'.Performs i j := by
  cases h with
  | jump h => exact .jump (h.grows hg)
  | scopes s h he harms =>
    obtain ⟨s', hs', ho, -⟩ := hg.stmt? h
    obtain ⟨harms', hex⟩ := StmtNode.arms_of_outline ho
    refine .scopes s' hs' (hex.trans he) fun x hx => ?_
    obtain ⟨c, hc, k, hk, hlabel, honly⟩ := harms x (harms' ▸ hx)
    exact ⟨c, hg.scope? hc, k, hk, hlabel, fun h => honly (harms' ▸ h)⟩

theorem scope?_of_sort? (h : t.sort? i = some .scope) : ∃ c, t.scope? i = some c := by
  obtain ⟨k, hk, hsort⟩ := Option.map_eq_some_iff.mp h
  cases k with
  | scope c => exact ⟨c, scope?_eq_some.mpr hk⟩
  | _ => cases hsort

/-- The scopes of the further arms of a branch. -/
theorem mem_others {arms : List NodeId} (ha : ∀ x ∈ arms, t.sort? x = some .scope) {x : NodeId}
    (hx : x ∈ arms) : ∃ c, t.scope? x = some c ∧ c ∈ arms.filterMap t.scope? := by
  obtain ⟨c, hc⟩ := scope?_of_sort? (ha x hx)
  exact ⟨c, hc, List.mem_filterMap.mpr ⟨x, hx, hc⟩⟩

theorem sort?_others {elseIfs : List (NodeId × NodeId)} {last : NodeId}
    (harms : ∀ arm ∈ elseIfs, t.IsTerm arm.1 ∧ t.sort? arm.2 = some .scope)
    (helse : t.sort? last = some .scope) :
    ∀ x ∈ elseIfs.map (·.2) ++ [last], t.sort? x = some .scope := by
  intro x hx
  rcases List.mem_append.mp hx with hx | hx
  · obtain ⟨arm, harm, rfl⟩ := List.mem_map.mp hx
    exact (harms arm harm).2
  · rw [List.mem_singleton.mp hx]
    exact helse

/-- What the facts say about returns is so. -/
theorem returns_of_facts {id index : Nat} {s : StmtNode} (hs : t.stmt? id = some s)
    (hf : t.FormedStmt script s.kind) (h : (t.facts id index).returns = true) : t.Returns id := by
  rcases s with ⟨kind, info⟩
  unfold facts at h
  rw [hs] at h
  cases kind with
  | ret value => exact .ret value info hs
  | block scope =>
    obtain ⟨c, hc⟩ := scope?_of_sort? hf
    simp only [hc, blockFacts] at h
    refine .scopes _ hs rfl fun x hx => ?_
    rw [List.mem_singleton.mp hx]
    exact ⟨c, hc, h⟩
  | branch cond thenScope elseIfs elseScope =>
    cases elseScope with
    | none => cases h
    | some last =>
      obtain ⟨-, hthen, harms, helse⟩ := hf
      obtain ⟨first, hfirst⟩ := scope?_of_sort? hthen
      simp only [hfirst, branchFacts, List.all_cons, Bool.and_eq_true, List.all_eq_true] at h
      refine .scopes _ hs rfl fun x hx => ?_
      rcases List.mem_cons.mp hx with rfl | hx
      · exact ⟨first, hfirst, h.1⟩
      · obtain ⟨c, hc, hmem⟩ := mem_others (sort?_others harms (helse last rfl)) hx
        exact ⟨c, hc, h.2 c hmem⟩
  | jump name target always =>
    cases target with
    | none => cases h
    | some l =>
      simp only at h
      split at h <;> cases h
  | _ => cases h

/-- What the facts say about jumps is so. -/
theorem performs_of_facts {id index : Nat} {s : StmtNode} (hs : t.stmt? id = some s)
    (hf : t.FormedStmt script s.kind)
    (haims : ∀ x c, t.scope? x = some c → ∀ j ∈ c.constantJumps, t.Aims j) {j : ConstantJump}
    (h : (t.facts id index).constantJump = some j) :
    t.Performs id j ∧ t.Aims j ∧ j.jumpIndex = index := by
  rcases s with ⟨kind, info⟩
  unfold facts at h
  rw [hs] at h
  cases kind with
  | jump name target always =>
    cases target with
    | none => cases h
    | some l =>
      obtain ⟨⟨kind, linfo⟩, hl, hlabel⟩ := hf l rfl
      simp only [hl] at h
      split at h
      · cases h
      · obtain rfl := Option.some.inj h
        exact ⟨.jump ⟨name, always, info, hs⟩, ⟨_, hl, hlabel, rfl⟩, rfl⟩
  | block scope =>
    obtain ⟨c, hc⟩ := scope?_of_sort? hf
    simp only [hc, blockFacts] at h
    obtain ⟨i, hi, rfl⟩ := Option.map_eq_some_iff.mp h
    have hmem := List.mem_of_find?_eq_some hi
    have hleaves : i.targetScope ≠ c.scopeId := by simpa using List.find?_some hi
    refine ⟨.scopes _ hs rfl fun x hx => ?_, haims scope c hc i hmem, rfl⟩
    rw [List.mem_singleton.mp hx]
    exact ⟨c, hc, i, hmem, rfl, fun _ => hleaves⟩
  | branch cond thenScope elseIfs elseScope =>
    cases elseScope with
    | none => cases h
    | some last =>
      obtain ⟨-, hthen, harms, helse⟩ := hf
      obtain ⟨first, hfirst⟩ := scope?_of_sort? hthen
      simp only [hfirst, branchFacts] at h
      obtain ⟨i, hi, rfl⟩ := Option.map_eq_some_iff.mp h
      have hmem := List.mem_of_find?_eq_some hi
      have hcommon := List.find?_some hi
      simp only [List.all_eq_true, List.any_eq_true, beq_iff_eq] at hcommon
      -- a branch has at least two arms
      have hmany : ∀ x, (StmtKind.branch cond thenScope elseIfs (some last)).arms ≠ [x] := by
        intro x
        simp [StmtKind.arms]
      refine ⟨.scopes _ hs rfl fun x hx => ?_, haims thenScope first hfirst i hmem, rfl⟩
      rcases List.mem_cons.mp hx with rfl | hx
      · exact ⟨first, hfirst, i, hmem, rfl, fun h => absurd h (hmany _)⟩
      · obtain ⟨c, hc, hother⟩ := mem_others (sort?_others harms (helse last rfl)) hx
        obtain ⟨k, hk, hlabel⟩ := hcommon c hother
        exact ⟨c, hc, k, hk, hlabel, fun h => absurd h (hmany _)⟩
  | _ => cases h

end Tree

end Lsl
