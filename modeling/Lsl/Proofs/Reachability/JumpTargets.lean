/- # Where live jumps lead

A label is classified when it is met, by what is known of its scope so far. A
label behind a return is live if a live jump further up leads to it. A label
that a constant jump leads over, or that stands behind a jump out of the scope
or back, is dead even then; and so is a label behind a return that is only
jumped to from below. Apart from these four cases the label of a live jump is
live.

Key definitions: `ConstantJump.CutsOff`, `Script.LeadsToDead`.
Key theorems: `Script.label_live_of_liveJump`, `Script.deadLabel_of_liveJump`.
-/
import Lsl.Proofs.Reachability.ControlFlow

namespace Lsl

/-- A jump that is always taken keeps control from a place further down its
scope: it leaves the scope, leads over the place, or leads back. -/
def ConstantJump.CutsOff (j : ConstantJump) (scopeId place : Nat) : Reach → Prop
  | .afterJumpOut => j.targetScope ≠ scopeId
  | .jumpedOver => j.targetScope = scopeId ∧ place < j.targetIndex
  | .afterJumpBack => j.targetScope = scopeId ∧ j.targetIndex ≤ j.jumpIndex
  | .live | .afterReturn => False

theorem ConstantJump.cutsOff_of_blockedBy {scopeId place : Nat} {j : ConstantJump} {r : Reach}
    {ends : Option Nat} (h : Tracker.blockedBy scopeId place j = some (r, ends)) :
    j.CutsOff scopeId place r := by
  unfold Tracker.blockedBy at h
  split at h
  · rename_i hscope
    obtain ⟨rfl, -⟩ := Prod.mk.inj (Option.some.inj h)
    exact hscope
  · rename_i hscope
    split at h
    · rename_i hover
      obtain ⟨rfl, -⟩ := Prod.mk.inj (Option.some.inj h)
      exact ⟨not_not.mp hscope, hover.2⟩
    · split at h
      · rename_i hback
        obtain ⟨rfl, -⟩ := Prod.mk.inj (Option.some.inj h)
        exact ⟨not_not.mp hscope, hback.2⟩
      · cases h

namespace Tree

variable {script : Script} {library : Catalog} {t : Tree} {root : NodeId} {roots : List NodeId}

/-- Nothing is inside a label. -/
theorem Settled.eq_of_within_label (h : t.Settled script library roots root) {a label : NodeId}
    {s : StmtNode} (hs : t.stmt? label = some s) (hl : s.kind.isLabel = true)
    (ha : t.Within a label) : a = label := by
  obtain rfl | ⟨q, -, hq⟩ := ha.cases_tail
  · rfl
  · obtain ⟨k, hk, -, hmem⟩ := h.owned q label hq
    obtain rfl := Option.some.inj ((stmt?_eq_some.mp hs).symm.trans hk)
    have hchild := hmem (by simp [NodeKind.sort]) (by simp [NodeKind.sort])
    rcases s with ⟨kind, info⟩
    cases kind <;> simp [StmtKind.isLabel] at hl
    cases hchild

/-- A jump in a scope is in one of its statements; if it leads to a label of the
scope, that statement is not the label. -/
theorem Settled.statement_around (h : t.Settled script library roots root) {j label x : NodeId}
    {c : CodeScope} {k : Nat} (hat : t.At label x c k) (hjump : t.Jumps j label)
    (hjx : t.Within j x) : ∃ m a, m ≠ k ∧ c.statements[m]? = some a ∧ t.Within j a := by
  obtain ⟨name, always, info, hj⟩ := hjump
  have hf : t.FormedStmt script (.jump name (some label) always) :=
    h.formed j _ (stmt?_eq_some.mp hj)
  obtain ⟨s, hs, hl⟩ := hf label rfl
  obtain rfl | ⟨a, hja, ha⟩ := hjx.cases_tail
  · have hscope := hat.2.1
    rw [scope?_eq_some, stmt?_eq_some.mp hj] at hscope
    cases hscope
  · obtain ⟨m, -, -, hm⟩ := h.at_of_parent? ha hat.2.1
    refine ⟨m, a, ?_, hm, hja⟩
    rintro rfl
    obtain rfl := Option.some.inj (hm.symm.trans hat.2.2)
    obtain rfl := h.eq_of_within_label hs hl hja
    obtain rfl := Option.some.inj (hj.symm.trans hs)
    cases hl

end Tree

variable {script : Script} {library : Catalog} {options : CheckOptions} {c : CheckedScript}

/-- **The label of a live jump is live**, unless a constant jump above the label
cuts it off, or the label is behind a return and the jump stands below it. -/
theorem Script.label_live_of_liveJump (h : script.check library options = .ok c)
    {j label : NodeId} (hroot : c.tree.Within j c.root) (hjump : c.tree.Jumps j label)
    (hlive : c.tree.LiveThroughout j) :
    ∃ x s k n, c.tree.At label x s k ∧ c.tree.stmt? label = some n
      ∧ (n.info.dead = .live
        ∨ (∃ i ∈ s.constantJumps, i.jumpIndex < k ∧ i.CutsOff s.scopeId k n.info.dead)
        ∨ n.info.dead = .afterReturn ∧ ∃ m a, k < m ∧ s.statements[m]? = some a
          ∧ c.tree.Within j a) := by
  obtain ⟨p, n, hfinished, htree, -, -⟩ := Script.check_acts h
  have hsettled : c.tree.Settled script library p.roots c.root := htree ▸ hfinished.settled
  obtain ⟨x, s, k, hat, hjx⟩ := hsettled.lands_at hroot hjump
  have hclosed := hsettled.closed x s hat.2.1
  obtain ⟨info, hp, -⟩ := hclosed.placed k label hat.2.2
  obtain ⟨n, hn, rfl⟩ := Tree.stmt?_of_place? hp
  refine ⟨x, s, k, n, hat, hn, ?_⟩
  rcases hclosed.reason k label _ hat.2.2 hp with hl | ⟨i, hi, hik, ends, hblock⟩ | ⟨hret, hun⟩
  · exact .inl hl
  · exact .inr (.inl ⟨i, hi, hik, ConstantJump.cutsOff_of_blockedBy hblock⟩)
  · obtain ⟨m, a, hne, hm, hja⟩ := hsettled.statement_around hat hjump hjx
    refine .inr (.inr ⟨hret, m, a, Nat.lt_of_not_le fun hle => ?_, hm, hja⟩)
    obtain ⟨b, hjb, -, hdead⟩ := hun m a (Nat.lt_of_le_of_ne hle hne) hm j hja hjump
    simp [hlive b hjb] at hdead

/-! ### The four cases -/

/-- The script has no errors, and some jump in it that is live throughout leads
to a label that is dead for this reason. -/
def Script.LeadsToDead (script : Script) (reason : Reach) : Prop :=
  ∃ c j label n, script.check .standard {} = .ok c ∧ c.hasErrors = false
    ∧ c.tree.Within j c.root ∧ c.tree.Jumps j label ∧ c.tree.LiveThroughout j
    ∧ c.tree.stmt? label = some n ∧ n.info.dead = reason

/-- Whether the jump `j` is live together with all nodes above it and leads to
the label, which is dead for this reason. -/
def CheckedScript.leadsToDead (c : CheckedScript) (j label : NodeId) (reason : Reach) : Bool :=
  let above := c.tree.climb c.tree.size (some j)
  !c.hasErrors && above.all c.tree.isLive && above.getLast? == some c.root
    && (c.tree.parent? c.root).isNone
    && (match c.tree.stmt? j with
      | some ⟨.jump _ target _, _⟩ => target == some label
      | _ => false)
    && (c.tree.stmt? label).any (·.info.dead == reason)

/-- Where the walk upward ends at a node without a parent, it passes all nodes above. -/
theorem Tree.liveThroughout_of_climb {t : Tree} {root : NodeId} (hroot : t.parent? root = none)
    (steps : Nat) (a : NodeId) (hend : (t.climb steps (some a)).getLast? = some root)
    (hlive : ∀ b ∈ t.climb steps (some a), t.isLive b = true) : t.LiveThroughout a := by
  induction steps generalizing a with
  | zero => cases hend
  | succ steps ih =>
    simp only [climb, List.mem_cons, forall_eq_or_imp] at hlive
    simp only [climb, List.getLast?_cons] at hend
    cases hup : (t.climb steps (t.parent? a)).getLast? with
    | none =>
      rw [hup] at hend
      obtain rfl : a = root := Option.some.inj hend
      intro b hb
      rcases Relation.ReflTransGen.cases_head hb with rfl | ⟨q, hq, -⟩
      · exact hlive.1
      · rw [hroot] at hq
        cases hq
    | some b =>
      rw [hup] at hend
      obtain rfl : b = root := Option.some.inj hend
      cases hq : t.parent? a with
      | none => cases steps <;> simp [hq, climb] at hup
      | some q =>
        rw [hq] at hup hlive
        exact (ih q hup hlive.2).of_parent hq hlive.1

theorem Script.leadsToDead_of_check (j label : NodeId) {reason : Reach}
    (h : (script.check .standard {}).toOption.any (·.leadsToDead j label reason) = true) :
    script.LeadsToDead reason := by
  obtain ⟨c, hc, hP⟩ := exists_ok_of_any h
  simp only [CheckedScript.leadsToDead, Bool.and_eq_true, Bool.not_eq_true', beq_iff_eq,
    List.all_eq_true, Option.any_eq_true, Option.isNone_iff_eq_none] at hP
  obtain ⟨⟨⟨⟨⟨hok, hlive⟩, hend⟩, hroot⟩, hjump⟩, n, hn, hdead⟩ := hP
  have hjumps : c.tree.Jumps j label := by
    split at hjump
    · rename_i name target always info hj
      exact ⟨name, always, info, by rw [hj, eq_of_beq hjump]⟩
    · cases hjump
  have hwithin : c.tree.Within j c.root :=
    Tree.within_of_mem_climb c.tree.size (some j) (fun q hq => Option.some.inj hq ▸ .refl _) c.root
      (List.mem_of_getLast? hend)
  exact ⟨c, j, label, n, hc, hok, hwithin, hjumps,
    Tree.liveThroughout_of_climb hroot c.tree.size j hend hlive, hn, hdead⟩

section Scripts

open Build

/-- Jumps over a label that a branch further up may jump to. -/
def jumpOverLabel : Script :=
  scriptWithEntry [declare .integer "x" (some (int 1)), branch (ident "x") (jump "a") [] none,
    jump "b", label "a", exprStmt (call "llOwnerSay" [string "a"]), label "b"]

/-- Jumps back above a label that a branch further up may jump to. -/
def jumpBackAboveLabel : Script :=
  scriptWithEntry [declare .integer "x" (some (int 1)), label "top",
    branch (ident "x") (jump "a") [] none, jump "top", label "a",
    exprStmt (call "llOwnerSay" [string "a"])]

/-- Jumps out of a block with a label that a branch further up may jump to. -/
def jumpOutAboveLabel : Script :=
  scriptWithEntry [declare .integer "x" (some (int 1)),
    block [branch (ident "x") (jump "a") [] none, jump "out", label "a",
      exprStmt (call "llOwnerSay" [string "a"])],
    label "out"]

/-- Returns above a label that is only jumped to from below. -/
def jumpUpBehindReturn : Script :=
  scriptWithEntry [declare .integer "x" (some (int 1)), branch (ident "x") (jump "b") [] none,
    ret none, label "a", exprStmt (call "llOwnerSay" [string "a"]), ret none, label "b", jump "a"]

end Scripts

/-- **A live jump may lead to a dead label**, for each of the four reasons. -/
theorem Script.deadLabel_of_liveJump :
    jumpOverLabel.LeadsToDead .jumpedOver ∧ jumpBackAboveLabel.LeadsToDead .afterJumpBack
      ∧ jumpOutAboveLabel.LeadsToDead .afterJumpOut
      ∧ jumpUpBehindReturn.LeadsToDead .afterReturn := by
  refine ⟨?_, ?_, ?_, ?_⟩
  · exact Script.leadsToDead_of_check 6 1 (by decide +kernel)
  · exact Script.leadsToDead_of_check 6 2 (by decide +kernel)
  · exact Script.leadsToDead_of_check 6 1 (by decide +kernel)
  · exact Script.leadsToDead_of_check 14 1 (by decide +kernel)

/-- In the last of the scripts the jump stands below its label. -/
theorem Script.liveJump_behindReturn :
    ∃ c j label, jumpUpBehindReturn.check .standard {} = .ok c ∧ c.tree.Within j c.root
      ∧ c.tree.Jumps j label ∧ c.tree.LiveThroughout j
      ∧ ∃ x s k n, c.tree.At label x s k ∧ c.tree.stmt? label = some n
        ∧ (n.info.dead = .live
          ∨ (∃ i ∈ s.constantJumps, i.jumpIndex < k ∧ i.CutsOff s.scopeId k n.info.dead)
          ∨ n.info.dead = .afterReturn ∧ ∃ m a, k < m ∧ s.statements[m]? = some a
            ∧ c.tree.Within j a) := by
  have hscript : jumpUpBehindReturn.LeadsToDead .afterReturn :=
    Script.leadsToDead_of_check 14 1 (by decide +kernel)
  obtain ⟨c, j, label, n, hc, -, hroot, hjump, hlive, -⟩ := hscript
  exact ⟨c, j, label, hc, hroot, hjump, hlive,
    Script.label_live_of_liveJump hc hroot hjump hlive⟩

end Lsl
