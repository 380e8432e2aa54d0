/- # Control flow in a body

The control flow of a body is a graph over the places before and behind its
statements and the two ends of its scopes. Every condition may turn out either
way, so a loop runs any number of times, but the body of a `do` loop at least
once. A return leaves the body, a change of state goes on behind itself.

The classification of statements is sound for this graph, as long as no live
jump leads to a label that is taken for dead.

Key definitions: `Point`, `Tree.Flows`, `Tree.Settled`, `Tree.Attained`.
Key theorems: `Tree.Settled.attained_step`, `Script.reachable_live`.
-/
import Lsl.Proofs.Check.ErrorFlags
import Lsl.Proofs.Check.Landing
import Lsl.Script.Build

namespace Lsl

variable {script : Script} {library : Catalog} {t : Tree} {root : NodeId} {roots : List NodeId}

/-! ### The graph -/

/-- A place in a body where control can be. -/
inductive Point where
  | enter (scope : NodeId)
  | exit (scope : NodeId)
  | before (stmt : NodeId)
  | after (stmt : NodeId)
deriving DecidableEq, Repr

namespace StmtKind

/-- Control may go on behind the statement without entering a scope of it. -/
def passes : StmtKind → Bool
  | empty | expr _ | declare _ | label .. | stateChange .. | whileLoop .. | forLoop .. => true
  | branch _ _ _ elseScope => elseScope.isNone
  | ret _ | jump .. | doWhile .. | block _ => false

/-- Control may enter the scope again from its end. -/
def loops : StmtKind → Bool
  | whileLoop .. | doWhile .. | forLoop .. => true
  | _ => false

theorem not_exhaustive_of_passes {k : StmtKind} (h : k.passes = true) : k.exhaustive = false := by
  cases k with
  | branch cond thenScope elseIfs elseScope =>
    cases elseScope with
    | none => rfl
    | some => cases h
  | block => cases h
  | _ => rfl

theorem arms_ne_nil_of_exhaustive {k : StmtKind} (h : k.exhaustive = true) : k.arms ≠ [] := by
  cases k <;> simp_all [exhaustive, arms]

end StmtKind

/-- Control goes from one place to the next. -/
inductive Tree.Flows (t : Tree) : Point → Point → Prop where
  | first (x s : NodeId) (c : CodeScope) (hx : t.scope? x = some c)
    (hs : c.statements[0]? = some s) : t.Flows (.enter x) (.before s)
  | empty (x : NodeId) (c : CodeScope) (hx : t.scope? x = some c) (hs : c.statements = []) :
    t.Flows (.enter x) (.exit x)
  | pass (s : NodeId) (n : StmtNode) (hs : t.stmt? s = some n) (hp : n.kind.passes = true) :
    t.Flows (.before s) (.after s)
  | jump (j label : NodeId) (hj : t.Jumps j label) : t.Flows (.before j) (.before label)
  | into (s x : NodeId) (n : StmtNode) (hs : t.stmt? s = some n) (hx : x ∈ n.kind.arms) :
    t.Flows (.before s) (.enter x)
  | again (s x : NodeId) (n : StmtNode) (hs : t.stmt? s = some n) (hl : n.kind.loops = true)
    (hx : x ∈ n.kind.arms) : t.Flows (.exit x) (.enter x)
  | outOf (s x : NodeId) (n : StmtNode) (hs : t.stmt? s = some n) (hx : x ∈ n.kind.arms) :
    t.Flows (.exit x) (.after s)
  | next (x s s' : NodeId) (c : CodeScope) (i : Nat) (hx : t.scope? x = some c)
    (hs : c.statements[i]? = some s) (hs' : c.statements[i + 1]? = some s') :
    t.Flows (.after s) (.before s')
  | last (x s : NodeId) (c : CodeScope) (hx : t.scope? x = some c)
    (hs : c.statements.getLast? = some s) : t.Flows (.after s) (.exit x)

/-- Control may come from one place to another. -/
abbrev Tree.Reaches (t : Tree) : Point → Point → Prop := Relation.ReflTransGen t.Flows

/-- The body of a function or of an event handler. -/
def Tree.IsBody (t : Tree) (owner body : NodeId) : Prop :=
  (∃ f, t.function? owner = some f ∧ f.body = some body)
    ∨ ∃ h, t.kind? owner = some (.handler h) ∧ h.body = body

/-- What can stand around a body. -/
def NodeSort.aroundBody : NodeSort → Bool
  | .script | .function | .state | .handler => true
  | _ => false

theorem NodeSort.aroundBody_of_holds {s s' : NodeSort} (h : s'.aroundBody = true)
    (hh : s.holds s' = true) : s.aroundBody = true := by
  cases s <;> cases s' <;> simp_all [aroundBody, holds]

/-! ### The tree in the end -/

/-- What is known of the tree of a script. -/
structure Tree.Settled (script : Script) (library : Catalog) (t : Tree) (roots : List NodeId)
    (root : NodeId) : Prop extends t.Shaped script library roots where
  closed : ∀ x c, t.scope? x = some c → t.Closed c
  nests : ∀ x c, t.scope? x = some c → t.Nests c
  lands : ∀ j label, t.Within j root → t.Jumps j label → t.Lands j label

theorem Finished.settled {p : Progress} {n : ScriptNode} (h : Finished script library p root n) :
    p.run.tree.Settled script library p.roots root :=
  { Acts.shaped h.acts with
    closed := (Acts.laid h.acts).closed
    nests := Acts.nested h.acts
    lands := fun _ _ hj hjump => h.lands hj hjump }

namespace Tree

/-- The statement at a place of a scope. -/
def At (t : Tree) (s x : NodeId) (c : CodeScope) (i : Nat) : Prop :=
  t.parent? s = some x ∧ t.scope? x = some c ∧ c.statements[i]? = some s

namespace Settled

variable (h : t.Settled script library roots root)
include h

/-- A part of a scope is one of its statements. -/
theorem at_of_parent? {s x : NodeId} {c : CodeScope} (hp : t.parent? s = some x)
    (hx : t.scope? x = some c) : ∃ i, t.At s x c i := by
  obtain ⟨k, hk, -, hmem⟩ := h.owned s x hp
  obtain rfl := Option.some.inj ((scope?_eq_some.mp hx).symm.trans hk)
  obtain ⟨i, hi⟩ := List.mem_iff_getElem?.mp
    (hmem (by simp [NodeKind.sort]) (by simp [NodeKind.sort]))
  exact ⟨i, hp, hx, hi⟩

theorem at_of_statements {s x : NodeId} {c : CodeScope} {i : Nat} (hx : t.scope? x = some c)
    (hs : c.statements[i]? = some s) : t.At s x c i := by
  refine ⟨h.links x s ?_, hx, hs⟩
  rw [children_of_kind? (scope?_eq_some.mp hx)]
  exact List.mem_of_getElem? hs

/-- A statement with a parent is in a scope. -/
theorem at_of_stmt? {s q : NodeId} {n : StmtNode} (hs : t.stmt? s = some n)
    (hp : t.parent? s = some q) : ∃ c i, t.At s q c i := by
  obtain ⟨k, hk, ⟨s', hs', hhold⟩, -⟩ := h.owned s q hp
  have hsort := (sort?_of_kind? (stmt?_eq_some.mp hs)).symm.trans hs'
  obtain rfl : NodeSort.stmt = s' := Option.some.inj hsort
  cases k with
  | scope c =>
    obtain ⟨i, hi⟩ := h.at_of_parent? hp (scope?_eq_some.mpr hk)
    exact ⟨c, i, hi⟩
  | _ => cases hhold

/-- A scope of a statement is a part of it. -/
theorem parent?_arm {s x : NodeId} {n : StmtNode} (hs : t.stmt? s = some n)
    (hx : x ∈ n.kind.arms) : t.parent? x = some s ∧ ∃ c, t.scope? x = some c := by
  have hkind := stmt?_eq_some.mp hs
  refine ⟨h.links s x ?_, ?_⟩
  · rw [children_of_kind? hkind]
    exact n.kind.arms_sublist.subset hx
  · have hf : t.FormedStmt script n.kind := h.formed s _ hkind
    refine scope?_of_sort? ?_
    rcases n with ⟨kind, info⟩
    cases kind with
    | block scope =>
      rw [List.mem_singleton.mp hx]
      exact hf
    | branch cond thenScope elseIfs elseScope =>
      obtain ⟨-, hthen, harms, helse⟩ := hf
      simp only [StmtKind.arms, List.cons_append, List.mem_cons, List.mem_append, List.mem_map,
        Option.mem_toList] at hx
      obtain rfl | ⟨arm, harm, rfl⟩ | hx := hx
      · exact hthen
      · exact (harms arm harm).2
      · exact helse x hx
    | whileLoop cond body | doWhile body cond =>
      rw [List.mem_singleton.mp hx]
      exact hf.2.sort?
    | forLoop init cond step body =>
      rw [List.mem_singleton.mp hx]
      exact hf.2.2.2.sort?
    | _ => cases hx

/-! ### Jumps and the scopes around them -/

/-- Behind a jump that a scope performs there is a jump in it. -/
theorem exists_jump (x : NodeId) (c : CodeScope) (hx : t.scope? x = some c) (j : ConstantJump)
    (hj : j ∈ c.constantJumps) : ∃ i, t.Within i x ∧ t.Jumps i j.label := by
  induction x using Nat.strongRecOn generalizing c j with
  | ind x ih =>
    obtain ⟨-, s, hs, hperf⟩ := (h.closed x c hx).performed j hj
    have hat := h.at_of_statements hx hs
    obtain ⟨hin, hlt⟩ := h.inBody_of_parent? hat.1 (inBody_of_scope? hx)
    cases hperf with
    | jump hjump => exact ⟨s, .of_parent hat.1, hjump⟩
    | scopes n hn he harms =>
      obtain ⟨y, hy⟩ := List.exists_mem_of_ne_nil _ (StmtKind.arms_ne_nil_of_exhaustive he)
      obtain ⟨d, hd, k, hk, hlabel, -⟩ := harms y hy
      have hp := (h.parent?_arm hn hy).1
      obtain ⟨i, hi, hjump⟩ := ih y (Nat.lt_trans (h.inBody_of_parent? hp hin).2 hlt) d hd k hk
      exact ⟨i, hi.trans ((Within.of_parent hp).trans (.of_parent hat.1)), hlabel ▸ hjump⟩

/-- Where a jump lands: the label is a statement of a scope around the jump. -/
theorem lands_at {j label : NodeId} (hj : t.Within j root) (hjump : t.Jumps j label) :
    ∃ x c i, t.At label x c i ∧ t.Within j x := by
  obtain ⟨x, hx, hw⟩ := h.lands j label hj hjump
  obtain ⟨name, always, info, hj⟩ := hjump
  have hf : t.FormedStmt script (.jump name (some label) always) :=
    h.formed j _ (stmt?_eq_some.mp hj)
  obtain ⟨s, hs, -⟩ := hf label rfl
  obtain ⟨c, i, hat⟩ := h.at_of_stmt? hs hx
  exact ⟨x, c, i, hat, hw⟩

/-- A scope inside another has a greater number. -/
theorem scopeId_lt {x y : NodeId} {c d : CodeScope} (hxy : t.Within x y) (hne : x ≠ y)
    (hx : t.scope? x = some c) (hy : t.scope? y = some d) : d.scopeId < c.scopeId := by
  obtain rfl | ⟨q, hxq, hq⟩ := hxy.cases_tail
  · exact absurd rfl hne
  · obtain ⟨i, -, -, hi⟩ := h.at_of_parent? hq hy
    exact h.nests y d hy q (List.mem_of_getElem? hi) x c hxq hx

/-- Of the scopes around a node, no two have the same number. -/
theorem scope_unique {a x y : NodeId} {c d : CodeScope} (hax : t.Within a x) (hay : t.Within a y)
    (hx : t.scope? x = some c) (hy : t.scope? y = some d) (hid : c.scopeId = d.scopeId) : x = y := by
  by_contra hne
  rcases hax.total hay with hxy | hyx
  · exact absurd hid (Nat.ne_of_gt (h.scopeId_lt hxy hne hx hy))
  · exact absurd hid (Nat.ne_of_lt (h.scopeId_lt hyx (Ne.symm hne) hy hx))

/-- A jump that stays in a scope leads to a statement of it. -/
theorem parent?_label {x : NodeId} {c : CodeScope} {j : ConstantJump} (hx : t.scope? x = some c)
    (hroot : t.Within x root) (hj : j ∈ c.constantJumps) (hstays : j.targetScope = c.scopeId) :
    t.parent? j.label = some x := by
  obtain ⟨i, hix, hjump⟩ := h.exists_jump x c hx j hj
  obtain ⟨y, d, k, hat, hiy⟩ := h.lands_at (hix.trans hroot) hjump
  obtain ⟨info, hp, -, hscope, -⟩ := (h.closed y d hat.2.1).placed k _ hat.2.2
  obtain ⟨s, hs, hinfo⟩ := stmt?_of_place? hp
  obtain ⟨s', hs', -, haim⟩ := ((h.closed x c hx).performed j hj).1
  obtain rfl := Option.some.inj (hs.symm.trans hs')
  have hid : c.scopeId = d.scopeId := by
    rw [← hstays, ← haim, ← hscope, ← hinfo]
  rw [h.scope_unique hix hiy hx hat.2.1 hid]
  exact hat.1

/-- Two scopes of one statement do not jump to a label in one of them. -/
theorem no_common_jump {s x y : NodeId} {c d : CodeScope} {i j : ConstantJump} (hs : t.InBody s)
    (hxs : t.parent? x = some s) (hys : t.parent? y = some s) (hne : y ≠ x)
    (hroot : t.Within s root) (hx : t.scope? x = some c) (hy : t.scope? y = some d)
    (hi : i ∈ c.constantJumps) (hstays : i.targetScope = c.scopeId) (hj : j ∈ d.constantJumps)
    (hlabel : j.label = i.label) : False := by
  have hp := h.parent?_label hx ((Within.of_parent hxs).trans hroot) hi hstays
  obtain ⟨k, hky, hjump⟩ := h.exists_jump y d hy j hj
  obtain ⟨z, e, m, hat, hkz⟩ := h.lands_at (hky.trans ((Within.of_parent hys).trans hroot)) hjump
  have hzx : z = x := by
    have := hat.1
    rw [hlabel, hp] at this
    exact (Option.some.inj this).symm
  subst hzx
  rcases hkz.total hky with hzy | hyz
  · exact h.not_within_sibling hs hxs hys (Ne.symm hne) hzy
  · exact h.not_within_sibling hs hys hxs hne hyz

/-! ### Around a body -/

/-- What is around a function or a handler is no part of a body. -/
theorem aroundBody_of_within {o a : NodeId} {s : NodeSort} (hoa : t.Within o a)
    (ho : t.sort? o = some s) (hs : s.aroundBody = true) :
    ∃ s', t.sort? a = some s' ∧ s'.aroundBody = true := by
  induction hoa with
  | refl => exact ⟨s, ho, hs⟩
  | tail _ hp ih =>
    obtain ⟨s', hs', haround⟩ := ih
    obtain ⟨k, hk, ⟨s'', hs'', hhold⟩, -⟩ := h.owned _ _ hp
    obtain rfl := Option.some.inj (hs'.symm.trans hs'')
    exact ⟨k.sort, sort?_of_kind? hk, NodeSort.aroundBody_of_holds haround hhold⟩

variable {owner body : NodeId} (hbody : t.IsBody owner body)
include hbody

theorem owner_of_body : t.parent? body = some owner ∧ (∃ c, t.scope? body = some c)
    ∧ ∃ s, t.sort? owner = some s ∧ s.aroundBody = true := by
  rcases hbody with ⟨f, hf, hb⟩ | ⟨n, hn, rfl⟩
  · have hkind := function?_eq_some.mp hf
    have hform := h.formed owner _ hkind
    refine ⟨h.links owner body ?_, scope?_of_sort? (hform.2 body hb).sort?, _,
      sort?_of_kind? hkind, rfl⟩
    rw [children_of_kind? hkind]
    exact List.mem_append_right _ (by simp [hb])
  · have hform := h.formed owner _ hn
    refine ⟨h.links owner n.body ?_, scope?_of_sort? hform.2.sort?, _, sort?_of_kind? hn, rfl⟩
    rw [children_of_kind? hn]
    exact List.mem_append_right _ List.mem_cons_self

/-- No scope is around a body. -/
theorem within_body {a x : NodeId} {c : CodeScope} (ha : t.Within a body) (hax : t.Within a x)
    (hx : t.scope? x = some c) : t.Within x body := by
  obtain ⟨hp, -, s, hs, haround⟩ := h.owner_of_body hbody
  rcases hax.total ha with hxb | hbx
  · exact hxb
  · rcases Relation.ReflTransGen.cases_head hbx with rfl | ⟨q, hq, hqx⟩
    · exact .refl _
    · rw [hp] at hq
      cases hq
      obtain ⟨s', hs', haround'⟩ := h.aroundBody_of_within hqx hs haround
      rw [sort?_of_kind? (scope?_eq_some.mp hx)] at hs'
      cases hs'
      cases haround'

/-- No statement is around a body. -/
theorem liveThroughout_body : t.LiveThroughout body := by
  obtain ⟨hp, ⟨c, hc⟩, s, hs, haround⟩ := h.owner_of_body hbody
  have hnone : ∀ a s', t.sort? a = some s' → s' ≠ .stmt → t.isLive a = true := by
    intro a s' ha hne
    rcases hstmt : t.stmt? a with _ | n
    · simp [isLive, hstmt]
    · rw [sort?_of_kind? (stmt?_eq_some.mp hstmt)] at ha
      cases ha
      exact absurd rfl hne
  intro a ha
  rcases Relation.ReflTransGen.cases_head ha with rfl | ⟨q, hq, hqa⟩
  · exact hnone body _ (sort?_of_kind? (scope?_eq_some.mp hc)) (by simp [NodeKind.sort])
  · rw [hp] at hq
    cases hq
    obtain ⟨s', hs', haround'⟩ := h.aroundBody_of_within hqa hs haround
    exact hnone a s' hs' fun he => by simp [he, NodeSort.aroundBody] at haround'

end Settled

/-! ### Soundness -/

/-- No jump that its scope counts as always taken is performed by the statement. -/
def Quiet (t : Tree) (s : NodeId) : Prop :=
  ∀ x c, t.parent? s = some x → t.scope? x = some c →
    ∀ j ∈ c.constantJumps, c.statements[j.jumpIndex]? ≠ some s

/-- What the classification says of the places that control can come to. -/
def Attained (t : Tree) (body : NodeId) : Point → Prop
  | .enter x => t.Within x body ∧ t.LiveThroughout x
  | .before s => t.Within s body ∧ t.LiveThroughout s
  | .after s => t.Within s body ∧ t.LiveThroughout s ∧ t.Passes s ∧ t.Quiet s
  | .exit x => t.Within x body ∧ t.LiveThroughout x ∧ ∀ c, t.scope? x = some c →
    c.returnPath = none ∧ ∀ j ∈ c.constantJumps, j.targetScope = c.scopeId

theorem isLive_of_scope? {x : NodeId} {c : CodeScope} (h : t.scope? x = some c) :
    t.isLive x = true := by
  rcases hstmt : t.stmt? x with _ | n
  · simp [isLive, hstmt]
  · rw [scope?_eq_some, stmt?_eq_some.mp hstmt] at h
    cases h

namespace Settled

variable (h : t.Settled script library roots root) {owner body : NodeId}
  (hbody : t.IsBody owner body)
include h hbody

/-- The scope or the statement around a part of a body is a part of it. -/
theorem within_of_parent? {a q : NodeId} {s : NodeSort} (ha : t.Within a body)
    (hq : t.parent? a = some q) (hs : t.sort? q = some s) (hin : s.inBody = true) :
    t.Within q body := by
  rcases Relation.ReflTransGen.cases_head ha with rfl | ⟨q', hq', hqb⟩
  · obtain ⟨hp, -, s', hs', haround⟩ := h.owner_of_body hbody
    obtain rfl := Option.some.inj (hp.symm.trans hq)
    obtain rfl := Option.some.inj (hs.symm.trans hs')
    cases s <;> simp_all [NodeSort.inBody, NodeSort.aroundBody]
  · obtain rfl := Option.some.inj (hq.symm.trans hq')
    exact hqb

/-- A statement of the body is in a scope of the body. -/
theorem at_of_within {s : NodeId} {n : StmtNode} (hs : t.stmt? s = some n)
    (hw : t.Within s body) : ∃ x c i, t.At s x c i := by
  obtain ⟨-, ⟨c, hc⟩, -⟩ := h.owner_of_body hbody
  rcases Relation.ReflTransGen.cases_head hw with rfl | ⟨q, hq, -⟩
  · rw [scope?_eq_some, stmt?_eq_some.mp hs] at hc
    cases hc
  · obtain ⟨c, i, hat⟩ := h.at_of_stmt? hs hq
    exact ⟨q, c, i, hat⟩

/-- Control goes on behind a live statement that neither returns nor jumps. -/
theorem attained_after {s : NodeId} {n : StmtNode} (hs : t.stmt? s = some n)
    (hw : t.Within s body) (hlive : t.LiveThroughout s) (hret : ¬ t.Returns s)
    (hjump : ∀ j, ¬ t.Performs s j) : t.Attained body (.after s) := by
  obtain ⟨x, c, i, hat⟩ := h.at_of_within hbody hs hw
  obtain ⟨info, hp, -, -, hreturns⟩ := (h.closed x c hat.2.1).placed i s hat.2.2
  refine ⟨hw, hlive, ⟨info, hp, (isLive_of_place? hp).mp hlive.isLive, ?_⟩, ?_⟩
  · rcases hr : info.returnPath with _ | r
    · rfl
    · exact absurd (hreturns (by rw [hr]; rfl)) hret
  · intro y d hy hd j hj hat'
    obtain ⟨-, s', hs', hperf⟩ := (h.closed y d hd).performed j hj
    obtain rfl := Option.some.inj (hat'.symm.trans hs')
    exact hjump j hperf

/-- A statement that control may pass neither returns nor jumps. -/
theorem attained_pass {s : NodeId} {n : StmtNode} (hs : t.stmt? s = some n)
    (hpass : n.kind.passes = true) (hp : t.Attained body (.before s)) :
    t.Attained body (.after s) := by
  have hex := StmtKind.not_exhaustive_of_passes hpass
  refine h.attained_after hbody hs hp.1 hp.2 ?_ fun j hperf => ?_
  · rintro (⟨value, info, hs'⟩ | ⟨n', hs', he, -⟩)
    · obtain rfl := Option.some.inj (hs.symm.trans hs')
      cases hpass
    · obtain rfl := Option.some.inj (hs.symm.trans hs')
      simp [hex] at he
  · rcases hperf with ⟨name, always, info, hs'⟩ | ⟨n', hs', he, -⟩
    · obtain rfl := Option.some.inj (hs.symm.trans hs')
      cases hpass
    · obtain rfl := Option.some.inj (hs.symm.trans hs')
      simp [hex] at he

omit h hbody in
theorem exists_ne_of_nodup {l : List NodeId} {x : NodeId} (hl : l.Nodup) (hx : x ∈ l)
    (hmany : l ≠ [x]) : ∃ y ∈ l, y ≠ x := by
  rcases l with _ | ⟨a, _ | ⟨b, rest⟩⟩
  · cases hx
  · exact absurd (by rw [List.mem_singleton.mp hx]) hmany
  · by_cases ha : a = x
    · refine ⟨b, by simp, fun hb => ?_⟩
      simp [ha, hb] at hl
    · exact ⟨a, List.mem_cons_self, ha⟩

/-- Where control falls off the end of one scope of a statement, the statement
neither returns nor jumps. -/
theorem attained_outOf {s x : NodeId} {n : StmtNode} (hs : t.stmt? s = some n)
    (hx : x ∈ n.kind.arms) (hroot : t.Within body root) (hp : t.Attained body (.exit x)) :
    t.Attained body (.after s) := by
  obtain ⟨hw, hlive, hexit⟩ := hp
  obtain ⟨hparent, c, hc⟩ := h.parent?_arm hs hx
  obtain ⟨hnone, hstays⟩ := hexit c hc
  have hsw := h.within_of_parent? hbody hw hparent (sort?_of_kind? (stmt?_eq_some.mp hs)) rfl
  refine h.attained_after hbody hs hsw (hlive.within (.of_parent hparent)) ?_ fun j hperf => ?_
  · rintro (⟨value, info, hs'⟩ | ⟨n', hs', -, harms⟩)
    · obtain rfl := Option.some.inj (hs.symm.trans hs')
      cases hx
    · obtain rfl := Option.some.inj (hs.symm.trans hs')
      obtain ⟨c', hc', hret⟩ := harms x hx
      obtain rfl := Option.some.inj (hc.symm.trans hc')
      simp [CodeScope.hasReturnPath, hnone] at hret
  · rcases hperf with ⟨name, always, info, hs'⟩ | ⟨n', hs', -, harms⟩
    · obtain rfl := Option.some.inj (hs.symm.trans hs')
      cases hx
    · obtain rfl := Option.some.inj (hs.symm.trans hs')
      obtain ⟨c', hc', i, hi, hlabel, honly⟩ := harms x hx
      obtain rfl := Option.some.inj (hc.symm.trans hc')
      -- the jump stays in its scope, so there is a second one that jumps to the same label
      have hmany : n.kind.arms ≠ [x] := fun he => honly he (hstays i hi)
      have hnodup : n.kind.arms.Nodup := n.kind.arms_sublist.nodup
        (h.once s _ (stmt?_eq_some.mp hs) (by simp [NodeKind.sort]) (by simp [NodeKind.sort]))
      obtain ⟨y, hy, hne⟩ := exists_ne_of_nodup hnodup hx hmany
      obtain ⟨d, hd, k, hk, hlabel', -⟩ := harms y hy
      exact h.no_common_jump (inBody_of_stmt? hs) hparent (h.parent?_arm hs hy).1 hne
        (hsw.trans hroot) hc hd hi (hstays i hi) hk (hlabel'.trans hlabel.symm)

/-- **One step of control.** Behind what the classification allows there is what it
allows, unless a live jump leads to a dead label. -/
theorem attained_step (hroot : t.Within body root)
    (hjumps : ∀ j label, t.Within j body → t.Jumps j label → t.LiveThroughout j →
      t.isLive label = true) {p q : Point} (hstep : t.Flows p q) (hp : t.Attained body p) :
    t.Attained body q := by
  cases hstep with
  | first x s c hx hs =>
    have hat := h.at_of_statements hx hs
    exact ⟨(Within.of_parent hat.1).trans hp.1,
      hp.2.of_parent hat.1 ((h.closed x c hx).first s hs)⟩
  | empty x c hx hs =>
    refine ⟨hp.1, hp.2, fun c' hc' => ?_⟩
    obtain rfl := Option.some.inj (hx.symm.trans hc')
    obtain ⟨hret, hnone⟩ := (h.closed x c hx).empty hs
    exact ⟨hret, by simp [hnone]⟩
  | pass s n hs hpass => exact h.attained_pass hbody hs hpass hp
  | jump j label hj =>
    obtain ⟨x, c, i, hat, hjx⟩ := h.lands_at (hp.1.trans hroot) hj
    exact ⟨(Within.of_parent hat.1).trans (h.within_body hbody hp.1 hjx hat.2.1),
      (hp.2.within hjx).of_parent hat.1 (hjumps j label hp.1 hj hp.2)⟩
  | into s x n hs hx =>
    obtain ⟨hparent, c, hc⟩ := h.parent?_arm hs hx
    exact ⟨(Within.of_parent hparent).trans hp.1, hp.2.of_parent hparent (isLive_of_scope? hc)⟩
  | again s x n hs hl hx => exact ⟨hp.1, hp.2.1⟩
  | outOf s x n hs hx => exact h.attained_outOf hbody hs hx hroot hp
  | next x s s' c i hx hs hs' =>
    obtain ⟨hw, hlive, hpass, hquiet⟩ := hp
    have hat := h.at_of_statements hx hs
    have hat' := h.at_of_statements hx hs'
    have hxw := h.within_of_parent? hbody hw hat.1 (sort?_of_kind? (scope?_eq_some.mp hx)) rfl
    refine ⟨(Within.of_parent hat'.1).trans hxw,
      (hlive.within (.of_parent hat.1)).of_parent hat'.1 ?_⟩
    refine (h.closed x c hx).next i s s' hs hs' hpass fun j hj he => ?_
    exact hquiet x c hat.1 hx j hj (he ▸ hs)
  | last x s c hx hs =>
    obtain ⟨hw, hlive, hpass, hquiet⟩ := hp
    have hat := h.at_of_statements hx (List.getLast?_eq_getElem? ▸ hs)
    have hxw := h.within_of_parent? hbody hw hat.1 (sort?_of_kind? (scope?_eq_some.mp hx)) rfl
    refine ⟨hxw, hlive.within (.of_parent hat.1), fun c' hc' => ?_⟩
    obtain rfl := Option.some.inj (hx.symm.trans hc')
    refine (h.closed x c hx).last s hs hpass fun j hj he => hquiet x c hat.1 hx j hj ?_
    rw [← hs, List.getLast?_eq_getElem?, ← he]
    rfl

/-- What control can come to is as the classification says. -/
theorem attained_of_reaches (hroot : t.Within body root)
    (hjumps : ∀ j label, t.Within j body → t.Jumps j label → t.LiveThroughout j →
      t.isLive label = true) {q : Point} (hq : t.Reaches (.enter body) q) : t.Attained body q := by
  induction hq with
  | refl => exact ⟨.refl _, h.liveThroughout_body hbody⟩
  | tail _ hstep ih => exact h.attained_step hbody hroot hjumps hstep ih

end Settled

end Tree

/-- **Dead code is dead.** Take a body of a script without errors in which no jump
that is live throughout leads to a dead label. Whatever statement control can
come to is live together with all statements around it, and control never falls
off the end of a scope that is taken to return; so it never falls off the end of
a function that has a value. -/
theorem Script.reachable_live {options : CheckOptions} {c : CheckedScript}
    (h : script.check library options = .ok c) (hok : c.hasErrors = false) {owner body : NodeId}
    (howner : c.tree.Within owner c.root) (hbody : c.tree.IsBody owner body)
    (hjumps : ∀ j label, c.tree.Within j body → c.tree.Jumps j label → c.tree.LiveThroughout j →
      c.tree.isLive label = true) :
    (∀ s, c.tree.Reaches (.enter body) (.before s) → c.tree.LiveThroughout s)
      ∧ (∀ x k, c.tree.scope? x = some k → c.tree.Reaches (.enter body) (.exit x) →
        k.hasReturnPath = false)
      ∧ ∀ f, c.tree.function? owner = some f → f.body = some body → f.returnType ≠ .void →
        ¬ c.tree.Reaches (.enter body) (.exit body) := by
  obtain ⟨p, n, hfinished, htree, herrors, -⟩ := Script.check_acts h
  have hsettled : c.tree.Settled script library p.roots c.root := htree ▸ hfinished.settled
  have hroot := (Tree.Within.of_parent (hsettled.owner_of_body hbody).1).trans howner
  have hattained := fun q => hsettled.attained_of_reaches hbody hroot hjumps (q := q)
  have hscopes : ∀ x k, c.tree.scope? x = some k →
      c.tree.Reaches (.enter body) (.exit x) → k.hasReturnPath = false := by
    intro x k hx hreach
    obtain ⟨-, -, hexit⟩ := hattained _ hreach
    simp [CodeScope.hasReturnPath, (hexit k hx).1]
  refine ⟨fun s hs => (hattained _ hs).2, hscopes, fun f hf hb hty hreach => ?_⟩
  rw [hok, eq_comm, Bool.or_eq_false_iff, List.any_eq_false] at herrors
  have hclean : ∀ m ∈ p.run.notices, m.marks = false := fun m hm =>
    Notice.marks_of_isFault (by simpa using herrors.1 m hm)
  have hanswers := Acts.answers hfinished.acts hclean
  rw [htree] at hanswers
  rcases hanswers owner f hf body hb with hvoid | ⟨k, hk, hret⟩
  · exact hty (by simpa [Ty.isVoid] using hvoid)
  · simp [hscopes body k hk hreach] at hret

open Build in
/-- A function that jumps over one return to another. -/
def twoReturns : Script :=
  { scriptWithEntry [] with
    functions := [{
      name := "f"
      returnType := .integer
      params := [{ name := "c", ty := .integer }]
      body := .mk [branch (ident "c") (jump "done") [] none, ret (some (int 1)), label "done",
        ret (some (int 2))] {} }] }

/-- A statement is no jump, or one to a live label. -/
def Tree.leadsToLive (t : Tree) (j : NodeId) : Bool :=
  match t.stmt? j with
  | some ⟨.jump _ (some label) _, _⟩ => t.isLive label
  | _ => true

/-- The function is node 1, its body node 12. -/
theorem Script.reachable_twoReturns :
    ∃ c f, twoReturns.check .standard {} = .ok c ∧ c.hasErrors = false
      ∧ c.tree.function? 1 = some f ∧ f.body = some 12 ∧ f.returnType ≠ .void
      ∧ (∀ s, c.tree.Reaches (.enter 12) (.before s) → c.tree.LiveThroughout s)
      ∧ ¬ c.tree.Reaches (.enter 12) (.exit 12) := by
  have hcheck : (twoReturns.check .standard {}).toOption.any (fun c => !c.hasErrors
      && (c.tree.function? 1).any (fun f => f.body == some 12 && f.returnType == .integer)
      && c.tree.parent? 1 == some c.root
      && (List.range c.tree.size).all c.tree.leadsToLive) = true := by
    decide +kernel
  obtain ⟨c, hc, hP⟩ := exists_ok_of_any hcheck
  simp only [Bool.and_eq_true, Bool.not_eq_true', beq_iff_eq, List.all_eq_true,
    Option.any_eq_true] at hP
  obtain ⟨⟨⟨hok, f, hf, hbody, hty⟩, hparent⟩, hlive⟩ := hP
  have hjumps : ∀ j label, c.tree.Within j 12 → c.tree.Jumps j label → c.tree.LiveThroughout j →
      c.tree.isLive label = true := by
    rintro j label - ⟨name, always, info, hj⟩ -
    have hsize : j < c.tree.size := Tree.has_of_kind? (Tree.stmt?_eq_some.mp hj)
    simpa only [Tree.leadsToLive, hj] using hlive j (List.mem_range.mpr hsize)
  have hne : f.returnType ≠ .void := by simp [hty]
  obtain ⟨hreach, -, hend⟩ := Script.reachable_live hc hok (.of_parent hparent)
    (.inl ⟨f, hf, hbody⟩) hjumps
  exact ⟨c, f, hc, hok, hf, hbody, hne, hreach, hend f hf hbody hne⟩

end Lsl
