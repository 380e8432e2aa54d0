/- # The nodes form a forest

At every moment of a run the links between nodes are those of a forest: a node is
the parent of its children and of nothing else, each child stands there once, the
way up from a node comes to an end, and whatever is above a wrong node is marked as
wrong too. Nodes are made, filled and marked in many orders, but a node is only
taken up while it has no parent, and functions and states, which are filled after
they were made, are filled once.

So walks upward pass no more nodes than there are, and the bound on them is never
what ends them.

A tree tells what was done to it, and what it tells, done again from no nodes, makes
this very tree. The moments of a run are what the parts of the log make.

Key definitions: `Tree.above`, `Tree.Forest`, `Tree.WalksEnd`, `TreeOp.run`, `Tree.ofLog`,
`Tree.Grown`, `Progress.Unfilled`.
Key theorems: `Tree.Forest.alloc`, `Tree.Forest.fill`, `Tree.Forest.walksEnd`,
`Tree.Grown.run`, `Act.grown`, `Script.check_forest`.
-/
import Mathlib.Data.Fintype.Pigeonhole
import Lsl.Proofs.Check.Connected
import Lsl.Proofs.Scoping.Resolution

namespace Lsl

variable {script : Script} {library : Catalog} {t t' : Tree} {p p' : Progress} {i q : NodeId}

/-! ### The way up -/

namespace Tree

/-- The node that lies this many steps above another. -/
def above (t : Tree) : Nat → NodeId → Option NodeId
  | 0, id => some id
  | steps + 1, id => (t.parent? id).bind (t.above steps)

theorem above_of_root (h : t.parent? i = none) (steps : Nat) : t.above (steps + 1) i = none := by
  rw [above, h]
  rfl

theorem above_of_parent? (h : t.parent? i = some q) (steps : Nat) :
    t.above (steps + 1) i = t.above steps q := by
  rw [above, h]
  rfl

theorem above_add (m n : Nat) : t.above (m + n) i = (t.above m i).bind (t.above n) := by
  induction m generalizing i with
  | zero => simp [above]
  | succ m ih =>
    rw [Nat.add_right_comm]
    rcases h : t.parent? i with _ | q
    · rw [above_of_root h, above_of_root h]
      rfl
    · rw [above_of_parent? h, above_of_parent? h, ih]

theorem above_none_of_le {m n : Nat} (h : t.above m i = none) (hle : m ≤ n) :
    t.above n i = none := by
  obtain ⟨k, rfl⟩ := Nat.exists_eq_add_of_le hle
  rw [above_add, h]
  rfl

theorem has_of_above (hr : t.Rooted) (hi : t.Has i) {steps : Nat} (h : t.above steps i = some q) :
    t.Has q := by
  induction steps generalizing i with
  | zero =>
    obtain rfl := Option.some.inj h
    exact hi
  | succ steps ih =>
    rcases hp : t.parent? i with _ | r
    · rw [above_of_root hp] at h
      cases h
    · exact ih (hr i r hp) (above_of_parent? hp steps ▸ h)

/-- **A way up that ends passes no more nodes than there are**, since it passes none twice. -/
theorem above_size (hr : t.Rooted) (hi : t.Has i) (hends : ∃ steps, t.above steps i = none) :
    t.above t.size i = none := by
  classical
  let last := Nat.find hends
  have hlast : t.above last i = none := Nat.find_spec hends
  have hsome : ∀ m : Fin last, ∃ x : Fin t.size, t.above m i = some x.1 := by
    intro m
    obtain ⟨x, hx⟩ := Option.ne_none_iff_exists'.mp (Nat.find_min hends m.isLt)
    exact ⟨⟨x, has_of_above hr hi hx⟩, hx⟩
  choose node hnode using hsome
  have hinj : Function.Injective node := by
    intro m n hmn
    by_contra hne
    wlog hlt : m < n generalizing m n
    · exact this hmn.symm (Ne.symm hne) (lt_of_le_of_ne (not_lt.mp hlt) (Ne.symm hne))
    -- from the first meeting the end would be as near as from the second
    refine Nat.find_min hends (m := m + (last - n)) (by omega) ?_
    rw [above_add, hnode m, hmn, ← hnode n, ← above_add, Nat.add_sub_cancel' (by omega)]
    exact hlast
  have hcard := Fintype.card_le_of_injective node hinj
  simp only [Fintype.card_fin] at hcard
  exact above_none_of_le hlast hcard

/-! ### Walks upward -/

theorem above_congr (h : ∀ j, t'.parent? j = t.parent? j) (steps : Nat) :
    t'.above steps = t.above steps := by
  induction steps with
  | zero => rfl
  | succ steps ih =>
    funext j
    rw [above, above, h, ih]

/-- Where the way up ends, a longer walk passes no more nodes. -/
theorem climb_of_ends {steps more : Nat} {next : Option NodeId}
    (h : next.bind (t.above steps) = none) (hle : steps ≤ more) :
    t.climb more next = t.climb steps next := by
  induction steps generalizing next more with
  | zero =>
    rcases next with _ | q
    · cases more <;> rfl
    · cases h
  | succ steps ih =>
    obtain ⟨more, rfl⟩ := Nat.exists_eq_succ_of_ne_zero (n := more) (by omega)
    rcases next with _ | q
    · rfl
    · exact congrArg (q :: ·) (ih h (by omega))

theorem markUpward_of_ends {steps more : Nat} {next : Option NodeId}
    (h : next.bind (t.above steps) = none) (hle : steps ≤ more) :
    t.markUpward more next = t.markUpward steps next := by
  induction steps generalizing t next more with
  | zero =>
    rcases next with _ | q
    · cases more <;> rfl
    · cases h
  | succ steps ih =>
    obtain ⟨more, rfl⟩ := Nat.exists_eq_succ_of_ne_zero (n := more) (by omega)
    rcases next with _ | q
    · rfl
    · unfold markUpward
      cases hq : t.node? q with
      | none => rfl
      | some n =>
        refine ih ?_ (by omega)
        -- marks leave the way up as it is
        rw [above_congr (t := t) fun j => ?_, ← parent?_of_node? hq]
        · exact h
        · rw [parent?, parent?, node?_modify]
          split <;> simp [Option.bind_map]

theorem mem_climb_of_within {steps : Nat} (h : t.above steps i = none) (hw : t.Within i q) :
    q ∈ t.climb steps (some i) := by
  induction steps generalizing i with
  | zero => cases h
  | succ steps ih =>
    rcases Relation.ReflTransGen.cases_head hw with rfl | ⟨r, hr, hrq⟩
    · exact List.mem_cons_self
    · rw [climb, hr]
      exact List.mem_cons_of_mem _ (ih (above_of_parent? hr steps ▸ h) hrq)

/-- The walks upward come to their end by themselves: no greater bound on them makes
them longer. -/
structure WalksEnd (t : Tree) : Prop where
  ancestors : ∀ i, t.Has i → ∀ steps, t.size ≤ steps →
    t.climb steps (t.parent? i) = t.ancestors i
  marks : ∀ i, t.Has i → ∀ steps, t.size ≤ steps → t.markUpward steps (some i) = t.mark i

/-! ### Forests -/

/-- The links and the marks of a forest. -/
structure Forest (t : Tree) : Prop where
  ends : ∀ i, t.Has i → t.above t.size i = none
  links : ∀ c q, t.parent? c = some q ↔ c ∈ t.children q
  once : ∀ q, (t.children q).Nodup
  upward : ∀ c q, t.parent? c = some q → t.hasErrors c = true → t.hasErrors q = true

namespace Forest

theorem empty : Forest {} where
  ends i hi := absurd hi (Nat.not_lt_zero i)
  links c q := by simp [parent?, node?, children, kind?]
  once q := by simp [children, kind?, node?]
  upward c q h := by simp [parent?, node?] at h

theorem has_of_mem_children {c : NodeId} (h : c ∈ t.children q) : t.Has q := by
  rcases hk : t.kind? q with _ | k
  · simp [children, hk] at h
  · exact has_of_kind? hk

theorem rooted (h : t.Forest) : t.Rooted := fun c q hq => has_of_mem_children ((h.links c q).mp hq)

theorem walksEnd (h : t.Forest) : t.WalksEnd where
  ancestors i hi _ hle := climb_of_ends (above_none_of_le (h.ends i hi) (Nat.le_succ _)) hle
  marks i hi _ hle := by
    have hend : (some i).bind (t.above t.size) = none := h.ends i hi
    exact markUpward_of_ends hend hle

/-- What a node lies within is above it. -/
theorem mem_ancestors (h : t.Forest) (hw : t.Within i q) (hne : i ≠ q) :
    q ∈ t.ancestors i := by
  obtain rfl | ⟨r, hr, hrq⟩ := Relation.ReflTransGen.cases_head hw
  · exact absurd rfl hne
  · rw [ancestors, hr]
    exact mem_climb_of_within (h.ends r (h.rooted i r hr)) hrq

/-- Where nodes that have no parent may get one that has none, ways up still end. -/
theorem ends_of_adopts {N : Nat → Prop} (h : t.Forest) (ha : t.Adopts N t')
    (hlinks : ∀ c q, t'.parent? c = some q ↔ c ∈ t'.children q) (hi : t'.Has i) :
    t'.above t'.size i = none := by
  have hends : ∀ steps i, t.above steps i = none → ∃ steps', t'.above steps' i = none := by
    intro steps
    induction steps with
    | zero => exact fun i hi => by cases hi
    | succ steps ih =>
      intro i hi
      rcases hp' : t'.parent? i with _ | q
      · exact ⟨1, above_of_root hp' 0⟩
      · rcases ha.new i q hp' with hp | ⟨-, hroot⟩
        · obtain ⟨k, hk⟩ := ih q (above_of_parent? hp steps ▸ hi)
          exact ⟨k + 1, (above_of_parent? hp' k).trans hk⟩
        · exact ⟨2, (above_of_parent? hp' 1).trans (above_of_root hroot 0)⟩
  refine above_size (fun c q hq => has_of_mem_children ((hlinks c q).mp hq)) hi ?_
  by_cases hold : t.Has i
  · exact hends t.size i (h.ends i hold)
  · exact hends 1 i (above_of_root (parent?_of_size_le (Nat.not_lt.mp hold)) 0)

/-- The same links. -/
theorem same (h : t.Forest) (hp : ∀ i, t'.parent? i = t.parent? i)
    (hc : ∀ i, t'.children i = t.children i)
    (hm : ∀ c q, t.parent? c = some q → t'.hasErrors c = true → t'.hasErrors q = true) :
    t'.Forest := by
  have hlinks : ∀ c q, t'.parent? c = some q ↔ c ∈ t'.children q := fun c q => by
    rw [hp, hc]
    exact h.links c q
  have ha : t.Adopts (fun _ => False) t' :=
    ⟨fun c q hq => (hp c).trans hq, fun c q hq => .inl ((hp c).symm.trans hq)⟩
  exact {
    ends := fun i hi => h.ends_of_adopts ha hlinks hi
    links := hlinks
    once := fun q => hc q ▸ h.once q
    upward := fun c q hq => hm c q (hp c ▸ hq) }

theorem of_nodes (h : t.Forest) (he : t'.nodes = t.nodes) : t'.Forest := by
  have hnode : ∀ i, t'.node? i = t.node? i := fun i => by simp only [node?, he]
  refine h.same (fun i => ?_) (fun i => ?_) fun c q hq => ?_
  · simp only [parent?, hnode]
  · simp only [children, kind?, hnode]
  · simp only [hasErrors, hnode]
    exact h.upward c q hq

/-- Notes on a node leave a forest as it is. -/
theorem modifyKind {f : NodeKind → NodeKind} (h : t.Forest) (id : NodeId)
    (hf : ∀ k, (f k).children = k.children) : (t.modifyKind id f).Forest := by
  refine h.same (fun i => parent?_modifyKind f) (fun i => ?_) fun c q hq => ?_
  · rw [children, children, kind?, kind?, node?_modifyKind]
    rcases t.node? i with _ | n
    · split <;> rfl
    · split <;> simp [hf]
  · rw [hasErrors_modifyKind, hasErrors_modifyKind]
    exact h.upward c q hq

/-- A mark on a node that nothing has taken up. -/
theorem markError (h : t.Forest) {id : NodeId} (hroot : t.parent? id = none) :
    (t.markError id).Forest := by
  have hr := retains_markError (t := t) id
  refine h.same hr.parent? hr.children fun c q hq hc => ?_
  have hne : c ≠ id := fun he => by simp [he, hroot] at hq
  rw [hasErrors, node?_markError_of_orphan hroot, if_neg hne] at hc
  exact (grows_markError (P := fun _ => True)).hasErrors (h.upward c q hq hc)

/-- A new node over some that nothing has taken up. -/
theorem alloc (h : t.Forest) (kind : NodeKind) (span : Span)
    (hfree : ∀ c ∈ kind.children, t.Has c ∧ t.parent? c = none) (honce : kind.children.Nodup) :
    (t.alloc kind span).1.Forest := by
  have hhas : ∀ c ∈ kind.children, t.Has c := fun c hc => (hfree c hc).1
  have hparent := fun i => parent?_alloc (i := i) kind span hhas
  have hchildren := fun i => children_alloc (t := t) (i := i) kind span
  have hflag := fun i => hasErrors_alloc (i := i) kind span hhas
  have hfresh : ∀ c, t.parent? c ≠ some t.size := fun c hc => Nat.lt_irrefl _ (h.rooted c _ hc)
  have hlinks : ∀ c q, (t.alloc kind span).1.parent? c = some q
      ↔ c ∈ (t.alloc kind span).1.children q := by
    intro c q
    rw [hparent, hchildren]
    by_cases hc : c ∈ kind.children <;> by_cases hq : q = t.size
    · simp [hc, hq]
    · have hold : c ∉ t.children q := fun hm => by
        have hlink := (h.links c q).mpr hm
        rw [(hfree c hc).2] at hlink
        cases hlink
      simp [hc, hq, hold, Ne.symm hq]
    · simp [hc, hq, hfresh c]
    · simp [hc, hq, h.links]
  refine ⟨fun i hi => h.ends_of_adopts (adopts_alloc hfree span) hlinks hi, hlinks,
    fun q => ?_, fun c q hq hc => ?_⟩
  · rw [hchildren]
    split
    · exact honce
    · exact h.once q
  · rw [hparent] at hq
    rw [hflag] at hc ⊢
    split at hq
    · rename_i hmem
      cases hq
      rw [if_neg (Nat.ne_of_lt (hhas c hmem))] at hc
      rw [if_pos rfl]
      exact List.any_eq_true.mpr ⟨c, hmem, hc⟩
    · rw [if_neg (Nat.ne_of_lt (has_of_parent? hq))] at hc
      rw [if_neg (Nat.ne_of_lt (h.rooted c q hq))]
      exact h.upward c q hq hc

theorem allocError (h : t.Forest) (span : Span) : (t.allocError span).1.Forest := by
  have hnew := h.alloc .error span (by simp [NodeKind.children]) List.nodup_nil
  have hroot : (t.alloc .error span).1.parent? t.size = none := by
    rw [parent?_alloc _ _ (by simp [NodeKind.children])]
    simp [NodeKind.children, parent?_of_size_le]
  have heq : (t.allocError span).1.nodes = ((t.alloc .error span).1.markError t.size).nodes :=
    (congrArg nodes (mark_of_orphan hroot)).symm
  exact (hnew.markError hroot).of_nodes heq

/-- A node that nothing has taken up keeps its parts and gets more. -/
theorem fill (h : t.Forest) {id : NodeId} {kind : NodeKind} (hid : t.Has id)
    (hroot : t.parent? id = none) (hself : id ∉ kind.children)
    (hkeep : t.children id ⊆ kind.children) (honce : kind.children.Nodup)
    (hfree : ∀ c ∈ kind.children, t.Has c ∧ (t.parent? c = some id ∨ t.parent? c = none)) :
    (t.fill id kind).1.Forest := by
  obtain ⟨n, hn⟩ := exists_node? hid
  have hnone : n.parent = none := (parent?_of_node? hn).symm.trans hroot
  have hparent := fun i => parent?_fill (i := i) hn hnone hself fun c hc => (hfree c hc).1
  have hchildren := fun i => children_fill (i := i) kind hid
  have hflag := fun i => hasErrors_fill (i := i) hn hnone hself
  have hlinks : ∀ c q, (t.fill id kind).1.parent? c = some q
      ↔ c ∈ (t.fill id kind).1.children q := by
    intro c q
    rw [hparent, hchildren]
    by_cases hc : c ∈ kind.children <;> by_cases hq : q = id
    · simp [hc, hq]
    · have hold : c ∉ t.children q := fun hm => by
        have hlink := (h.links c q).mpr hm
        rcases (hfree c hc).2 with hown | hown
        · exact hq (Option.some.inj (hlink.symm.trans hown))
        · simp [hown] at hlink
      simp [hc, hq, hold, Ne.symm hq]
    · have hold : t.parent? c ≠ some id := fun hlink => hc (hkeep ((h.links c id).mp hlink))
      simp [hc, hq, hold]
    · simp [hc, hq, h.links]
  have ha : t.Adopts (· = id) (t.fill id kind).1 :=
    adopts_of_parent? hparent (fun c hc => (hfree c hc).2) hself hroot
  refine ⟨fun i hi => h.ends_of_adopts ha hlinks hi, hlinks, fun q => ?_, fun c q hq hc => ?_⟩
  · rw [hchildren]
    split
    · exact honce
    · exact h.once q
  · have hne : c ≠ id := fun he => by simp [he, hparent, hself, hroot] at hq
    rw [hparent] at hq
    simp only [hflag, beq_eq_false_iff_ne.mpr hne, Bool.false_and, Bool.or_false] at hc
    rw [hflag]
    split at hq
    · rename_i hmem
      cases hq
      have hany : kind.children.any t.hasErrors = true := List.any_eq_true.mpr ⟨c, hmem, hc⟩
      simp [hany]
    · simp [h.upward c q hq hc]

end Forest

end Tree

/-! ### What was done to a tree -/

/-- Does to a tree what a log tells. -/
def TreeOp.run : TreeOp → Tree → Tree
  | .alloc kind span, t => (t.alloc kind span).1
  | .allocError span, t => (t.allocError span).1
  | .fill id kind, t => (t.fill id kind).1
  | .markError id, t => t.markError id
  | .update id kind, t => t.modifyKind id fun _ => kind

namespace Tree

/-- The tree to which this was done, the last thing first, when there were no nodes yet. -/
def ofLog (log : List TreeOp) : Tree := log.foldr TreeOp.run {}

theorem ofLog_cons (op : TreeOp) (log : List TreeOp) : ofLog (op :: log) = op.run (ofLog log) := rfl

theorem modifyKind_of_none {id : NodeId} (h : t.kind? id = none) (f : NodeKind → NodeKind) :
    t.modifyKind id f = t := by
  have hnone : t.node? id = none := by simpa [kind?] using h
  have hsame : t.changeKind id f = t := modify_of_size_le _ (node?_eq_none.mp hnone)
  simp [modifyKind, hsame, h]

/-- To change a node is to give it the kind that this makes of its own. -/
theorem modifyKind_of_some {id : NodeId} {k : NodeKind} (h : t.kind? id = some k)
    (f : NodeKind → NodeKind) : t.modifyKind id f = (TreeOp.update id (f k)).run t := by
  have hnodes : (t.modifyKind id f).nodes = (t.modifyKind id fun _ => f k).nodes := by
    refine nodes_ext fun i => ?_
    simp only [node?_modifyKind]
    split
    · rename_i hi
      obtain ⟨n, hn, rfl⟩ := kind?_eq_some.mp h
      simp [hi, hn]
    · rfl
  have hlog : (t.modifyKind id f).log = (t.modifyKind id fun _ => f k).log := by
    simp [modifyKind, h]
  exact congrArg₂ Tree.mk hnodes hlog

/-- A tree that was made from no nodes by what its log tells, and was a forest all the
while. -/
structure Grown (t : Tree) : Prop where
  replay : ofLog t.log = t
  forests : ∀ log, log <:+ t.log → (ofLog log).Forest

namespace Grown

theorem empty : Grown {} where
  replay := rfl
  forests log h := by
    obtain rfl := List.suffix_nil.mp h
    exact .empty

theorem forest (h : t.Grown) : t.Forest := h.replay ▸ h.forests t.log List.suffix_rfl

/-- One operation more that leaves a forest. -/
theorem run (h : t.Grown) (op : TreeOp) (hlog : (op.run t).log = op :: t.log)
    (hf : (op.run t).Forest) : (op.run t).Grown where
  replay := by rw [hlog, ofLog_cons, h.replay]
  forests log hlate := by
    rw [hlog] at hlate
    rcases List.suffix_cons_iff.mp hlate with rfl | hlate
    · rwa [ofLog_cons, h.replay]
    · exact h.forests log hlate

theorem alloc (h : t.Grown) (kind : NodeKind) (span : Span)
    (hfree : ∀ c ∈ kind.children, t.Has c ∧ t.parent? c = none) (honce : kind.children.Nodup) :
    (t.alloc kind span).1.Grown :=
  h.run (.alloc kind span) rfl (h.forest.alloc kind span hfree honce)

theorem allocError (h : t.Grown) (span : Span) : (t.allocError span).1.Grown :=
  h.run (.allocError span) rfl (h.forest.allocError span)

theorem fill (h : t.Grown) {id : NodeId} {kind : NodeKind} (hid : t.Has id)
    (hf : (t.fill id kind).1.Forest) : (t.fill id kind).1.Grown :=
  h.run (.fill id kind) (by simp [TreeOp.run, Tree.fill, hid]) hf

theorem markError (h : t.Grown) {id : NodeId} (hroot : t.parent? id = none) :
    (t.markError id).Grown :=
  h.run (.markError id) rfl (h.forest.markError hroot)

theorem modifyKind {f : NodeKind → NodeKind} (h : t.Grown) (id : NodeId)
    (hf : ∀ k, (f k).children = k.children) : (t.modifyKind id f).Grown := by
  rcases hk : t.kind? id with _ | k
  · rwa [modifyKind_of_none hk]
  · have hforest := h.forest.modifyKind id hf
    rw [modifyKind_of_some hk] at hforest ⊢
    exact h.run _ (by simp [TreeOp.run, Tree.modifyKind, hk]) hforest

/-- A note about a use is one operation or none. -/
theorem noteUse (h : t.Grown) (id : NodeId) (kind : NodeKind) : (t.noteUse id kind).Grown := by
  unfold Tree.noteUse
  split
  · unfold addReference
    split
    · exact h.modifyKind _ fun k => (k.noted_mapVariable id).children
    · exact h
  · exact h.modifyKind _ fun k => (k.noted_mapFunction id).children
  · rw [addJump_eq]
    exact h.modifyKind _ fun k => (k.noted_withJump id).children
  · exact h

/-- Appending a statement takes its mark from the one before and notes its place. -/
theorem append (h : t.Grown) {id : NodeId} {tr tr' : Tracker} {facts : Facts} {reach : Reach}
    (happ : t.append tr id facts = ⟨t', tr', .ok reach⟩) : t'.Grown := by
  obtain ⟨-, -, -, -, -, rfl⟩ := append_ok happ
  have hplace : ∀ {u : Tree}, u.Grown → ∀ info always, (u.place id info always).Grown := by
    refine fun hu info always => hu.modifyKind _ fun k => ?_
    cases k with
    | stmt s => exact children_placed s info always
    | _ => rfl
  rcases tr.statements.getLast? with _ | last
  · exact hplace h _ _
  · exact hplace (h.modifyKind last fun k => by cases k <;> rfl) _ _

end Grown

end Tree

/-! ### Functions and states are filled once -/

/-- What was not filled is empty. -/
def Progress.Unfilled (p : Progress) : Prop :=
  ∀ i k, p.run.tree.kind? i = some k → i ∉ p.filled → k.filling = []

theorem Progress.Unfilled.grow {P : Nat → Prop} (h : p.Unfilled)
    (hg : p.run.tree.Grows P p'.run.tree) (hfilled : p.filled ⊆ p'.filled)
    (hP : ∀ i, P i → i ∈ p'.filled ∨ p.run.tree.sort? i = some .stmt)
    (hnew : ∀ i k, p'.run.tree.kind? i = some k → ¬ p.run.tree.Has i → k.filling = []) :
    p'.Unfilled := by
  intro i k' hk' hi
  by_cases hold : p.run.tree.Has i
  · obtain ⟨n, hn⟩ := Tree.exists_node? hold
    have hk := Tree.kind?_of_node? hn
    by_cases hPi : P i
    · have hsort := hg.sort? ((hP i hPi).resolve_left hi)
      rw [Tree.sort?_of_kind? hk'] at hsort
      cases k' <;> first | rfl | cases hsort
    · rw [hg.filling hPi hk hk']
      exact h i n.kind hk fun hmem => hi (hfilled hmem)
  · exact hnew i k' hk' hold

/-- Nodes are made without what they are filled with. -/
theorem NodeKind.filling_of_outline {k : NodeKind} (h : k.outline = k) : k.filling = [] := by
  cases k with
  | function f =>
    have hbody : none = f.body := congrArg NodeKind.body? h
    simp [filling, ← hbody]
  | state s => exact (congrArg NodeKind.filling h).symm
  | _ => rfl

theorem Act.unfilled (hact : Act script library p p') (h : p.Unfilled) : p'.Unfilled := by
  have hsame : ∀ {u : Tree} {i : Nat} {k : NodeKind}, u.size = p.run.tree.size →
      u.kind? i = some k → ¬ p.run.tree.Has i → k.filling = [] :=
    fun hsize hk hi => absurd (Nat.lt_of_lt_of_eq (Tree.has_of_kind? hk) hsize) hi
  have hmade : ∀ {kind : NodeKind} {span : Span} {i : Nat} {k : NodeKind}, kind.filling = [] →
      (p.run.tree.alloc kind span).1.kind? i = some k → ¬ p.run.tree.Has i → k.filling = [] := by
    intro kind span i k hkind hk hi
    rw [Tree.kind?_alloc] at hk
    split at hk
    · cases hk
      exact hkind
    · exact absurd (Tree.has_of_kind? hk) hi
  cases hact with
  | say | shuffle | names | openScope | enterBody => exact h
  | fault id ns hid hne hns =>
    exact h.grow (P := fun _ => False) Tree.grows_markError (List.Subset.refl _)
      (fun i hi => hi.elim) fun i k hk => hsame Tree.size_markError hk
  | reject dropped rest ns span hl hns hwhy =>
    refine h.grow (P := fun _ => False) (Tree.grows_allocError span) (List.Subset.refl _)
      (fun i hi => hi.elim) fun i k hk hi => ?_
    rw [Tree.kind?_allocError] at hk
    split at hk
    · cases hk
      rfl
    · exact absurd (Tree.has_of_kind? hk) hi
  | make kind rest span ns hl hnew hf hj hs he hns =>
    refine h.grow (P := fun _ => False) ((Tree.grows_alloc kind span).idem (Tree.grows_settle _ kind))
      (List.Subset.refl _) (fun i hi => hi.elim) fun i k hk hi => ?_
    have hsettled : ((p.run.tree.alloc kind span).1.settle (!ns.isEmpty) p.run.tree.size kind).kind? i
        = some k := hk
    obtain ⟨n, hn⟩ := Tree.exists_node? (Nat.lt_of_lt_of_eq (Tree.has_of_kind? hsettled)
      (Tree.size_settle _ kind))
    have hsettle : (p.run.tree.alloc kind span).1.Grows (fun _ => False)
        ((p.run.tree.alloc kind span).1.settle (!ns.isEmpty) p.run.tree.size kind) :=
      Tree.grows_settle _ kind
    rw [hsettle.filling (by simp) (Tree.kind?_of_node? hn) hsettled]
    exact hmade (NodeKind.filling_of_outline hnew) (Tree.kind?_of_node? hn) hi
  | append id s rest tr tr' aside outer t' reach hl hst hs hk happ =>
    have hsort := Tree.sort?_of_kind? (Tree.stmt?_eq_some.mp hs)
    refine h.grow (Tree.grows_append happ hs (by simp [hk])) (List.Subset.refl _)
      (fun i hi => .inr (hi ▸ hsort)) fun i k hk' => ?_
    exact hsame (Tree.retains_append happ hs (by simp [hk])).size hk'
  | appendLabel id s rest tr tr' aside outer t' reach hl hst hs hk hscope hindex happ =>
    have hsort := Tree.sort?_of_kind? (Tree.stmt?_eq_some.mp hs)
    refine h.grow (Tree.grows_append happ hs fun _ => ⟨hscope, hindex⟩) (List.Subset.refl _)
      (fun i hi => .inr (hi ▸ hsort)) fun i k hk' => ?_
    exact hsame (Tree.retains_append happ hs fun _ => ⟨hscope, hindex⟩).size hk'
  | closeScope tr aside outer kind span hl hst hpending =>
    exact h.grow (P := fun _ => False) (Tree.grows_alloc _ span) (List.Subset.refl _)
      (fun i hi => hi.elim) fun i k hk => hmade rfl hk
  | fillFunction id f body c rest hl hid hopen hf hb hcallable hret =>
    obtain ⟨n, hn, hk⟩ := Tree.kind?_eq_some.mp hf
    refine h.grow (P := (· = id)) (Tree.grows_fill hn rfl (by rw [hk]; rfl) (by rw [hk]; rfl)
      (fun _ => rfl) (by rw [hk]; exact List.Subset.refl _)) (List.subset_cons_self _ _)
      (fun i hi => .inl (hi ▸ List.mem_cons_self)) fun i k hk' => hsame (Tree.size_fill _) hk'
  | fillState id s handlers rest hl hid hopen hs hh =>
    obtain ⟨n, hn, hk⟩ := Tree.kind?_eq_some.mp hs
    refine h.grow (P := (· = id)) (Tree.grows_fill hn rfl (by rw [hk]; rfl) (by rw [hk]; rfl)
      (by rw [hk]; exact fun h => h) (by rw [hk]; exact List.Subset.refl _)) (List.subset_cons_self _ _)
      (fun i hi => .inl (hi ▸ List.mem_cons_self)) fun i k hk' => hsame (Tree.size_fill _) hk'

theorem Acts.unfilled (h : Acts script library {} p) : p.Unfilled := by
  induction h with
  | refl => simp [Progress.Unfilled, Tree.kind?, Tree.node?]
  | tail _ hact ih => exact hact.unfilled ih

/-! ### Forests along a run -/

/-- **Every act is a few operations on the tree, each of which leaves a forest.** -/
theorem Act.grown (hact : Act script library p p') (hs : p.run.tree.Shaped script library p.roots)
    (hu : p.Unfilled) (h : p.run.tree.Grown) : p'.run.tree.Grown := by
  cases hact with
  | say | shuffle | names | openScope | enterBody => exact h
  | fault id ns hid hne hns => exact h.markError (hs.orphans id hid).2
  | reject dropped rest ns span hl hns hwhy => exact h.allocError span
  | make kind rest span ns hl hnew hf hj hsort he hns =>
    rw [Progress.roots_of_loose hl] at hs
    have horphans : ∀ c ∈ kind.children, p.run.tree.Has c ∧ p.run.tree.parent? c = none :=
      fun c hc => hs.orphans c (List.mem_append_left _ hc)
    have hmade := h.alloc kind span horphans (List.nodup_append.mp hs.distinct).1
    change (Tree.settle _ (!ns.isEmpty) _ kind).Grown
    unfold Tree.settle
    split
    · refine (hmade.markError ?_).noteUse _ kind
      exact Tree.parent?_of_node? (Tree.node?_alloc_self kind span fun c hc => (horphans c hc).1)
    · exact hmade.noteUse _ kind
  | append id s rest tr tr' aside outer t' reach hl hst hstmt hk happ => exact h.append happ
  | appendLabel id s rest tr tr' aside outer t' reach hl hst hstmt hk hscope hindex happ =>
    exact h.append happ
  | closeScope tr aside outer kind span hl hst hpending =>
    rw [Progress.roots_of_level hl hst] at hs
    exact h.alloc _ span (fun c hc => hs.orphans c (List.mem_append_left _ hc))
      (List.nodup_append.mp hs.distinct).1
  | fillFunction id f body c rest hl hid hopen hf hb hcallable hret =>
    have hr : p.roots = [body] ++ (rest ++ p.besides) := Progress.roots_of_loose hl
    rw [hr] at hs
    have hempty : f.body = none := by simpa [NodeKind.filling] using hu id _ hf hopen
    have hhas := Tree.has_of_kind? hf
    have hparams : p.run.tree.children id = f.params := by
      simp [Tree.children_of_kind? hf, NodeKind.children, hempty]
    have hown : ∀ x ∈ f.params, p.run.tree.parent? x = some id :=
      fun x hx => (h.forest.links x id).mpr (hparams ▸ hx)
    have hparts : ∀ x ∈ (NodeKind.function { f with body := some body }).children,
        x ∈ f.params ∨ x ∈ [body] := fun x hx => List.mem_append.mp hx
    obtain ⟨hbody, hnone⟩ := hs.orphans body (List.mem_append_left _ List.mem_cons_self)
    have hroot := (hs.orphans id (List.mem_append_right _ (List.mem_append_left _ hid))).2
    refine h.fill hhas (h.forest.fill hhas hroot ?_ ?_ ?_ fun x hx => ?_)
    · exact hs.not_mem_children_of_fill hf
        (fun x hx => (hparts x hx).imp_left (List.mem_append_left _)) (List.mem_append_left _ hid)
    · exact hparams ▸ List.subset_append_left _ _
    · refine List.nodup_append.mpr ⟨hparams ▸ h.forest.once id, List.nodup_singleton _, ?_⟩
      rintro x hx y hy rfl
      rw [← List.mem_singleton.mp hy, hown x hx] at hnone
      cases hnone
    · rcases hparts x hx with hx | hx
      · exact ⟨Tree.has_of_parent? (hown x hx), .inl (hown x hx)⟩
      · exact List.mem_singleton.mp hx ▸ ⟨hbody, .inr hnone⟩
  | fillState id s handlers rest hl hid hopen hk hh =>
    rw [Progress.roots_of_loose hl] at hs
    have hempty : s.handlers = [] := hu id _ hk hopen
    have hhas := Tree.has_of_kind? hk
    have hparts : ∀ x ∈ (NodeKind.state { s with handlers }).children,
        x ∈ (NodeKind.state s).children ∨ x ∈ handlers := fun x hx => .inr hx
    have hroot := (hs.orphans id (List.mem_append_right _ (List.mem_append_left _ hid))).2
    refine h.fill hhas (h.forest.fill hhas hroot ?_ ?_ (List.nodup_append.mp hs.distinct).1
      fun x hx => ?_)
    · exact hs.not_mem_children_of_fill hk hparts (List.mem_append_left _ hid)
    · rw [Tree.children_of_kind? hk]
      simp [NodeKind.children, hempty]
    · obtain ⟨hx', hnone⟩ := hs.orphans x (List.mem_append_left _ hx)
      exact ⟨hx', .inr hnone⟩

theorem Acts.grown (h : Acts script library {} p) : p.run.tree.Grown := by
  induction h with
  | refl => exact .empty
  | tail hacts hact ih => exact hact.grown (Acts.shaped hacts) (Acts.unfilled hacts) ih

/-- **A tree is a forest at every moment of a run.** Checking a script starts from no
nodes, and the tree that comes of it is made by what its log tells; after each thing
told there the nodes are a forest, in which the walks upward end by themselves. In
the end, unless an error is reported, the script is above every other node. -/
theorem Script.check_forest (script : Script) (library : Catalog) (options : CheckOptions) :
    ∃ c, script.check library options = .ok c ∧ Tree.ofLog c.tree.log = c.tree
      ∧ (∀ log, log <:+ c.tree.log → (Tree.ofLog log).Forest ∧ (Tree.ofLog log).WalksEnd)
      ∧ ((∀ n ∈ c.notices, n.isFault = false) →
        ∀ i, c.tree.Has i → i ≠ c.root → c.root ∈ c.tree.ancestors i) := by
  obtain ⟨c, -, -, hcheck, -⟩ := script.check_holds library options
  obtain ⟨p, n, hfinished, htree, -, hnotices⟩ := Script.check_acts hcheck
  have hgrown := Acts.grown hfinished.acts
  rw [htree] at hgrown
  refine ⟨c, hcheck, hgrown.replay,
    fun log hlog => ⟨hgrown.forests log hlog, (hgrown.forests log hlog).walksEnd⟩,
    fun hclean i hi hne => ?_⟩
  have hspotless : ¬ p.run.Faulty := by
    rintro ⟨m, hm, hmark⟩
    rw [Notice.marks_of_isFault (hclean m (hnotices.mem_iff.mpr hm))] at hmark
    cases hmark
  exact hgrown.forest.mem_ancestors (htree ▸ hfinished.within_root hspotless (htree ▸ hi)) hne

section

open Build

/-- A script without errors in which a label is made before the jump to it, and a function
is called before it gets its body. -/
def Script.detour : Script :=
  { globals := [varDecl .integer "start" (some (int 1))]
    functions := [function .void "before" [] [exprStmt (call "after" [ident "start"])],
      function .void "after" [param .integer "n"] [jump "end", label "end"]]
    defaultState := some (state defaultStateName
      [handler "state_entry" [] [exprStmt (call "before" [])]]) }

theorem Script.detour_forest :
    ∃ c, Script.detour.check .standard { sortNotices := false } = .ok c
      ∧ (∀ n ∈ c.notices, n.isFault = false) ∧ 1 < c.tree.size
      ∧ Tree.ofLog c.tree.log = c.tree
      ∧ (∀ log, log <:+ c.tree.log → (Tree.ofLog log).Forest ∧ (Tree.ofLog log).WalksEnd)
      ∧ ∀ i, c.tree.Has i → i ≠ c.root → c.root ∈ c.tree.ancestors i := by
  have hcheck : (Script.detour.check .standard { sortNotices := false }).toOption.any
      (fun c => c.notices.all (!·.isFault) && decide (1 < c.tree.size)) = true := by decide +kernel
  obtain ⟨c, hc, hP⟩ := exists_ok_of_any hcheck
  obtain ⟨hclean, hsize⟩ : (∀ n ∈ c.notices, n.isFault = false) ∧ 1 < c.tree.size := by
    simpa using hP
  obtain ⟨c', hc', hreplay, hforests, hroot⟩ :=
    Script.check_forest Script.detour .standard { sortNotices := false }
  obtain rfl : c' = c := Except.ok.inj (hc'.symm.trans hc)
  exact ⟨c', hc, hclean, hsize, hreplay, hforests, hroot hclean⟩

end

end Lsl
