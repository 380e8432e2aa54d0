/- # What the operations on a tree do to its nodes

Every operation on a tree is described node by node: what the node at a number
is afterwards, given what it was. Marking a node that nothing has adopted marks
this node alone, and a new node changes its children only in that it becomes
their parent.

Key definitions: `Tree.Has`, `Node.adoptedBy`.
Key theorems: `Tree.mark_of_orphan`, `Tree.node?_alloc`,
`Tree.node?_alloc_self`, `Tree.node?_fill`, `Tree.node?_fill_self`.
-/
import Lsl.Reachability
import Mathlib.Logic.Relation
import Mathlib.Tactic.ByContra

namespace Lsl

namespace Tree

/-- The tree has a node with this number. -/
abbrev Has (t : Tree) (id : Nat) : Prop := id < t.size

variable {t : Tree} {id i : Nat}

/-! ### Looking -/

theorem has_of_node? {n : Node} (h : t.node? i = some n) : t.Has i :=
  (Array.getElem?_eq_some_iff.mp h).1

theorem node?_eq_none : t.node? i = none ↔ t.size ≤ i := by
  unfold node? size
  exact Array.getElem?_eq_none_iff

theorem exists_node? (h : t.Has i) : ∃ n, t.node? i = some n :=
  ⟨_, Array.getElem?_eq_some_iff.mpr ⟨h, rfl⟩⟩

theorem kind?_eq_some {k : NodeKind} :
    t.kind? i = some k ↔ ∃ n, t.node? i = some n ∧ n.kind = k := by
  simp [kind?]

theorem stmt?_eq_some {s : StmtNode} : t.stmt? i = some s ↔ t.kind? i = some (.stmt s) := by
  unfold stmt?
  rcases t.kind? i with _ | k
  · simp
  · cases k <;> simp [NodeKind.stmt?]

theorem scope?_eq_some {s : CodeScope} : t.scope? i = some s ↔ t.kind? i = some (.scope s) := by
  unfold scope?
  rcases t.kind? i with _ | k
  · simp
  · cases k <;> simp [NodeKind.scope?]

theorem expr?_eq_some {e : ExprNode} : t.expr? i = some e ↔ t.kind? i = some (.expr e) := by
  unfold expr?
  rcases t.kind? i with _ | k
  · simp
  · cases k <;> simp [NodeKind.expr?]

theorem function?_eq_some {f : FunctionNode} :
    t.function? i = some f ↔ t.kind? i = some (.function f) := by
  unfold function?
  rcases t.kind? i with _ | k
  · simp
  · cases k <;> simp [NodeKind.function?]

theorem has_of_kind? {k : NodeKind} (h : t.kind? i = some k) : t.Has i := by
  obtain ⟨n, hn, -⟩ := kind?_eq_some.mp h
  exact has_of_node? hn

theorem kind?_of_node? {n : Node} (h : t.node? i = some n) : t.kind? i = some n.kind := by
  simp [kind?, h]

theorem parent?_of_node? {n : Node} (h : t.node? i = some n) : t.parent? i = n.parent := by
  simp [parent?, h]

theorem hasErrors_of_node? {n : Node} (h : t.node? i = some n) : t.hasErrors i = n.hasErrors := by
  simp [hasErrors, h]

theorem has_of_hasErrors (h : t.hasErrors i = true) : t.Has i := by
  by_contra hi
  have hn : t.node? i = none := node?_eq_none.mpr (by omega)
  simp [hasErrors, hn] at h

theorem children_of_kind? {k : NodeKind} (h : t.kind? i = some k) : t.children i = k.children := by
  simp [children, h]

theorem exists_kind?_of_mem_children {c : NodeId} (h : c ∈ t.children i) :
    ∃ k, t.kind? i = some k ∧ c ∈ k.children := by
  unfold children at h
  cases hk : t.kind? i with
  | none => simp [hk] at h
  | some k => exact ⟨k, rfl, by simpa [hk] using h⟩

/-! ### Changing one node -/

@[simp] theorem size_modify (f : Node → Node) : (t.modify id f).size = t.size := by
  simp [modify, size]

theorem node?_modify (f : Node → Node) :
    (t.modify id f).node? i = if i = id then (t.node? i).map f else t.node? i := by
  unfold modify node?
  rw [Array.getElem?_modify]
  by_cases h : id = i
  · subst h
    simp
  · rw [if_neg h, if_neg (Ne.symm h)]

theorem node?_modify_self (f : Node → Node) : (t.modify id f).node? id = (t.node? id).map f := by
  rw [node?_modify, if_pos rfl]

theorem node?_modify_ne (f : Node → Node) (h : i ≠ id) : (t.modify id f).node? i = t.node? i := by
  rw [node?_modify, if_neg h]

theorem modify_of_size_le (f : Node → Node) (h : t.size ≤ id) : t.modify id f = t := by
  have hn : ¬ t.nodes.size > id := by unfold size at h; omega
  simp [modify, Array.modify, Array.modifyM, hn, Id.run, pure]

theorem nodes_ext {t t' : Tree} (h : ∀ i, t.node? i = t'.node? i) : t.nodes = t'.nodes :=
  Array.ext_getElem? fun {i} => h i

@[simp] theorem size_modifyKind (f : NodeKind → NodeKind) : (t.modifyKind id f).size = t.size :=
  size_modify _

theorem node?_modifyKind (f : NodeKind → NodeKind) : (t.modifyKind id f).node? i
    = if i = id then (t.node? i).map fun n => { n with kind := f n.kind } else t.node? i :=
  node?_modify _

/-- Notes on nodes leave the marks. -/
theorem hasErrors_modifyKind (f : NodeKind → NodeKind) :
    (t.modifyKind id f).hasErrors i = t.hasErrors i := by
  unfold hasErrors
  rw [node?_modifyKind]
  rcases t.node? i with _ | n <;> split <;> rfl

theorem parent?_modifyKind (f : NodeKind → NodeKind) :
    (t.modifyKind id f).parent? i = t.parent? i := by
  unfold parent?
  rw [node?_modifyKind]
  rcases t.node? i with _ | n <;> split <;> rfl

/-! ### Marking nodes -/

/-- Marking a node that has no parent changes this node only. -/
theorem mark_of_orphan (h : t.parent? id = none) :
    t.mark id = t.modify id fun n => { n with hasErrors := true } := by
  unfold mark
  rcases hn : t.node? id with _ | n
  · rw [modify_of_size_le _ (node?_eq_none.mp hn)]
    cases t.size <;> simp [markUpward, hn]
  · have hs : t.size ≠ 0 := by
      have := has_of_node? hn
      omega
    obtain ⟨k, hk⟩ := Nat.exists_eq_succ_of_ne_zero hs
    have hp : n.parent = none := by rw [← parent?_of_node? hn, h]
    rw [hk, Nat.succ_eq_add_one, markUpward, hn]
    simp only [hp]
    cases k <;> rfl

theorem node?_markError_of_orphan (h : t.parent? id = none) : (t.markError id).node? i
    = if i = id then (t.node? i).map fun n => { n with hasErrors := true } else t.node? i := by
  change (t.mark id).node? i = _
  rw [mark_of_orphan h, node?_modify]

/-- Marking nodes upward leaves everything about a node but its mark. -/
theorem node?_markUpward (steps : Nat) (next : Option NodeId) {n : Node} (h : t.node? i = some n) :
    ∃ b, (t.markUpward steps next).node? i = some { n with hasErrors := n.hasErrors || b } := by
  induction steps generalizing t next n with
  | zero => exact ⟨false, by simp [markUpward, h]⟩
  | succ steps ih =>
    rcases next with _ | j
    · exact ⟨false, by simp [markUpward, h]⟩
    · unfold markUpward
      cases hj : t.node? j with
      | none => exact ⟨false, by simp [h]⟩
      | some m =>
        by_cases hij : i = j
        · subst hij
          obtain ⟨b, hb⟩ := ih (t := t.modify i fun n => { n with hasErrors := true })
            (n := { n with hasErrors := true }) m.parent (by rw [node?_modify_self, h]; rfl)
          exact ⟨true, by simpa using hb⟩
        · exact ih m.parent (by rw [node?_modify_ne _ hij, h])

@[simp] theorem size_markUpward (steps : Nat) (next : Option NodeId) :
    (t.markUpward steps next).size = t.size := by
  induction steps generalizing t next with
  | zero => rfl
  | succ steps ih =>
    rcases next with _ | j
    · rfl
    · unfold markUpward
      split
      · rfl
      · rw [ih, size_modify]

@[simp] theorem size_markError : (t.markError id).size = t.size := size_markUpward _ _

theorem kind?_markError : (t.markError id).kind? i = t.kind? i := by
  rcases hn : t.node? i with _ | n
  · have hnone : (t.markError id).node? i = none := by
      rw [node?_eq_none] at hn ⊢
      rwa [size_markError]
    simp [kind?, hn, hnone]
  · obtain ⟨b, hb⟩ := node?_markUpward t.size (some id) hn
    have hk := kind?_of_node? hb
    rw [kind?_of_node? hn]
    exact hk

/-- A node is marked once it is reported on. -/
theorem hasErrors_markError_self (h : t.Has id) : (t.markError id).hasErrors id = true := by
  obtain ⟨n, hn⟩ := exists_node? h
  obtain ⟨k, hk⟩ := Nat.exists_eq_succ_of_ne_zero (n := t.size) (by omega)
  change (t.mark id).hasErrors id = true
  unfold mark
  rw [hk, Nat.succ_eq_add_one, markUpward, hn]
  obtain ⟨b, hb⟩ := node?_markUpward (t := t.modify id fun n => { n with hasErrors := true })
    (i := id) (n := { n with hasErrors := true }) k n.parent (by rw [node?_modify_self, hn]; rfl)
  simp [hasErrors, hb]

end Tree

/-! ### New nodes -/

/-- A node with a parent it may have got. -/
def Node.adoptedBy (n : Node) (parent : NodeId) (adopted : Bool) : Node :=
  if adopted then { n with parent := some parent } else n

@[simp] theorem Node.adoptedBy_kind (n : Node) (p : NodeId) (b : Bool) :
    (n.adoptedBy p b).kind = n.kind := by
  cases b <;> rfl

@[simp] theorem Node.adoptedBy_span (n : Node) (p : NodeId) (b : Bool) :
    (n.adoptedBy p b).span = n.span := by
  cases b <;> rfl

@[simp] theorem Node.adoptedBy_hasErrors (n : Node) (p : NodeId) (b : Bool) :
    (n.adoptedBy p b).hasErrors = n.hasErrors := by
  cases b <;> rfl

theorem Node.adoptedBy_parent (n : Node) (p : NodeId) (b : Bool) :
    (n.adoptedBy p b).parent = if b then some p else n.parent := by
  cases b <;> rfl

namespace Tree

variable {t : Tree} {id i : Nat}

/-- Setting the parent of some nodes, one after the other. -/
theorem node?_adopt (cs : List NodeId) :
    (cs.foldl (fun t c => t.modify c fun n => { n with parent := some id }) t).node? i
      = (t.node? i).map fun n => n.adoptedBy id (cs.contains i) := by
  induction cs generalizing t with
  | nil => simp [Node.adoptedBy]
  | cons c cs ih =>
    rw [List.foldl_cons, ih, node?_modify]
    by_cases hc : i = c
    · subst hc
      rcases t.node? i with _ | n
      · simp
      · cases hcs : cs.contains i <;> simp [Node.adoptedBy]
    · have hb : (i == c) = false := by simpa using hc
      rw [if_neg hc, List.contains_cons, hb, Bool.false_or]

@[simp] theorem size_adopt (cs : List NodeId) :
    (cs.foldl (fun t c => t.modify c fun n => { n with parent := some id }) t).size = t.size := by
  induction cs generalizing t with
  | nil => rfl
  | cons c cs ih => rw [List.foldl_cons, ih, size_modify]

theorem hasErrors_adopt (cs : List NodeId) :
    (cs.foldl (fun t c => t.modify c fun n => { n with parent := some id }) t).hasErrors
      = t.hasErrors := by
  funext i
  unfold hasErrors
  rw [node?_adopt]
  rcases t.node? i with _ | n <;> simp

/-- A node that is not its own child adopts its children and takes over their
marks; nothing else changes. -/
theorem node?_adoptChildren (hp : t.parent? id = none) (hc : id ∉ t.children id) :
    (t.adoptChildren id).node? i = (t.node? i).map fun n =>
      if i = id then { n with hasErrors := n.hasErrors || (t.children id).any t.hasErrors }
      else n.adoptedBy id ((t.children id).contains i) := by
  have hself : ((t.children id).contains id) = false := by simpa using hc
  unfold adoptChildren
  simp only [hasErrors_adopt]
  have hp' : Tree.parent? ((t.children id).foldl
      (fun t c => t.modify c fun n => { n with parent := some id }) t) id = none := by
    unfold parent? at hp ⊢
    rw [node?_adopt, hself]
    rcases hn : t.node? id with _ | n
    · rfl
    · simpa [hn, Node.adoptedBy] using hp
  cases ha : (t.children id).any t.hasErrors with
  | false =>
    simp only [Bool.false_eq_true, ↓reduceIte, Bool.or_false]
    rw [node?_adopt]
    by_cases hi : i = id
    · subst hi
      rw [hself]
      simp [Node.adoptedBy]
    · simp [hi]
  | true =>
    simp only [↓reduceIte, Bool.or_true]
    rw [mark_of_orphan hp', node?_modify, node?_adopt]
    by_cases hi : i = id
    · subst hi
      rw [if_pos rfl, hself]
      rcases t.node? i with _ | n <;> simp [Node.adoptedBy]
    · simp [hi]

theorem kind?_adoptChildren : (t.adoptChildren id).kind? i = t.kind? i := by
  have hadopt : Tree.kind? ((t.children id).foldl
      (fun t c => t.modify c fun n => { n with parent := some id }) t) i = t.kind? i := by
    unfold kind?
    rw [node?_adopt]
    rcases t.node? i with _ | n <;> simp
  unfold adoptChildren
  simp only
  split
  · exact (kind?_markError (t := _)).trans hadopt
  · exact hadopt

@[simp] theorem size_adoptChildren : (t.adoptChildren id).size = t.size := by
  unfold adoptChildren
  simp only
  split <;> simp [mark]

theorem size_push (kind : NodeKind) (span : Span) : (t.push kind span).size = t.size + 1 := by
  rw [push, size_adoptChildren]
  exact Array.size_push _

@[simp] theorem size_alloc (kind : NodeKind) (span : Span) :
    (t.alloc kind span).1.size = t.size + 1 := size_push kind span

@[simp] theorem alloc_snd (kind : NodeKind) (span : Span) : (t.alloc kind span).2 = t.size := rfl

theorem node?_addNode (n : Node) :
    (t.addNode n).node? i = if i = t.size then some n else t.node? i := by
  unfold addNode node? size
  rw [Array.getElem?_push]

/-- What the nodes are after a new one. -/
theorem kind?_alloc (kind : NodeKind) (span : Span) :
    (t.alloc kind span).1.kind? i = if i = t.size then some kind else t.kind? i := by
  change (t.push kind span).kind? i = _
  rw [push, kind?_adoptChildren]
  unfold kind?
  rw [node?_addNode]
  split <;> rfl

theorem kind?_alloc_self (kind : NodeKind) (span : Span) :
    (t.alloc kind span).1.kind? t.size = some kind := by
  rw [kind?_alloc, if_pos rfl]

/-- A new node whose children exist. -/
theorem node?_alloc_self (kind : NodeKind) (span : Span) (hc : ∀ c ∈ kind.children, t.Has c) :
    (t.alloc kind span).1.node? t.size
      = some { kind, span, hasErrors := kind.children.any t.hasErrors } := by
  have hn : (t.addNode { kind, span }).node? t.size = some { kind, span } := by
    rw [node?_addNode, if_pos rfl]
  have hk := children_of_kind? (kind?_of_node? hn)
  have hflag : ∀ c ∈ kind.children,
      (t.addNode { kind, span }).hasErrors c = t.hasErrors c := by
    intro c hcm
    unfold hasErrors
    rw [node?_addNode, if_neg (Nat.ne_of_lt (hc c hcm))]
  have hany : kind.children.any (t.addNode { kind, span }).hasErrors
      = kind.children.any t.hasErrors := by
    rw [Bool.eq_iff_iff, List.any_eq_true, List.any_eq_true]
    constructor
    · rintro ⟨c, h1, h2⟩; exact ⟨c, h1, by rw [← hflag c h1]; exact h2⟩
    · rintro ⟨c, h1, h2⟩; exact ⟨c, h1, by rw [hflag c h1]; exact h2⟩
  have hns : t.size ∉ kind.children := fun h => Nat.lt_irrefl _ (hc _ h)
  change (t.push kind span).node? t.size = _
  rw [push, node?_adoptChildren (by rw [parent?_of_node? hn]) (by rwa [hk]), hn, hk]
  simp [hany]

/-- A new node with a wrong child is wrong. -/
theorem hasErrors_alloc_of_any (kind : NodeKind) (span : Span) (hc : ∀ c ∈ kind.children, t.Has c)
    (h : kind.children.any t.hasErrors = true) :
    (t.alloc kind span).1.hasErrors t.size = true := by
  rw [hasErrors_of_node? (node?_alloc_self kind span hc), h]

/-- The nodes that were there before a new one. -/
theorem node?_alloc (kind : NodeKind) (span : Span) (hc : ∀ c ∈ kind.children, t.Has c)
    (hi : t.Has i) :
    (t.alloc kind span).1.node? i
      = (t.node? i).map fun n => n.adoptedBy t.size (kind.children.contains i) := by
  have hn : (t.addNode { kind, span }).node? t.size = some { kind, span } := by
    rw [node?_addNode, if_pos rfl]
  have hk := children_of_kind? (kind?_of_node? hn)
  have hns : t.size ∉ kind.children := fun h => Nat.lt_irrefl _ (hc _ h)
  change (t.push kind span).node? i = _
  rw [push, node?_adoptChildren (by rw [parent?_of_node? hn]) (by rwa [hk]), node?_addNode,
    if_neg (Nat.ne_of_lt hi), hk]
  simp [Nat.ne_of_lt hi]

theorem size_allocError (span : Span) : (t.allocError span).1.size = t.size + 1 :=
  (size_modify _).trans (size_push .error span)

theorem node?_allocError_self (span : Span) :
    (t.allocError span).1.node? t.size = some { kind := .error, span, hasErrors := true } := by
  have h := node?_alloc_self (t := t) .error span (by simp [NodeKind.children])
  change (t.push .error span).node? t.size = _ at h
  change ((t.push .error span).modify t.size _).node? t.size = _
  rw [node?_modify_self, h]
  rfl

theorem node?_allocError (span : Span) (hi : t.Has i) :
    (t.allocError span).1.node? i = t.node? i := by
  have h := node?_alloc (t := t) .error span (by simp [NodeKind.children]) hi
  change (t.push .error span).node? i = _ at h
  change ((t.push .error span).modify t.size _).node? i = _
  rw [node?_modify_ne _ (Nat.ne_of_lt hi), h]
  rcases t.node? i with _ | n <;> simp [NodeKind.children, Node.adoptedBy]

/-! ### Nodes of another kind -/

@[simp] theorem size_fill (kind : NodeKind) : (t.fill id kind).1.size = t.size := by
  unfold fill
  split
  · exact size_adoptChildren.trans (size_modify _)
  · rfl

theorem kind?_fill (kind : NodeKind) (hid : t.Has id) :
    (t.fill id kind).1.kind? i = if i = id then some kind else t.kind? i := by
  obtain ⟨n, hn⟩ := exists_node? hid
  unfold fill
  rw [if_pos hid]
  change ((t.changeKind id fun _ => kind).adoptChildren id).kind? i = _
  rw [kind?_adoptChildren]
  unfold changeKind kind?
  rw [node?_modify]
  split
  · rename_i h
    simp [h, hn]
  · rfl

/-- The node that is filled; it has no parent yet. -/
theorem node?_fill_self {kind : NodeKind} {n : Node} (hn : t.node? id = some n)
    (hp : n.parent = none) (hc : id ∉ kind.children) :
    (t.fill id kind).1.node? id
      = some { n with kind, hasErrors := n.hasErrors || kind.children.any t.hasErrors } := by
  have hid := has_of_node? hn
  have hm : (t.changeKind id fun _ => kind).node? id = some { n with kind } := by
    unfold changeKind
    rw [node?_modify_self, hn]
    rfl
  have hk := children_of_kind? (kind?_of_node? hm)
  have hflag : (t.changeKind id fun _ => kind).hasErrors = t.hasErrors := by
    funext c
    unfold changeKind hasErrors
    rw [node?_modify]
    by_cases h : c = id
    · subst h
      simp [hn]
    · simp [h]
  unfold fill
  rw [if_pos hid]
  change ((t.changeKind id fun _ => kind).adoptChildren id).node? id = _
  rw [node?_adoptChildren (by rw [parent?_of_node? hm]; exact hp) (by rw [hk]; exact hc), hm, hk,
    hflag]
  simp

/-- The other nodes when one is filled. -/
theorem node?_fill {kind : NodeKind} {n : Node} (hn : t.node? id = some n)
    (hp : n.parent = none) (hc : id ∉ kind.children) (hi : i ≠ id) :
    (t.fill id kind).1.node? i
      = (t.node? i).map fun n => n.adoptedBy id (kind.children.contains i) := by
  have hid := has_of_node? hn
  have hm : (t.changeKind id fun _ => kind).node? id = some { n with kind } := by
    unfold changeKind
    rw [node?_modify_self, hn]
    rfl
  have hk := children_of_kind? (kind?_of_node? hm)
  unfold fill
  rw [if_pos hid]
  change ((t.changeKind id fun _ => kind).adoptChildren id).node? i = _
  rw [node?_adoptChildren (by rw [parent?_of_node? hm]; exact hp) (by rw [hk]; exact hc), hk]
  unfold changeKind
  rw [node?_modify_ne _ hi]
  simp [hi]

end Tree

end Lsl
