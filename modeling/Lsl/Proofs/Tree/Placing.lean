/- # Placing statements and noting uses

A statement that is appended to its scope gets its place and its classification
noted on it; the one before it is no longer the last. Nothing else changes in
the tree. What uses a declaration, a function or a label is noted there.

Key definitions: `StmtNode.placed`, `Tree.noteUse`.
Key theorems: `Tree.append_ok`, `Tree.grows_append`, `Tree.node?_noteUse`.
-/
import Lsl.Check.Stmt
import Lsl.Proofs.Tree.Growth

namespace Lsl

/-! ### Classifying keeps what a tracker knows of its scope -/

namespace Tracker

variable {tr : Tracker}

@[simp] theorem close_scopeId : tr.close.scopeId = tr.scopeId := by
  unfold close
  split <;> rfl

@[simp] theorem close_statements : tr.close.statements = tr.statements := by
  unfold close
  split <;> rfl

@[simp] theorem close_constantJumps : tr.close.constantJumps = tr.constantJumps := by
  unfold close
  split <;> rfl

@[simp] theorem close_singleStatement : tr.close.singleStatement = tr.singleStatement := by
  unfold close
  split <;> rfl

@[simp] theorem close_returnPath : tr.close.returnPath = tr.returnPath := by
  unfold close
  split <;> rfl

/-- What appending a statement leaves as it is. -/
structure SameScope (tr tr' : Tracker) : Prop where
  scopeId : tr'.scopeId = tr.scopeId
  singleStatement : tr'.singleStatement = tr.singleStatement
  statements : tr'.statements = tr.statements
  constantJumps : tr'.constantJumps = tr.constantJumps

theorem SameScope.trans {tr tr' tr'' : Tracker} (h : tr.SameScope tr') (g : tr'.SameScope tr'') :
    tr.SameScope tr'' :=
  ⟨g.1.trans h.1, g.2.trans h.2, g.3.trans h.3, g.4.trans h.4⟩

theorem sameScope_revive : tr.SameScope tr.revive := by
  constructor <;> simp [revive]

theorem sameScope_openAfterJump (index : Nat) (span : Span) :
    tr.SameScope (tr.openAfterJump index span) := by
  unfold openAfterJump
  split
  · exact ⟨rfl, rfl, rfl, rfl⟩
  · split <;> exact ⟨rfl, rfl, rfl, rfl⟩

theorem sameScope_noteReturn (id : NodeId) (returns : Bool) (span : Span) :
    tr.SameScope (tr.noteReturn id returns span) := by
  unfold noteReturn
  split
  · exact ⟨rfl, rfl, rfl, rfl⟩
  · split
    · exact ⟨rfl, rfl, rfl, rfl⟩
    · split <;> exact ⟨rfl, rfl, rfl, rfl⟩

theorem sameScope_arrive (index : Nat) : tr.SameScope (tr.arrive index) := by
  unfold arrive
  split
  · split
    · constructor <;> simp
    · exact ⟨rfl, rfl, rfl, rfl⟩
  · exact ⟨rfl, rfl, rfl, rfl⟩

theorem sameScope_classify (tr : Tracker) (id : NodeId) (span : Span) (returns reached : Bool) :
    SameScope { tr with statements := tr.statements ++ [id] }
      (tr.classify id span returns reached).1 := by
  unfold classify
  simp only
  refine SameScope.trans ?_ ((((sameScope_openAfterJump _ span).trans
    (sameScope_noteReturn id returns span)).trans (sameScope_arrive _)).trans ⟨rfl, rfl, rfl, rfl⟩)
  split
  · exact sameScope_revive
  · exact ⟨rfl, rfl, rfl, rfl⟩

end Tracker

/-! ### Placing a statement -/

/-- The jump that a statement adds to what is known of its scope. -/
def Facts.jumpOf (facts : Facts) (reach : Reach) : Option ConstantJump :=
  if reach.isDead then none else facts.constantJump

/-- A statement at its place. -/
def StmtNode.placed (s : StmtNode) (info : StmtInfo) (alwaysJumps : Bool) : StmtNode where
  kind := if alwaysJumps then s.kind.markConstant else s.kind
  info := info

/-- A statement that may no longer be the last. -/
def StmtNode.passed (s : StmtNode) (stays : Bool) : StmtNode :=
  { s with info := { s.info with isLast := s.info.isLast && stays } }

namespace Tree

variable {t t' : Tree} {id i : Nat}

theorem stmt?_of_node? {n : Node} (h : t.node? i = some n) : t.stmt? i = n.kind.stmt? := by
  simp [stmt?, kind?, h]

theorem node?_unsetLast {n : Node} (h : t.node? i = some n) :
    (t.unsetLast id).node? i
      = some { n with kind := n.kind.mapStmt (·.passed (decide (i ≠ id))) } := by
  unfold unsetLast modifyStmt
  rw [node?_modifyKind]
  rcases n with ⟨kind, span, parent, flag⟩
  by_cases hi : i = id
  · subst hi
    rw [if_pos rfl, h]
    cases kind <;> simp [NodeKind.mapStmt, StmtNode.passed]
  · rw [if_neg hi, h]
    cases kind <;> simp [NodeKind.mapStmt, StmtNode.passed, hi]

@[simp] theorem size_unsetLast : (t.unsetLast id).size = t.size := by
  simp [unsetLast, modifyStmt]

theorem node?_unsetLast_none (h : t.node? i = none) : (t.unsetLast id).node? i = none := by
  rw [node?_eq_none] at h ⊢
  rwa [size_unsetLast]

theorem stmt?_unsetLast :
    (t.unsetLast id).stmt? i = (t.stmt? i).map (·.passed (decide (i ≠ id))) := by
  rcases h : t.node? i with _ | n
  · simp [stmt?, kind?, h, node?_unsetLast_none h]
  · rw [stmt?_of_node? h, stmt?_of_node? (node?_unsetLast h)]
    cases n.kind <;> rfl

theorem parent?_unsetLast : (t.unsetLast id).parent? i = t.parent? i := by
  rcases h : t.node? i with _ | n
  · simp [parent?, h, node?_unsetLast_none h]
  · rw [parent?_of_node? h, parent?_of_node? (node?_unsetLast h)]

theorem span_unsetLast : (t.unsetLast id).span i = t.span i := by
  rcases h : t.node? i with _ | n
  · simp [span, h, node?_unsetLast_none h]
  · simp [span, h, node?_unsetLast h]

theorem isLive_unsetLast : (t.unsetLast id).isLive i = t.isLive i := by
  unfold isLive
  rw [stmt?_unsetLast]
  rcases t.stmt? i with _ | s <;> rfl

theorem climb_unsetLast (steps : Nat) (next : Option NodeId) :
    (t.unsetLast id).climb steps next = t.climb steps next := by
  induction steps generalizing next with
  | zero => rfl
  | succ steps ih =>
    rcases next with _ | j
    · rfl
    · simp only [climb, parent?_unsetLast, ih]

/-- Whether a live jump leads to a label has nothing to do with what is last. -/
theorem reachedByLiveJump_unsetLast :
    (t.unsetLast id).reachedByLiveJump i = t.reachedByLiveJump i := by
  have hanc : ∀ j, (t.unsetLast id).ancestors j = t.ancestors j := fun j => by
    unfold ancestors
    rw [climb_unsetLast, parent?_unsetLast, size_unsetLast]
  have hlive : (t.unsetLast id).isLive = t.isLive := funext fun j => isLive_unsetLast
  unfold reachedByLiveJump
  rw [stmt?_unsetLast]
  rcases t.stmt? i with _ | ⟨kind, info⟩
  · rfl
  · cases kind <;> simp [StmtNode.passed, hanc, hlive]

/-- The tree in which the last statement so far has lost this mark. -/
def unsetLast? (t : Tree) : Option NodeId → Tree
  | some last => t.unsetLast last
  | none => t

theorem node?_unsetLast? (last : Option NodeId) {n : Node} (h : t.node? i = some n) :
    ∃ stays, (t.unsetLast? last).node? i = some { n with kind := n.kind.mapStmt (·.passed stays) } := by
  rcases last with _ | last
  · refine ⟨true, ?_⟩
    rcases n with ⟨kind, span, parent, flag⟩
    cases kind <;> simp [unsetLast?, h, NodeKind.mapStmt, StmtNode.passed]
  · exact ⟨_, node?_unsetLast h⟩

/-- The note that a statement gets at its place. -/
def placeInfo (tracker : Tracker) (id : NodeId) (facts : Facts) (reach : Reach) : StmtInfo where
  index := tracker.nextIndex
  isLast := true
  scopeId := tracker.scopeId
  dead := reach
  returnPath := if facts.returns then some id else none

/-- Appending classifies the statement as the tree has it; the mark of the one
before it plays no part. -/
theorem append_eq {tracker c : Tracker} {facts : Facts} {reach : Reach}
    (hl : tracker.statements.getLast?.filter (fun last => (t.stmt? last).isNone) = none)
    (hc : tracker.classify id (t.span id) facts.returns (t.reachedByLiveJump id) = (c, reach)) :
    t.append tracker id facts
      = if (t.stmt? id).isNone then
          ⟨t.unsetLast? tracker.statements.getLast?, c, .error (.unexpectedNode id "statement")⟩
        else
          ⟨(t.unsetLast? tracker.statements.getLast?).place id (placeInfo tracker id facts reach)
              (facts.jumpOf reach).isSome,
            c.record (facts.jumpOf reach), .ok reach⟩ := by
  have hid := (Tracker.sameScope_classify tracker id (t.span id) facts.returns
    (t.reachedByLiveJump id)).scopeId
  rw [hc] at hid
  unfold append
  rw [hl]
  rcases tracker.statements.getLast? with _ | last
  · simp only [hc, unsetLast?]
    rw [show c.scopeId = tracker.scopeId from hid]
    rfl
  · simp only [span_unsetLast, reachedByLiveJump_unsetLast, stmt?_unsetLast, Option.isNone_map, hc,
      unsetLast?]
    rw [show c.scopeId = tracker.scopeId from hid]
    rfl

/-- What it means that a statement was appended. -/
theorem append_ok {tracker tracker' : Tracker} {facts : Facts} {reach : Reach}
    (h : t.append tracker id facts = ⟨t', tracker', .ok reach⟩) :
    ∃ s c, t.stmt? id = some s
      ∧ tracker.classify id (t.span id) facts.returns (t.reachedByLiveJump id) = (c, reach)
      ∧ tracker' = c.record (facts.jumpOf reach)
      ∧ t' = (t.unsetLast? tracker.statements.getLast?).place id
          (placeInfo tracker id facts reach) (facts.jumpOf reach).isSome := by
  rcases hl : tracker.statements.getLast?.filter (fun last => (t.stmt? last).isNone)
    with _ | last
  · rcases hc : tracker.classify id (t.span id) facts.returns (t.reachedByLiveJump id)
      with ⟨c, r⟩
    rw [append_eq hl hc] at h
    split at h
    · simp at h
    · rename_i hsome
      obtain ⟨s, hs⟩ := Option.ne_none_iff_exists'.mp (by simpa using hsome)
      simp only [Appended.mk.injEq, Except.ok.injEq] at h
      obtain ⟨ht, htr, rfl⟩ := h
      exact ⟨s, c, hs, rfl, htr.symm, ht.symm⟩
  · unfold append at h
    rw [hl] at h
    simp at h

/-- The nodes of a tree in which a statement was placed. -/
theorem node?_place (id : Nat) (last : Option NodeId) (info : StmtInfo) (always : Bool) {n : Node}
    (h : t.node? i = some n) :
    ∃ stays, ((t.unsetLast? last).place id info always).node? i
      = some { n with kind := n.kind.mapStmt fun s =>
          if i = id then s.placed info always else s.passed stays } := by
  obtain ⟨stays, hu⟩ := node?_unsetLast? last h
  refine ⟨stays, ?_⟩
  unfold place modifyStmt
  rw [node?_modifyKind, hu]
  rcases n with ⟨kind, span, parent, flag⟩
  by_cases hi : i = id
  · cases kind <;> simp [hi, NodeKind.mapStmt, StmtNode.placed, StmtNode.passed]
  · cases kind <;> simp [hi, NodeKind.mapStmt]

@[simp] theorem size_place {last : Option NodeId} {info : StmtInfo} {always : Bool} :
    ((t.unsetLast? last).place id info always).size = t.size := by
  rcases last with _ | last <;> simp [unsetLast?, place, modifyStmt]

/-- A label that is placed where it was found beforehand, and any other
statement, keeps its outline. -/
theorem outline_placed {s : StmtNode} {info : StmtInfo} {always : Bool}
    (hl : s.kind.isLabel = true → s.info.scopeId = info.scopeId ∧ s.info.index = info.index) :
    (s.placed info always).outline = s.outline := by
  rcases s with ⟨kind, i⟩
  cases kind <;> cases always <;>
    simp_all [StmtNode.placed, StmtNode.outline, StmtKind.outline, StmtKind.markConstant,
      StmtKind.isLabel]

theorem uses_placed (s : StmtNode) (info : StmtInfo) (always : Bool) :
    NodeKind.uses (.stmt (s.placed info always)) = NodeKind.uses (.stmt s) := by
  rcases s with ⟨kind, i⟩
  cases kind <;> cases always <;> rfl

theorem grows_append {tracker tracker' : Tracker} {facts : Facts} {reach : Reach} {s : StmtNode}
    (h : t.append tracker id facts = ⟨t', tracker', .ok reach⟩) (hs : t.stmt? id = some s)
    (hl : s.kind.isLabel = true →
      s.info.scopeId = tracker.scopeId ∧ s.info.index = tracker.nextIndex) :
    t.Grows (· = id) t' := by
  obtain ⟨s', c, hs', -, -, rfl⟩ := append_ok h
  obtain rfl : s = s' := Option.some.inj (hs.symm.trans hs')
  refine .of_nodes size_place fun i n hn => ?_
  obtain ⟨stays, hp⟩ := node?_place id tracker.statements.getLast?
    (placeInfo tracker id facts reach) (facts.jumpOf reach).isSome hn
  refine ⟨_, hp, ⟨rfl, ?_, fun hi => ?_, fun hb => ?_, fun hm => hm, ?_, fun _ => ?_⟩, rfl⟩
  · by_cases hi : i = id
    · subst hi
      rw [stmt?_of_node? hn] at hs
      rcases n with ⟨kind, span, parent, flag⟩
      cases kind <;> simp [NodeKind.stmt?] at hs
      subst hs
      simp only [NodeKind.mapStmt, ↓reduceIte, NodeKind.outline]
      rw [outline_placed hl]
    · rcases n with ⟨kind, span, parent, flag⟩
      cases kind <;> simp [hi, NodeKind.mapStmt, NodeKind.outline, StmtNode.outline,
        StmtNode.passed]
  · rcases n with ⟨kind, span, parent, flag⟩
    cases kind <;> simp [hi, NodeKind.mapStmt, NodeKind.placing?, NodeKind.info?, StmtNode.passed]
  · rcases n with ⟨kind, span, parent, flag⟩
    cases kind <;> simp_all [NodeKind.mapStmt, NodeKind.body?]
  · rcases n with ⟨kind, span, parent, flag⟩
    cases kind with
    | stmt s =>
      simp only [NodeKind.mapStmt]
      split
      · rw [uses_placed]
        exact List.Subset.refl _
      · rcases s with ⟨_ | _, _⟩ <;> exact List.Subset.refl _
    | _ => exact List.Subset.refl _
  · rcases n with ⟨kind, span, parent, flag⟩
    cases kind <;> rfl

end Tree

/-! ### Noting uses -/

/-- What a note about a use leaves of a node. -/
structure NodeKind.Noted (k k' : NodeKind) : Prop where
  outline : k'.outline = k.outline
  info : k'.info? = k.info?
  body : k'.body? = k.body?
  children : k'.children = k.children
  uses : k.uses ⊆ k'.uses
  filling : k'.filling = k.filling

theorem NodeKind.Noted.refl (k : NodeKind) : k.Noted k :=
  ⟨rfl, rfl, rfl, rfl, List.Subset.refl _, rfl⟩

theorem NodeKind.noted_mapVariable (k : NodeKind) (use : NodeId) :
    k.Noted (k.mapVariable fun v => { v with references := v.references ++ [use] }) := by
  cases k with
  | stmt s =>
    rcases s with ⟨kind, info⟩
    cases kind <;> exact ⟨rfl, rfl, rfl, rfl, by simp [uses, mapVariable], rfl⟩
  | _ => exact ⟨rfl, rfl, rfl, rfl, by simp [uses, mapVariable], rfl⟩

theorem NodeKind.noted_mapFunction (k : NodeKind) (use : NodeId) :
    k.Noted (k.mapFunction fun f => { f with references := f.references ++ [use] }) := by
  cases k <;> exact ⟨rfl, rfl, rfl, rfl, by simp [uses, mapFunction], rfl⟩

/-- A label with one more jump that leads to it. -/
def StmtNode.withJump (jump : NodeId) (s : StmtNode) : StmtNode :=
  match s.kind with
  | .label name jumps => { s with kind := .label name (jumps ++ [jump]) }
  | _ => s

theorem NodeKind.noted_withJump (k : NodeKind) (jump : NodeId) :
    k.Noted (k.mapStmt (·.withJump jump)) := by
  cases k with
  | stmt s =>
    rcases s with ⟨kind, info⟩
    cases kind <;> exact ⟨rfl, rfl, rfl, rfl, by simp [uses, mapStmt, StmtNode.withJump], rfl⟩
  | _ => exact .refl _

namespace Tree

variable {t : Tree} {id i : Nat}

/-- Notes a new node at the declaration, function or label that it refers to. -/
def noteUse (t : Tree) (id : NodeId) : NodeKind → Tree
  | .expr ⟨.ref _ binding, _, _⟩ => addReference t binding id
  | .expr ⟨.call _ _ (.user function), _, _⟩ =>
    t.modifyFunction function fun f => { f with references := f.references ++ [id] }
  | .stmt ⟨.jump _ (some label) _, _⟩ => addJump t label id
  | _ => t

theorem addJump_eq (label jump : NodeId) :
    addJump t label jump = t.modifyKind label (·.mapStmt (·.withJump jump)) := rfl

theorem stmt?_addJump (label jump : NodeId) :
    (addJump t label jump).stmt? i
      = if i = label then (t.stmt? i).map (·.withJump jump) else t.stmt? i := by
  rw [addJump_eq]
  unfold stmt? kind?
  rw [node?_modifyKind]
  rcases t.node? i with _ | n
  · simp
  · split
    · cases hk : n.kind <;> simp [hk, NodeKind.mapStmt, NodeKind.stmt?]
    · rfl

theorem node?_modifyKind_noted {f : NodeKind → NodeKind} (hf : ∀ k, NodeKind.Noted k (f k))
    (d : Nat) {n : Node} (h : t.node? i = some n) :
    ∃ k, (t.modifyKind d f).node? i = some { n with kind := k } ∧ n.kind.Noted k := by
  rw [node?_modifyKind]
  by_cases hi : i = d
  · exact ⟨f n.kind, by rw [if_pos hi, h]; rfl, hf _⟩
  · exact ⟨n.kind, by rw [if_neg hi, h], .refl _⟩

/-- A note about a use leaves all nodes what they are. -/
theorem node?_noteUse (id : Nat) (kind : NodeKind) {n : Node} (h : t.node? i = some n) :
    ∃ k, (t.noteUse id kind).node? i = some { n with kind := k } ∧ n.kind.Noted k := by
  unfold noteUse
  split
  · rename_i binding _ _
    unfold addReference
    split
    · exact node?_modifyKind_noted (fun k => k.noted_mapVariable id) _ h
    · exact ⟨n.kind, h, .refl _⟩
  · exact node?_modifyKind_noted (fun k => k.noted_mapFunction id) _ h
  · rw [addJump_eq]
    exact node?_modifyKind_noted (fun k => k.noted_withJump id) _ h
  · exact ⟨n.kind, h, .refl _⟩

@[simp] theorem size_noteUse (kind : NodeKind) : (t.noteUse id kind).size = t.size := by
  unfold noteUse
  split
  · unfold addReference
    split <;> simp [modifyVariable]
  · simp [modifyFunction]
  · simp [addJump_eq]
  · rfl

theorem grows_noteUse {P : Nat → Prop} (kind : NodeKind) : t.Grows P (t.noteUse id kind) := by
  refine .of_nodes (size_noteUse kind) fun i n hn => ?_
  obtain ⟨k, hk, hn'⟩ := node?_noteUse id kind hn
  exact ⟨_, hk, ⟨rfl, hn'.outline, fun _ => congrArg (Option.map _) hn'.info,
    fun hb => by rw [hn'.body]; exact hb, fun h => h, hn'.uses, fun _ => hn'.filling⟩, rfl⟩

/-- What is done with a new node: it is marked if it is wrong, and it is noted at what
it refers to. -/
def settle (t : Tree) (wrong : Bool) (id : NodeId) (kind : NodeKind) : Tree :=
  (if wrong then t.markError id else t).noteUse id kind

@[simp] theorem size_settle (wrong : Bool) (kind : NodeKind) :
    (t.settle wrong id kind).size = t.size := by
  cases wrong <;> simp [settle]

theorem grows_settle {P : Nat → Prop} (wrong : Bool) (kind : NodeKind) :
    t.Grows P (t.settle wrong id kind) := by
  cases wrong with
  | false => exact grows_noteUse kind
  | true => exact grows_markError.idem (grows_noteUse kind)

end Tree

end Lsl
