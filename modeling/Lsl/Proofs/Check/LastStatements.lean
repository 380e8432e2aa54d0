/- # The last statement of a scope

When a statement is appended to a scope it is noted as the last one, and the
note is taken from the one before it. Nothing else touches these notes, so in
every scope it is the last statement that is noted as such, and no other.

Key definitions: `Tree.last?`, `Tree.EndsOnce`.
Key theorems: `Tree.EndsOnce.append`, `Acts.ends`.
-/
import Lsl.Proofs.Check.Laid

namespace Lsl

variable {script : Script} {library : Catalog} {t t' : Tree} {i : Nat}

namespace Tree

/-- Whether a statement is noted as the last of its scope. -/
def last? (t : Tree) (id : NodeId) : Option Bool :=
  ((t.kind? id).bind (·.info?)).map (·.isLast)

/-- Among these statements the last one is noted as such, and no other. -/
def EndsOnce (t : Tree) (ids : List NodeId) : Prop :=
  ∀ k id, ids[k]? = some id → t.last? id = some (decide (k + 1 = ids.length))

theorem last?_eq : t.last? i = (t.stmt? i).map (·.info.isLast) := by
  unfold last? stmt?
  rcases t.kind? i with _ | k
  · rfl
  · cases k <;> rfl

theorem last?_of_kind? (h : t'.kind? i = t.kind? i) : t'.last? i = t.last? i := by
  rw [last?, last?, h]

theorem last?_fill {id : Nat} {k kind : NodeKind} (hk : t.kind? id = some k)
    (h : k.info? = none) (h' : kind.info? = none) : (t.fill id kind).1.last? i = t.last? i := by
  unfold last?
  rw [kind?_fill kind (has_of_kind? hk)]
  split
  · rename_i hi
    simp [hi, hk, h, h']
  · rfl

theorem last?_noteUse (id : Nat) (kind : NodeKind) : (t.noteUse id kind).last? i = t.last? i := by
  rcases hn : t.node? i with _ | n
  · exact last?_of_kind? (by simp [kind?, hn, (retains_noteUse id kind).node?_none hn])
  · obtain ⟨k, hk, hnoted⟩ := node?_noteUse id kind hn
    simp [last?, kind?_of_node? hk, kind?_of_node? hn, hnoted.info]

theorem last?_settle (wrong : Bool) (id : Nat) (kind : NodeKind) :
    (t.settle wrong id kind).last? i = t.last? i := by
  cases wrong with
  | false => exact last?_noteUse id kind
  | true => exact (last?_noteUse id kind).trans (last?_of_kind? kind?_markError)

theorem stmt?_place (id : Nat) (info : StmtInfo) (always : Bool) :
    (t.place id info always).stmt? i
      = if i = id then (t.stmt? i).map (·.placed info always) else t.stmt? i := by
  unfold place modifyStmt stmt? kind?
  rw [node?_modifyKind]
  rcases t.node? i with _ | n
  · simp
  · split
    · cases hk : n.kind <;> simp [hk, NodeKind.mapStmt, NodeKind.stmt?, StmtNode.placed]
    · rfl

/-- Appending a statement moves the note from the one before it. -/
theorem last?_append {id : Nat} {tr tr' : Tracker} {facts : Facts} {reach : Reach}
    (h : t.append tr id facts = ⟨t', tr', .ok reach⟩) :
    t'.last? i = if i = id then some true
      else (t.last? i).map (· && decide (tr.statements.getLast? ≠ some i)) := by
  obtain ⟨s, c, hs, -, -, rfl⟩ := append_ok h
  rw [last?_eq, last?_eq, stmt?_place]
  rcases tr.statements.getLast? with _ | last
  · by_cases hi : i = id
    · simp [hi, unsetLast?, hs, StmtNode.placed, placeInfo]
    · simp [hi, unsetLast?, Function.comp_def]
  · by_cases hi : i = id
    · simp [hi, unsetLast?, stmt?_unsetLast, hs, StmtNode.placed, placeInfo]
    · simp only [hi, unsetLast?, stmt?_unsetLast, ↓reduceIte, Option.map_map]
      congr 1
      funext s
      simp [StmtNode.passed, eq_comm]

theorem EndsOnce.congr {ids : List NodeId} (h : t.EndsOnce ids)
    (hsame : ∀ id ∈ ids, t'.last? id = t.last? id) : t'.EndsOnce ids := fun k id hk => by
  rw [hsame id (List.mem_of_getElem? hk), h k id hk]

theorem EndsOnce.append {id : Nat} {tr tr' : Tracker} {facts : Facts} {reach : Reach}
    (h : t.EndsOnce tr.statements) (hid : id ∉ tr.statements)
    (happ : t.append tr id facts = ⟨t', tr', .ok reach⟩) : t'.EndsOnce tr'.statements := by
  rw [statements_append happ]
  intro k a hk
  rw [last?_append happ]
  rcases getElem?_concat hk with hk | ⟨rfl, rfl⟩
  · have hne : a ≠ id := fun he => hid (he ▸ List.mem_of_getElem? hk)
    have hlt := (List.getElem?_eq_some_iff.mp hk).1
    have hlast : tr.statements.getLast? = some a ∨ k + 1 ≠ tr.statements.length := by
      by_cases hk' : k + 1 = tr.statements.length
      · rw [List.getLast?_eq_getElem?, ← hk', Nat.add_sub_cancel, hk]
        exact .inl rfl
      · exact .inr hk'
    rw [if_neg hne, h k a hk, List.length_append, List.length_singleton,
      decide_eq_false (by omega : k + 1 ≠ tr.statements.length + 1)]
    rcases hlast with hlast | hlast
    · simp [hlast]
    · simp [hlast]
  · simp

end Tree

/-! ### Along a run -/

variable {p p' : Progress}

/-- In every scope, open or closed, the last statement is noted as such. -/
structure Progress.Ends (p : Progress) : Prop where
  opened : ∀ l ∈ p.stack, p.run.tree.EndsOnce l.tracker.statements
  closed : ∀ x c, p.run.tree.scope? x = some c → p.run.tree.EndsOnce c.statements

/-- Open scopes have no statements in common. -/
theorem Progress.apart_of_outer (h : p.roots.Nodup) {l l' : Level} {outer : List Level}
    (hst : p.stack = l :: outer) (hl : l' ∈ outer) {s : NodeId}
    (hs : s ∈ l'.tracker.statements) : s ∉ l.tracker.statements := by
  obtain ⟨hleft, -, -⟩ := List.nodup_append.mp h
  obtain ⟨-, hstack, -⟩ := List.nodup_append.mp hleft
  rw [hst, List.flatMap_cons] at hstack
  obtain ⟨-, -, hapart⟩ := List.nodup_append.mp hstack
  exact fun hmem => hapart s (List.mem_append_left _ hmem) s
    (List.mem_flatMap.mpr ⟨l', hl, List.mem_append_left _ hs⟩) rfl

/-- What is neither appended nor the last one before it keeps its note. -/
theorem Tree.last?_append_of_ne {id : Nat} {tr tr' : Tracker} {facts : Facts} {reach : Reach}
    (h : t.append tr id facts = ⟨t', tr', .ok reach⟩) (hi : i ≠ id) (htr : i ∉ tr.statements) :
    t'.last? i = t.last? i := by
  have hlast : tr.statements.getLast? ≠ some i := fun he => htr (List.mem_of_getLast? he)
  rw [last?_append h, if_neg hi]
  simp [hlast]

/-- An act that appends a statement to the innermost scope. -/
structure Act.Appends (p p' : Progress) (id : NodeId) (tr tr' : Tracker) (aside : List NodeId)
    (outer : List Level) : Prop where
  root : id ∈ p.loose ∨ id ∈ p.run.labels
  before : p.stack = ⟨tr, aside⟩ :: outer
  after : p'.stack = ⟨tr', aside⟩ :: outer
  append : ∃ facts reach, p.run.tree.append tr id facts = ⟨p'.run.tree, tr', .ok reach⟩
  retains : p.run.tree.Retains p'.run.tree

/-- An act appends a statement, or it leaves the notes as they are. -/
theorem Act.last?_cases (hact : Act script library p p') :
    (∃ id tr tr' aside outer, Act.Appends p p' id tr tr' aside outer)
      ∨ ((∀ i, p.run.tree.Has i → p'.run.tree.last? i = p.run.tree.last? i)
        ∧ ∀ l ∈ p'.stack, l ∈ p.stack ∨ l.tracker.statements = []) := by
  cases hact with
  | append id s rest tr tr' aside outer t' reach hl hst hstmt hk happ =>
    exact .inl ⟨id, tr, tr', aside, outer, .inl (hl ▸ List.mem_cons_self), hst, rfl, ⟨_, reach, happ⟩,
      Tree.retains_append happ hstmt (by simp [hk])⟩
  | appendLabel id s rest tr tr' aside outer t' reach hl hst hstmt hk hscope hindex happ =>
    exact .inl ⟨id, tr, tr', aside, outer, .inr (hl ▸ List.mem_cons_self), hst, rfl, ⟨_, reach, happ⟩,
      Tree.retains_append happ hstmt fun _ => ⟨hscope, hindex⟩⟩
  | say | shuffle | names | enterBody => exact .inr ⟨fun _ _ => rfl, fun _ hl => .inl hl⟩
  | fault => exact .inr ⟨fun _ _ => Tree.last?_of_kind? Tree.kind?_markError, fun _ hl => .inl hl⟩
  | reject dropped rest ns span =>
    refine .inr ⟨fun i hi => Tree.last?_of_kind? ?_, fun _ hl => .inl hl⟩
    rw [Tree.kind?_allocError, if_neg (Nat.ne_of_lt hi)]
  | make kind rest span ns =>
    refine .inr ⟨fun i hi => ?_, fun _ hl => .inl hl⟩
    rw [Tree.last?_settle]
    exact Tree.last?_of_kind? (by rw [Tree.kind?_alloc, if_neg (Nat.ne_of_lt hi)])
  | openScope single =>
    refine .inr ⟨fun _ _ => rfl, fun l hl => ?_⟩
    rcases List.mem_cons.mp hl with rfl | hl
    · exact .inr rfl
    · exact .inl hl
  | closeScope tr aside outer kind span hl hst =>
    refine .inr ⟨fun i hi => Tree.last?_of_kind? ?_, fun l hmem => .inl ?_⟩
    · rw [Tree.kind?_alloc, if_neg (Nat.ne_of_lt hi)]
    · exact hst ▸ List.mem_cons_of_mem _ hmem
  | fillFunction id f body c rest hl hid hopen hf =>
    refine .inr ⟨fun i _ => ?_, fun _ hl => .inl hl⟩
    exact Tree.last?_fill hf rfl rfl
  | fillState id s handlers rest hl hid hopen hs =>
    refine .inr ⟨fun i _ => ?_, fun _ hl => .inl hl⟩
    exact Tree.last?_fill hs rfl rfl

theorem Act.Appends.ends {id : NodeId} {tr tr' : Tracker} {aside : List NodeId}
    {outer : List Level} (ha : Act.Appends p p' id tr tr' aside outer)
    (hs : p.run.tree.Shaped script library p.roots) (h : p.Ends) : p'.Ends := by
  obtain ⟨facts, reach, happ⟩ := ha.append
  have htop : (⟨tr, aside⟩ : Level) ∈ p.stack := ha.before ▸ List.mem_cons_self
  have hroot : id ∈ p.roots := ha.root.elim Progress.mem_roots_of_loose (List.mem_append_right _)
  have hnew : ∀ l ∈ p.stack, id ∉ l.tracker.statements := fun l hl hmem => by
    have hapart := Progress.apart hs.distinct hl hmem
    exact ha.root.elim hapart.1 hapart.2
  refine ⟨fun l hl => ?_, fun x c hc => ?_⟩
  · rw [ha.after] at hl
    rcases List.mem_cons.mp hl with rfl | hl
    · exact (h.opened _ htop).append (hnew _ htop) happ
    · have hl' : l ∈ p.stack := ha.before ▸ List.mem_cons_of_mem _ hl
      refine (h.opened l hl').congr fun s hmem => Tree.last?_append_of_ne happ ?_
        (Progress.apart_of_outer hs.distinct ha.before hl hmem)
      rintro rfl
      exact hnew l hl' hmem
  · have hc' := ha.retains.scope? hc
    refine (h.closed x c hc').congr fun s hmem => Tree.last?_append_of_ne happ ?_ fun htr => ?_
    all_goals
      have hlink : p.run.tree.parent? s = some x := hs.links x s (by
        rw [Tree.children_of_kind? (Tree.scope?_eq_some.mp hc')]
        exact hmem)
    · rintro rfl
      simp [(hs.orphans _ hroot).2] at hlink
    · simp [(hs.orphans s (Progress.mem_roots_of_statements htop htr)).2] at hlink

theorem Act.ends (hact : Act script library p p')
    (hs : p.run.tree.Shaped script library p.roots) (h : p.Ends) : p'.Ends := by
  rcases hact.last?_cases with ⟨id, tr, tr', aside, outer, ha⟩ | ⟨hsame, hstack⟩
  · exact ha.ends hs h
  have hopen : ∀ l ∈ p.stack, p'.run.tree.EndsOnce l.tracker.statements := fun l hl =>
    (h.opened l hl).congr fun s hmem =>
      hsame s (hs.orphans s (Progress.mem_roots_of_statements hl hmem)).1
  refine ⟨fun l hl => ?_, fun x c hc => ?_⟩
  · rcases hstack l hl with hl | hempty
    · exact hopen l hl
    · rw [hempty]
      intro k id hk
      simp at hk
  · rcases hact.scope?_cases hc with hold | ⟨tr, aside, outer, kind, hst, rfl⟩
    · refine (h.closed x c hold).congr fun s hmem => hsame s (Tree.has_of_parent? (hs.links x s ?_))
      rw [Tree.children_of_kind? (Tree.scope?_eq_some.mp hold)]
      exact hmem
    · exact hopen _ (hst ▸ List.mem_cons_self)

theorem Acts.ends (h : Acts script library {} p) : p.Ends := by
  induction h with
  | refl => exact ⟨by simp, fun x c hc => by simp [Tree.scope?, Tree.kind?, Tree.node?] at hc⟩
  | tail hacts hact ih => exact hact.ends (Acts.shaped hacts) ih

end Lsl
