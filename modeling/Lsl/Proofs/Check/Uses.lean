/- # What refers to what

A name, a call or a jump refers to a declaration, a function or a label, and is
noted there when it is made. Nothing else changes what refers to what, and notes
are never taken back. So whatever can be referred to knows all that refers to
it, and nothing else. A node refers only to what was made before it and is noted
when it is made itself, so the notes are in the order of creation.

Key definitions: `Tree.target?`, `Tree.NotesUses`, `Tree.UsesInOrder`.
Key theorems: `Tree.uses_noteUse`, `Tree.target?_cases`, `Acts.notesUses`,
`Acts.usesInOrder`.
-/
import Lsl.Proofs.Check.Effects

namespace Lsl

variable {script : Script} {library : Catalog} {t t' : Tree} {P : Nat → Prop} {i id : Nat}

/-- What a node refers to: a declaration, a function or a label. -/
def NodeKind.target? : NodeKind → Option NodeId
  | expr ⟨.ref _ binding, _, _⟩ => binding.decl?
  | expr ⟨.call _ _ (.user f), _, _⟩ => some f
  | stmt ⟨.jump _ target _, _⟩ => target
  | _ => none

theorem NodeKind.target?_outline (k : NodeKind) : k.outline.target? = k.target? := by
  cases k with
  | stmt s =>
    rcases s with ⟨kind, info⟩
    cases kind <;> rfl
  | _ => rfl

/-- A node that was just made knows of no use. -/
theorem NodeKind.uses_of_new {k : NodeKind} (h : k.outline = k) : k.uses = [] := by
  rw [← h]
  cases k with
  | stmt s =>
    rcases s with ⟨kind, info⟩
    cases kind <;> rfl
  | _ => rfl

namespace Tree

/-- What a node refers to. -/
def target? (t : Tree) (id : NodeId) : Option NodeId := (t.kind? id).bind (·.target?)

/-- The notes are right: what refers to a node is noted there, and nothing else. -/
def NotesUses (t : Tree) : Prop := ∀ i d, i ∈ t.uses d ↔ t.target? i = some d

theorem target?_of_kind? {k : NodeKind} (h : t.kind? i = some k) : t.target? i = k.target? := by
  simp [target?, h]

/-- The notes are in the order of creation, and none is there twice. -/
def UsesInOrder (t : Tree) : Prop := ∀ d, (t.uses d).Pairwise (· < ·)

theorem has_of_target? {d : Nat} (h : t.target? i = some d) : t.Has i := by
  obtain ⟨k, hk, -⟩ := Option.bind_eq_some_iff.mp h
  exact has_of_kind? hk

/-! ### Where nothing new is referred to -/

/-- The same nodes refer to the same nodes. -/
def SameUses (t t' : Tree) : Prop := ∀ i, t'.target? i = t.target? i ∧ t'.uses i = t.uses i

theorem NotesUses.same (h : t.NotesUses) (hs : t.SameUses t') : t'.NotesUses := fun i d => by
  rw [(hs d).2, (hs i).1]
  exact h i d

theorem UsesInOrder.same (h : t.UsesInOrder) (hs : t.SameUses t') : t'.UsesInOrder := fun d => by
  rw [(hs d).2]
  exact h d

theorem sameUses_of_kind? (h : ∀ i, t'.kind? i = t.kind? i) : t.SameUses t' := fun i => by
  rw [target?, uses, h i]
  exact ⟨rfl, rfl⟩

/-- A new node that refers to nothing. -/
theorem sameUses_of_new {kind : NodeKind} (ht : kind.target? = none) (hu : kind.uses = [])
    (h : ∀ i, t'.kind? i = if i = t.size then some kind else t.kind? i) : t.SameUses t' := by
  intro i
  rw [target?, uses, h i]
  split
  · rename_i hi
    have hnone : t.kind? i = none := by
      rw [kind?, node?_eq_none.mpr (Nat.le_of_eq hi.symm)]
      rfl
    simp [target?, uses, hnone, ht, hu]
  · exact ⟨rfl, rfl⟩

theorem sameUses_fill {k kind : NodeKind} (hk : t.kind? id = some k)
    (ht : kind.target? = k.target?) (hu : kind.uses = k.uses) : t.SameUses (t.fill id kind).1 := by
  intro i
  rw [target?, uses, kind?_fill kind (has_of_kind? hk)]
  split
  · rename_i hi
    simp [target?, uses, hi, hk, ht, hu]
  · exact ⟨rfl, rfl⟩

/-- Placing a statement changes nothing about it that matters here. -/
theorem target?_place (k : NodeKind) (self : Prop) [Decidable self] (info : StmtInfo)
    (always stays : Bool) :
    (k.mapStmt fun s => if self then s.placed info always else s.passed stays).target? = k.target?
      ∧ (k.mapStmt fun s => if self then s.placed info always else s.passed stays).uses
        = k.uses := by
  cases k with
  | stmt s =>
    simp only [NodeKind.mapStmt]
    split
    · refine ⟨?_, uses_placed s info always⟩
      rcases s with ⟨kind, old⟩
      cases kind <;> cases always <;> rfl
    · rcases s with ⟨kind, old⟩
      cases kind <;> exact ⟨rfl, rfl⟩
  | _ => exact ⟨rfl, rfl⟩

theorem sameUses_append {tr tr' : Tracker} {facts : Facts} {reach : Reach}
    (h : t.append tr id facts = ⟨t', tr', .ok reach⟩) : t.SameUses t' := by
  obtain ⟨s, c, -, -, -, rfl⟩ := append_ok h
  intro i
  rcases hn : t.node? i with _ | n
  · have hnone : ((t.unsetLast? tr.statements.getLast?).place id (placeInfo tr id facts reach)
        (facts.jumpOf reach).isSome).node? i = none := by
      rw [node?_eq_none, size_place]
      exact node?_eq_none.mp hn
    simp [target?, uses, kind?, hn, hnone]
  · obtain ⟨stays, hp⟩ := node?_place id tr.statements.getLast? (placeInfo tr id facts reach)
      (facts.jumpOf reach).isSome hn
    rw [target?_of_kind? (kind?_of_node? hp), uses_of_kind? (kind?_of_node? hp),
      target?_of_kind? (kind?_of_node? hn), uses_of_kind? (kind?_of_node? hn)]
    exact target?_place n.kind (i = id) _ _ stays

/-! ### Noting a use -/

theorem target?_noteUse (kind : NodeKind) : (t.noteUse id kind).target? i = t.target? i := by
  rcases hn : t.node? i with _ | n
  · simp [target?, kind?, hn, (retains_noteUse id kind).node?_none hn]
  · obtain ⟨k, hk, hnoted⟩ := node?_noteUse id kind hn
    rw [target?_of_kind? (kind?_of_node? hk), target?_of_kind? (kind?_of_node? hn),
      ← k.target?_outline, hnoted.outline, n.kind.target?_outline]

/-- One more note on one node. -/
theorem uses_modifyKind {d : Nat} {k : NodeKind} {f : NodeKind → NodeKind}
    (hk : t.kind? d = some k) (hf : (f k).uses = k.uses ++ [id]) :
    (t.modifyKind d f).uses i = t.uses i ++ if d = i then [id] else [] := by
  obtain ⟨n, hn, rfl⟩ := kind?_eq_some.mp hk
  by_cases hi : d = i
  · subst hi
    have hn' : (t.modifyKind d f).node? d = some { n with kind := f n.kind } := by
      rw [node?_modifyKind, if_pos rfl, hn]
      rfl
    rw [uses_of_kind? (kind?_of_node? hn'), uses_of_kind? hk, if_pos rfl, hf]
  · have hsame : (t.modifyKind d f).kind? i = t.kind? i := by
      rw [kind?, node?_modifyKind, if_neg (Ne.symm hi)]
      rfl
    rw [uses, hsame, if_neg hi, List.append_nil]
    rfl

theorem uses_mapVariable {k : NodeKind} {v : Variable} (h : k.var? = some v) :
    (k.mapVariable fun v => { v with references := v.references ++ [id] }).uses
      = k.uses ++ [id] := by
  cases k with
  | global | param => rfl
  | stmt s =>
    rcases s with ⟨kind, info⟩
    cases kind with
    | declare => rfl
    | _ => cases h
  | _ => cases h

/-- A name that stands for a declaration stands for a variable. -/
theorem exists_var?_of_bound {e : ExprNode} {name : String} {binding : Binding} {d : Nat}
    (hk : e.kind = .ref name binding) (hb : t.Bound library e) (hd : binding.decl? = some d) :
    ∃ v, t.var? d = some v := by
  simp only [Bound, hk] at hb
  cases binding <;> cases hd
  all_goals
    obtain ⟨-, v, hv, -⟩ := hb
    exact ⟨v, hv⟩

/-- A name is noted at its declaration. -/
theorem uses_addReference {e : ExprNode} {name : String} {binding : Binding}
    (hk : e.kind = .ref name binding) (hb : t.Bound library e) :
    (addReference t binding id).uses i
      = t.uses i ++ if binding.decl? = some i then [id] else [] := by
  unfold addReference
  rcases hd : binding.decl? with _ | d
  · simp
  · obtain ⟨v, hv⟩ := exists_var?_of_bound hk hb hd
    obtain ⟨k, hk, hkv⟩ := Option.bind_eq_some_iff.mp hv
    simp only [Option.some.injEq]
    exact uses_modifyKind hk (uses_mapVariable hkv)

/-- What is made is noted at what it refers to. -/
theorem uses_noteUse {kind : NodeKind} (hf : t.Formed script library kind) :
    (t.noteUse id kind).uses i = t.uses i ++ if kind.target? = some i then [id] else [] := by
  cases kind with
  | stmt s =>
    rcases s with ⟨k, info⟩
    cases k with
    | jump name target =>
      cases target with
      | none => simp [noteUse, NodeKind.target?]
      | some label =>
        obtain ⟨⟨k, linfo⟩, hs, hlabel⟩ := hf label rfl
        cases k <;> cases hlabel
        simp only [NodeKind.target?, Option.some.injEq]
        exact uses_modifyKind (stmt?_eq_some.mp hs) rfl
    | _ => simp [noteUse, NodeKind.target?]
  | expr e =>
    rcases e with ⟨k, ty, constant⟩
    cases k with
    | ref => exact uses_addReference rfl hf.2
    | call name args target =>
      cases target with
      | user f =>
        obtain ⟨k, hk, hsort⟩ :=
          Option.map_eq_some_iff.mp (show t.sort? f = some .function from hf.2)
        cases k <;> cases hsort
        simp only [NodeKind.target?, Option.some.injEq]
        exact uses_modifyKind hk rfl
      | library => simp [noteUse, NodeKind.target?]
    | _ => simp [noteUse, NodeKind.target?]
  | _ => simp [noteUse, NodeKind.target?]

theorem target?_settle (wrong : Bool) (kind : NodeKind) :
    (t.settle wrong id kind).target? i = t.target? i := by
  rw [settle, target?_noteUse]
  cases wrong with
  | false => rfl
  | true => exact congrArg (Option.bind · _) kind?_markError

theorem uses_settle {kind : NodeKind} (hf : t.Formed script library kind) (wrong : Bool) :
    (t.settle wrong id kind).uses i
      = t.uses i ++ if kind.target? = some i then [id] else [] := by
  cases wrong with
  | false => exact uses_noteUse hf
  | true =>
    have hsame : (t.markError id).uses i = t.uses i := by rw [uses, uses, kind?_markError]
    exact hsame ▸ uses_noteUse (hf.grows (grows_markError (P := fun _ => True)))

theorem target?_alloc (kind : NodeKind) (span : Span) :
    (t.alloc kind span).1.target? i = if i = t.size then kind.target? else t.target? i := by
  rw [target?, kind?_alloc]
  split <;> rfl

/-- A new node is noted at what it refers to, and is not referred to. -/
theorem uses_make {kind : NodeKind} {d : Nat} (span : Span) (hf : t.Formed script library kind)
    (hnew : kind.outline = kind) (wrong : Bool) :
    ((t.alloc kind span).1.settle wrong t.size kind).uses d
      = t.uses d ++ if kind.target? = some d then [t.size] else [] := by
  have huses : (t.alloc kind span).1.uses d = t.uses d := by
    rw [uses, kind?_alloc]
    split
    · rename_i hd
      have hnone : t.node? d = none := node?_eq_none.mpr (Nat.le_of_eq hd.symm)
      simp [uses, kind?, hnone, kind.uses_of_new hnew]
    · rfl
  rw [uses_settle (hf.grows (grows_alloc (P := fun _ => True) kind span)), huses]

/-- A new node may refer to an old one. -/
theorem NotesUses.make {kind : NodeKind} (h : t.NotesUses) (span : Span)
    (hf : t.Formed script library kind) (hnew : kind.outline = kind) (wrong : Bool) :
    ((t.alloc kind span).1.settle wrong t.size kind).NotesUses := by
  intro i d
  have hold : t.target? t.size = none := by
    simp [target?, kind?, node?_eq_none.mpr (Nat.le_refl t.size)]
  rw [uses_make span hf hnew, target?_settle, target?_alloc, List.mem_append, h i d]
  by_cases hi : i = t.size
  · subst hi
    simp [hold]
  · simp [hi]

/-- What is made last is noted last. -/
theorem UsesInOrder.make {kind : NodeKind} (h : t.UsesInOrder) (hn : t.NotesUses) (span : Span)
    (hf : t.Formed script library kind) (hnew : kind.outline = kind) (wrong : Bool) :
    ((t.alloc kind span).1.settle wrong t.size kind).UsesInOrder := by
  intro d
  rw [uses_make span hf hnew]
  split
  · refine List.pairwise_append.mpr ⟨h d, List.pairwise_singleton _ _, fun i hi j hj => ?_⟩
    rw [List.mem_singleton.mp hj]
    exact has_of_target? ((hn i d).mp hi)
  · rw [List.append_nil]
    exact h d

/-! ### Who refers to what -/

/-- The name `i` stands for the declaration `d`. -/
def StandsFor (t : Tree) (i d : NodeId) : Prop :=
  ∃ name binding ty constant,
    t.expr? i = some ⟨.ref name binding, ty, constant⟩ ∧ binding.decl? = some d

/-- The expression `i` calls the function `f` of the script. -/
def Calls (t : Tree) (i f : NodeId) : Prop :=
  ∃ name args ty constant, t.expr? i = some ⟨.call name args (.user f), ty, constant⟩

theorem StandsFor.target? {d : Nat} (h : t.StandsFor i d) : t.target? i = some d := by
  obtain ⟨name, binding, ty, constant, he, hd⟩ := h
  rw [target?_of_kind? (expr?_eq_some.mp he)]
  exact hd

theorem Calls.target? {f : Nat} (h : t.Calls i f) : t.target? i = some f := by
  obtain ⟨name, args, ty, constant, he⟩ := h
  rw [target?_of_kind? (expr?_eq_some.mp he)]
  rfl

theorem Jumps.target? {l : Nat} (h : t.Jumps i l) : t.target? i = some l := by
  obtain ⟨name, always, info, hj⟩ := h
  rw [target?_of_kind? (stmt?_eq_some.mp hj)]
  rfl

/-- Names refer to variables, calls to functions and jumps to labels. -/
theorem target?_cases {roots : List NodeId} {d : Nat} (hs : t.Shaped script library roots)
    (h : t.target? i = some d) :
    t.StandsFor i d ∧ (∃ v, t.var? d = some v) ∨ t.Calls i d ∧ t.sort? d = some .function
      ∨ t.Jumps i d ∧ ∃ s, t.stmt? d = some s ∧ s.kind.isLabel = true := by
  obtain ⟨k, hk, htarget⟩ := Option.bind_eq_some_iff.mp h
  have hformed := hs.formed i k hk
  cases k with
  | stmt s =>
    rcases s with ⟨kind, info⟩
    cases kind with
    | jump name target always =>
      obtain rfl : target = some d := htarget
      exact .inr (.inr ⟨⟨name, always, info, stmt?_eq_some.mpr hk⟩, hformed d rfl⟩)
    | _ => cases htarget
  | expr e =>
    rcases e with ⟨kind, ty, constant⟩
    cases kind with
    | ref name binding =>
      refine .inl ⟨⟨name, binding, ty, constant, expr?_eq_some.mpr hk, htarget⟩, ?_⟩
      exact exists_var?_of_bound rfl hformed.2 htarget
    | call name args target =>
      cases target <;> cases htarget
      exact .inr (.inl ⟨⟨name, args, ty, constant, expr?_eq_some.mpr hk⟩, hformed.2⟩)
    | _ => cases htarget
  | _ => cases htarget

end Tree

/-! ### Along a run -/

variable {p p' : Progress}

/-- An act changes who refers to what only by making a node. -/
theorem Act.sameUses_or_make (hact : Act script library p p') :
    p.run.tree.SameUses p'.run.tree
      ∨ ∃ kind span wrong, kind.outline = kind ∧ p.run.tree.Formed script library kind
        ∧ p'.run.tree = (p.run.tree.alloc kind span).1.settle wrong p.run.tree.size kind := by
  cases hact with
  | say | shuffle | names | openScope | enterBody => exact .inl fun _ => ⟨rfl, rfl⟩
  | fault => exact .inl (Tree.sameUses_of_kind? fun _ => Tree.kind?_markError)
  | reject dropped rest ns span =>
    exact .inl (Tree.sameUses_of_new rfl rfl fun i => Tree.kind?_allocError span)
  | make kind rest span ns hl hnew hf => exact .inr ⟨kind, span, _, hnew, hf, rfl⟩
  | append id s rest tr tr' aside outer t' reach hl hst hs hk happ =>
    exact .inl (Tree.sameUses_append happ)
  | appendLabel id s rest tr tr' aside outer t' reach hl hst hs hk hscope hindex happ =>
    exact .inl (Tree.sameUses_append happ)
  | closeScope tr aside outer kind span =>
    exact .inl (Tree.sameUses_of_new rfl rfl fun i => Tree.kind?_alloc _ span)
  | fillFunction id f body c rest hl hid hopen hf => exact .inl (Tree.sameUses_fill hf rfl rfl)
  | fillState id s handlers rest hl hid hopen hs => exact .inl (Tree.sameUses_fill hs rfl rfl)

/-- An act notes what it makes, and no other use. -/
theorem Act.notesUses (hact : Act script library p p') (h : p.run.tree.NotesUses) :
    p'.run.tree.NotesUses := by
  rcases hact.sameUses_or_make with hs | ⟨kind, span, wrong, hnew, hf, heq⟩
  · exact h.same hs
  · exact heq ▸ h.make span hf hnew wrong

theorem Acts.notesUses (h : Acts script library {} p) : p.run.tree.NotesUses := by
  induction h with
  | refl => exact fun i d => by simp [Tree.uses, Tree.target?, Tree.kind?, Tree.node?]
  | tail _ hact ih => exact hact.notesUses ih

/-- An act notes what it makes after all that was noted before. -/
theorem Act.usesInOrder (hact : Act script library p p') (h : p.run.tree.UsesInOrder)
    (hn : p.run.tree.NotesUses) : p'.run.tree.UsesInOrder := by
  rcases hact.sameUses_or_make with hs | ⟨kind, span, wrong, hnew, hf, heq⟩
  · exact h.same hs
  · exact heq ▸ h.make hn span hf hnew wrong

theorem Acts.usesInOrder (h : Acts script library {} p) : p.run.tree.UsesInOrder := by
  induction h with
  | refl => exact fun d => by simp [Tree.uses, Tree.kind?, Tree.node?]
  | tail hacts hact ih => exact hact.usesInOrder ih (Acts.notesUses hacts)

end Lsl
