/- # Error flags and error notices

A node is marked as wrong only where an error is reported, and the mark is
passed on to whatever the node becomes a part of. So as long as a node is built
on, some node in the hands of the checker carries the mark of an error that was
reported, and in the end the whole script does.

The one error that marks no node is that the default state is missing.

Key definitions: `Progress.Flagged`.
Key theorems: `Act.flagged`, `Script.hasErrors_iff_fault`.
-/
import Lsl.Cli.Command
import Lsl.Proofs.Check.ScriptActs

namespace Lsl

variable {script : Script} {library : Catalog} {t t' : Tree} {p p' : Progress} {i : Nat}

/-! ### What changes the marks -/

namespace Tree

theorem hasErrors_noteUse (id : Nat) (kind : NodeKind) :
    (t.noteUse id kind).hasErrors i = t.hasErrors i := by
  rcases hn : t.node? i with _ | n
  · have hnone : (t.noteUse id kind).node? i = none := (retains_noteUse id kind).node?_none hn
    simp [hasErrors, hn, hnone]
  · obtain ⟨k, hk, -⟩ := node?_noteUse id kind hn
    rw [hasErrors_of_node? hn, hasErrors_of_node? hk]

theorem hasErrors_settle_self (h : t.Has i) (kind : NodeKind) :
    (t.settle true i kind).hasErrors i = true :=
  (hasErrors_noteUse i kind).trans (hasErrors_markError_self h)

theorem hasErrors_append {id : Nat} {tr tr' : Tracker} {facts : Facts} {reach : Reach}
    (h : t.append tr id facts = ⟨t', tr', .ok reach⟩) : t'.hasErrors i = t.hasErrors i := by
  obtain ⟨s, c, -, -, -, rfl⟩ := append_ok h
  rcases hn : t.node? i with _ | n
  · have hnone : ((t.unsetLast? tr.statements.getLast?).place id (placeInfo tr id facts reach)
        (facts.jumpOf reach).isSome).node? i = none := by
      rw [node?_eq_none] at hn ⊢
      rwa [size_place]
    simp [hasErrors, hn, hnone]
  · obtain ⟨stays, hp⟩ := node?_place id tr.statements.getLast? (placeInfo tr id facts reach)
      (facts.jumpOf reach).isSome hn
    rw [hasErrors_of_node? hn, hasErrors_of_node? hp]

/-- A new node is wrong if one of its parts is. -/
theorem hasErrors_alloc (kind : NodeKind) (span : Span) (hc : ∀ c ∈ kind.children, t.Has c) :
    (t.alloc kind span).1.hasErrors i
      = if i = t.size then kind.children.any t.hasErrors else t.hasErrors i := by
  rcases Nat.lt_trichotomy i t.size with hi | rfl | hi
  · obtain ⟨n, hn⟩ := exists_node? hi
    have hn' := node?_alloc kind span hc hi
    rw [hn] at hn'
    rw [if_neg (Nat.ne_of_lt hi), hasErrors_of_node? hn', hasErrors_of_node? hn]
    simp
  · rw [if_pos rfl, hasErrors_of_node? (node?_alloc_self kind span hc)]
  · have h1 : t.node? i = none := node?_eq_none.mpr (Nat.le_of_lt hi)
    have h2 : (t.alloc kind span).1.node? i = none := by
      rw [node?_eq_none, size_alloc]
      exact hi
    rw [if_neg (Nat.ne_of_gt hi)]
    simp [hasErrors, h1, h2]

theorem hasErrors_allocError (span : Span) :
    (t.allocError span).1.hasErrors i = if i = t.size then true else t.hasErrors i := by
  rcases Nat.lt_trichotomy i t.size with hi | rfl | hi
  · rw [if_neg (Nat.ne_of_lt hi)]
    simp [hasErrors, node?_allocError span hi]
  · rw [if_pos rfl, hasErrors_of_node? (node?_allocError_self span)]
  · have h1 : t.node? i = none := node?_eq_none.mpr (Nat.le_of_lt hi)
    have h2 : (t.allocError span).1.node? i = none := by
      rw [node?_eq_none, size_allocError]
      exact hi
    rw [if_neg (Nat.ne_of_gt hi)]
    simp [hasErrors, h1, h2]

/-- A node that is filled is wrong if it was, or if one of its parts is. -/
theorem hasErrors_fill {id : Nat} {kind : NodeKind} {n : Node} (hn : t.node? id = some n)
    (hp : n.parent = none) (hc : id ∉ kind.children) :
    (t.fill id kind).1.hasErrors i
      = (t.hasErrors i || (i == id && kind.children.any t.hasErrors)) := by
  by_cases hi : i = id
  · subst hi
    rw [hasErrors_of_node? (node?_fill_self hn hp hc), hasErrors_of_node? hn]
    simp
  · have hf := node?_fill hn hp hc hi
    rcases hi' : t.node? i with _ | m
    · rw [hi'] at hf
      simp [hasErrors, hf, hi', hi]
    · rw [hi'] at hf
      rw [hasErrors_of_node? hf, hasErrors_of_node? hi']
      simp [hi]

end Tree

/-! ### Marks along a run -/

/-- An error was reported that marks a node. -/
def Run.Faulty (run : Run) : Prop := ∃ n ∈ run.notices, n.marks = true

/-- Every mark comes from an error that was reported, and if one was, some root
is marked. -/
structure Progress.Flagged (p : Progress) : Prop where
  told : ∀ i, p.run.tree.hasErrors i = true → p.run.Faulty
  kept : p.run.Faulty → ∃ r ∈ p.roots, p.run.tree.hasErrors r = true

/-- The same marks, the same errors and the same roots. -/
theorem Progress.Flagged.same (h : p.Flagged)
    (ht : ∀ i, p'.run.tree.hasErrors i = p.run.tree.hasErrors i)
    (hn : p'.run.Faulty ↔ p.run.Faulty) (hr : p.roots.Perm p'.roots) : p'.Flagged where
  told i hi := hn.mpr (h.told i (ht i ▸ hi))
  kept hf := by
    obtain ⟨r, hmem, hr'⟩ := h.kept (hn.mp hf)
    exact ⟨r, hr.subset hmem, by rw [ht]; exact hr'⟩

/-- A node that takes the place of others is marked if one of them is. -/
theorem Progress.Flagged.alloc (h : p.Flagged) (hs : p.run.tree.Shaped script library p.roots)
    (kind : NodeKind) (span : Span) {others : List NodeId} (hr : p.roots = kind.children ++ others)
    (ht : ∀ i, p'.run.tree.hasErrors i = (p.run.tree.alloc kind span).1.hasErrors i)
    (hn : p'.run.Faulty ↔ p.run.Faulty) (hr' : p'.roots = p.run.tree.size :: others) :
    p'.Flagged := by
  have hhas : ∀ r ∈ kind.children ++ others, p.run.tree.Has r :=
    fun r hmem => (hs.orphans r (hr ▸ hmem)).1
  have hmarks := fun i => Tree.hasErrors_alloc (i := i) kind span
    fun c hc => hhas c (List.mem_append_left _ hc)
  refine ⟨fun i hi => ?_, fun hf => ?_⟩
  · rw [ht, hmarks] at hi
    split at hi
    · obtain ⟨c, -, hflag⟩ := List.any_eq_true.mp hi
      exact hn.mpr (h.told c hflag)
    · exact hn.mpr (h.told i hi)
  · obtain ⟨r, hmem, hflag⟩ := h.kept (hn.mp hf)
    rw [hr] at hmem
    rw [hr']
    rcases List.mem_append.mp hmem with hchild | hother
    · refine ⟨p.run.tree.size, List.mem_cons_self, ?_⟩
      rw [ht, hmarks, if_pos rfl]
      exact List.any_eq_true.mpr ⟨r, hchild, hflag⟩
    · refine ⟨r, List.mem_cons_of_mem _ hother, ?_⟩
      rw [ht, hmarks, if_neg (Nat.ne_of_lt (hhas r hmem))]
      exact hflag

/-- The marks of what fills a node are passed on to it. -/
theorem Progress.Flagged.fill {id : NodeId} {k kind : NodeKind} {filling others : List NodeId}
    (h : p.Flagged) (hs : p.run.tree.Shaped script library p.roots)
    (hk : p.run.tree.kind? id = some k) (hr : p.roots = filling ++ others) (hid : id ∈ others)
    (hparts : ∀ c ∈ kind.children, c ∈ k.children ∨ c ∈ filling) (hall : filling ⊆ kind.children)
    (ht : p'.run.tree = (p.run.tree.fill id kind).1) (hn : p'.run.Faulty ↔ p.run.Faulty)
    (hr' : p'.roots = others) : p'.Flagged := by
  obtain ⟨n, hnode, -⟩ := Tree.kind?_eq_some.mp hk
  have horphan : n.parent = none :=
    (Tree.parent?_of_node? hnode).symm.trans
      (hs.orphans id (hr ▸ List.mem_append_right _ hid)).2
  have hmarks := fun i => Tree.hasErrors_fill (i := i) hnode horphan
    ((hr ▸ hs).not_mem_children_of_fill hk hparts hid)
  refine ⟨fun i hi => ?_, fun hf => ?_⟩
  · rw [ht, hmarks, Bool.or_eq_true, Bool.and_eq_true] at hi
    rcases hi with hi | ⟨-, hi⟩
    · exact hn.mpr (h.told i hi)
    · obtain ⟨c, -, hflag⟩ := List.any_eq_true.mp hi
      exact hn.mpr (h.told c hflag)
  · obtain ⟨r, hmem, hflag⟩ := h.kept (hn.mp hf)
    rw [hr] at hmem
    rw [hr']
    rcases List.mem_append.mp hmem with hpart | hother
    · refine ⟨id, hid, ?_⟩
      rw [ht, hmarks, Bool.or_eq_true, Bool.and_eq_true]
      exact .inr ⟨beq_self_eq_true id, List.any_eq_true.mpr ⟨r, hall hpart, hflag⟩⟩
    · refine ⟨r, hother, ?_⟩
      rw [ht, hmarks, hflag, Bool.true_or]

/-- **An act passes the marks on.** -/
theorem Act.flagged (hact : Act script library p p') (hs : p.run.tree.Shaped script library p.roots)
    (h : p.Flagged) : p'.Flagged := by
  cases hact with
  | say n hn =>
    refine h.same (fun _ => rfl) ?_ (.refl _)
    simp [Run.Faulty, or_and_right, exists_or, hn]
  | fault id ns hid hne hns =>
    obtain ⟨n, hn⟩ := List.exists_mem_of_ne_nil ns hne
    exact ⟨fun i _ => ⟨n, List.mem_append_right _ hn, hns n hn⟩,
      fun _ => ⟨id, hid, Tree.hasErrors_markError_self (hs.orphans id hid).1⟩⟩
  | reject dropped rest ns span hl hns hwhy =>
    refine ⟨fun i hi => ?_, fun _ => ⟨p.run.tree.size, by simp [Progress.roots], ?_⟩⟩
    · -- what is rejected is wrong already, or reported now
      have hold : p.run.Faulty → ∃ n ∈ p.run.notices ++ ns, n.marks = true := by
        rintro ⟨n, hn, hm⟩
        exact ⟨n, List.mem_append_left _ hn, hm⟩
      simp only [Tree.hasErrors_allocError] at hi
      split at hi
      · rcases hwhy with hne | ⟨d, -, hd⟩
        · obtain ⟨n, hn⟩ := List.exists_mem_of_ne_nil ns hne
          exact ⟨n, List.mem_append_right _ hn, hns n hn⟩
        · exact hold (h.told d hd)
      · exact hold (h.told i hi)
    · simp [Tree.hasErrors_allocError]
  | make kind rest span ns hl hnew hf hj hsort he hns =>
    rcases ns with _ | ⟨n, ns⟩
    case nil =>
      exact h.alloc hs kind span (Progress.roots_of_loose hl) (fun i => Tree.hasErrors_noteUse _ _)
        (by simp [Run.Faulty]) (Progress.roots_eq _)
    case cons =>
      refine ⟨fun i _ => ⟨n, by simp, hns n List.mem_cons_self⟩,
        fun _ => ⟨p.run.tree.size, by simp [Progress.roots], ?_⟩⟩
      exact Tree.hasErrors_settle_self (Tree.has_of_kind? (Tree.kind?_alloc_self kind span)) kind
  | shuffle loose hl =>
    exact h.same (fun _ => rfl) Iff.rfl (Progress.roots_perm rfl (hl.append_right _))
  | names scopes => exact h.same (fun _ => rfl) Iff.rfl (.refl _)
  | openScope single =>
    refine h.same (fun _ => rfl) Iff.rfl (.of_eq ?_)
    simp [Progress.roots]
  | append id s rest tr tr' aside outer t' reach hl hst hs' hk happ =>
    refine h.same (fun _ => Tree.hasErrors_append happ) Iff.rfl
      (Progress.roots_append happ hst rfl ?_)
    rw [hl]
    exact .refl _
  | appendLabel id s rest tr tr' aside outer t' reach hl hst hs' hk hscope hindex happ =>
    refine h.same (fun _ => Tree.hasErrors_append happ) Iff.rfl
      (Progress.roots_append happ hst rfl ?_)
    rw [hl]
    exact List.perm_middle
  | closeScope tr aside outer kind span hl hst hpending =>
    exact h.alloc hs (.scope (tr.scope kind)) span (Progress.roots_of_level hl hst) (fun _ => rfl)
      Iff.rfl (Progress.roots_eq _)
  | enterBody labels rest hl hst hlabels hk =>
    refine h.same (fun _ => rfl) Iff.rfl (Progress.roots_perm rfl ?_)
    rw [hl, hlabels, List.append_nil]
    exact List.perm_append_comm
  | fillFunction id f body c rest hl hid hopen hf hb hcallable hret =>
    have hr : p.roots = [body] ++ (rest ++ p.besides) := Progress.roots_of_loose hl
    refine h.fill hs hf hr (List.mem_append_left _ hid) (fun x hx => ?_) ?_ rfl Iff.rfl
      (Progress.roots_eq _)
    · rcases List.mem_append.mp hx with hx | hx
      · exact .inl (List.mem_append_left _ hx)
      · exact .inr (by simpa using hx)
    · simp [NodeKind.children]
  | fillState id s handlers rest hl hid hopen hs' hh =>
    refine h.fill hs hs' (Progress.roots_of_loose hl) (List.mem_append_left _ hid) ?_ ?_ rfl
      Iff.rfl (Progress.roots_eq _)
    · exact fun x hx => .inr hx
    · exact List.Subset.refl _

theorem Acts.flagged (h : Acts script library {} p) : p.Flagged := by
  induction h with
  | refl => exact ⟨by simp [Tree.hasErrors, Tree.node?], by simp [Run.Faulty]⟩
  | tail hacts hact ih => exact hact.flagged (Acts.shaped hacts) ih

/-! ### Checked scripts -/

variable {options : CheckOptions} {c : CheckedScript}

/-- The script as a whole is marked if and only if an error was reported that marks a node. -/
theorem Finished.hasErrors_root {root : NodeId} {n : ScriptNode}
    (h : Finished script library p root n) :
    p.run.tree.hasErrors root = true ↔ p.run.Faulty := by
  have hflags := Acts.flagged h.acts
  refine ⟨hflags.told root, fun hf => ?_⟩
  obtain ⟨r, hr, hflag⟩ := hflags.kept hf
  simp only [Progress.roots, h.loose, h.stack, h.labels, List.flatMap_nil, List.append_nil,
    List.mem_singleton] at hr
  exact hr ▸ hflag

theorem Run.faulty_iff {run : Run} :
    run.Faulty ↔ ∃ kind span, .fault kind span ∈ run.notices ∧ kind ≠ .missingDefaultState := by
  constructor
  · rintro ⟨n, hn, hm⟩
    cases n with
    | fault kind span => exact ⟨kind, span, hn, fun he => by simp [he, Notice.marks] at hm⟩
    | warning => simp [Notice.marks] at hm
  · rintro ⟨kind, span, hn, hne⟩
    exact ⟨_, hn, marks_fault span hne⟩

/-- What is no error marks nothing. -/
theorem Notice.marks_of_isFault {n : Notice} (h : n.isFault = false) : n.marks = false := by
  cases n with
  | fault => cases h
  | warning => rfl

/-- What can be computed of a result shows that there is one. -/
theorem exists_ok_of_any {ε α : Type} {x : Except ε α} {P : α → Bool}
    (h : x.toOption.any P = true) : ∃ a, x = .ok a ∧ P a = true := by
  cases x with
  | error e => cases h
  | ok a => exact ⟨a, rfl, h⟩

/-- An error is counted for each error that is reported. -/
theorem errorCount_pos_iff {source : Option String} :
    0 < Cli.LoadedScript.errorCount ⟨c, source⟩ ↔ c.notices.any (·.isFault) = true := by
  have hsame : ∀ n : Notice, n.toDiagnostic.isError = n.isFault := fun n => by cases n <;> rfl
  unfold Cli.LoadedScript.errorCount Cli.LoadedScript.diagnostics Diagnostic.errorCount
  rw [List.countP_map, List.countP_pos_iff, List.any_eq_true]
  simp only [Function.comp_apply, hsame]

/-- **A script has errors if and only if one is reported**, so counting the
errors and asking for them gives the same answer; and the whole script is marked
as wrong if and only if one of the errors is not that the default state is
missing. -/
theorem Script.hasErrors_iff_fault (h : script.check library options = .ok c)
    (source : Option String) :
    (c.hasErrors = true ↔ ∃ kind span, .fault kind span ∈ c.notices)
      ∧ (0 < Cli.LoadedScript.errorCount ⟨c, source⟩ ↔ c.hasErrors = true)
      ∧ (c.tree.hasErrors c.root = true ↔
        ∃ kind span, .fault kind span ∈ c.notices ∧ kind ≠ .missingDefaultState) := by
  obtain ⟨p, n, hfinished, htree, herrors, hnotices⟩ := Script.check_acts h
  have hroot := hfinished.hasErrors_root
  have hfault : (∃ kind span, .fault kind span ∈ c.notices)
      ↔ p.run.notices.any (·.isFault) = true := by
    simp only [List.any_eq_true, hnotices.mem_iff]
    constructor
    · rintro ⟨kind, span, hmem⟩
      exact ⟨_, hmem, rfl⟩
    · rintro ⟨n, hmem, hf⟩
      cases n with
      | fault kind span => exact ⟨kind, span, hmem⟩
      | warning => simp [Notice.isFault] at hf
  have hall : c.hasErrors = true ↔ ∃ kind span, .fault kind span ∈ c.notices := by
    rw [herrors, Bool.or_eq_true, hfault, ← htree, hroot]
    refine or_iff_left_of_imp fun hf => ?_
    obtain ⟨kind, span, hmem, -⟩ := Run.faulty_iff.mp hf
    exact List.any_eq_true.mpr ⟨_, hmem, rfl⟩
  refine ⟨hall, ?_, ?_⟩
  · rw [hall, hfault, ← hnotices.any_eq]
    exact errorCount_pos_iff
  · rw [← htree, hroot, Run.faulty_iff]
    simp only [hnotices.mem_iff]

/-- A state without handlers is an error that is counted and that marks the script. -/
theorem Script.hasErrors_of_emptyState :
    ∃ c, Script.check { defaultState := some { name := "default" } } {} {} = .ok c
      ∧ 0 < Cli.LoadedScript.errorCount ⟨c, none⟩ ∧ c.tree.hasErrors c.root = true := by
  refine ⟨_, rfl, ?_⟩
  obtain ⟨hany, hcount, hroot⟩ := Script.hasErrors_iff_fault
    (show Script.check { defaultState := some { name := "default" } } {} {} = .ok _ from rfl) none
  have hfault : Notice.fault (.stateWithoutHandlers "default") {}
      ∈ Notice.sort [.fault (.stateWithoutHandlers "default") {}] := by
    simp [Notice.sort]
  exact ⟨hcount.mpr (hany.mpr ⟨_, _, hfault⟩), hroot.mpr ⟨_, _, hfault, by simp⟩⟩

end Lsl
