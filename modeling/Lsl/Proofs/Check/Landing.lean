/- # Jumps land in a scope around them

A jump may lead to a label only while the scope of the label is open. As a scope
is closed only when all its labels are in it, the label of a jump is in the end
a statement of a scope that the jump lies within.

The numbers of scopes tell them apart: a scope inside another has the greater
number.

Key definitions: `Tree.Lands`, `Tree.Fits`, `Tree.Arranged`.
Key theorems: `Act.arranged`, `Finished.lands`, `Acts.nested`.
-/
import Lsl.Proofs.Check.Laid

namespace Lsl

variable {script : Script} {library : Catalog} {t t' : Tree} {P N : Nat → Prop}

/-! ### The numbers of the open scopes -/

variable {p p' : Progress}

/-- The open scopes are numbered in the order they were opened. -/
structure Progress.Numbered (p : Progress) : Prop where
  sorted : p.openIds.Pairwise (· > ·)
  bound : ∀ n ∈ p.openIds, n ≤ p.run.lastScope

theorem Act.numbered (hact : Act script library p p') (h : p.Numbered) : p'.Numbered := by
  have hsame : p'.openIds = p.openIds → p'.run.lastScope = p.run.lastScope → p'.Numbered :=
    fun hids hlast => ⟨hids ▸ h.sorted, by rw [hids, hlast]; exact h.bound⟩
  cases hact with
  | openScope single =>
    refine ⟨List.pairwise_cons.mpr ⟨fun n hn => Nat.lt_succ_of_le (h.bound n hn), h.sorted⟩, ?_⟩
    intro n hn
    rcases List.mem_cons.mp hn with rfl | hn
    · exact Nat.le_refl _
    · exact Nat.le_succ_of_le (h.bound n hn)
  | append id s rest tr tr' aside outer t' reach hl hst hs hk happ =>
    refine hsame ?_ rfl
    simp [Progress.openIds, hst, Tree.scopeId_append happ]
  | appendLabel id s rest tr tr' aside outer t' reach hl hst hs hk hscope hindex happ =>
    refine hsame ?_ rfl
    simp [Progress.openIds, hst, Tree.scopeId_append happ]
  | closeScope tr aside outer kind span hl hst hpending =>
    have hids : p.openIds = tr.scopeId :: outer.map (·.tracker.scopeId) := by
      simp [Progress.openIds, hst]
    refine ⟨(List.pairwise_cons.mp (hids ▸ h.sorted)).2, fun n hn => h.bound n ?_⟩
    rw [hids]
    exact List.mem_cons_of_mem _ hn
  | enterBody labels rest hl hst hlabels hk =>
    constructor <;> simp [Progress.openIds, hst]
  | _ => exact hsame rfl rfl

theorem Acts.numbered (h : Acts script library {} p) : p.Numbered := by
  induction h with
  | refl => constructor <;> simp [Progress.openIds]
  | tail _ hact ih => exact hact.numbered ih

/-! ### Where the labels are -/

/-- A label of an open scope has its number. -/
theorem Tree.Tracked.labelIn {tr : Tracker} {label n : Nat} (h : t.Tracked tr)
    (hmem : label ∈ tr.statements) (hin : t.LabelIn label n) : t.LabelIn label tr.scopeId := by
  obtain ⟨i, hi⟩ := List.mem_iff_getElem?.mp hmem
  obtain ⟨info, hp, -, hscope, -⟩ := (h.laid .eventBody).placed i label hi
  obtain ⟨s, hs, hlabel, -⟩ := hin
  obtain ⟨s', hs', rfl⟩ := Tree.stmt?_of_place? hp
  obtain rfl := Option.some.inj (hs.symm.trans hs')
  exact ⟨s, hs, hlabel, hscope⟩

/-- A label of the body is still to come, in an open scope, or in one that is
closed for good. -/
def Progress.Knows (p : Progress) (label : NodeId) : Prop :=
  ∃ n, p.run.tree.LabelIn label n ∧ (label ∈ p.run.labels
    ∨ (∃ l ∈ p.stack, label ∈ l.tracker.statements) ∨ (n ∉ p.openIds ∧ n ≤ p.run.lastScope))

/-- What is known of a label when the open scopes stay the same but for their
statements. -/
theorem Progress.Knows.mono {label : NodeId} (h : p.Knows label)
    (hg : p.run.tree.Grows P p'.run.tree) (hpend : label ∈ p.run.labels →
      label ∈ p'.run.labels ∨ ∃ l ∈ p'.stack, label ∈ l.tracker.statements)
    (hopen : (∃ l ∈ p.stack, label ∈ l.tracker.statements) →
      ∃ l ∈ p'.stack, label ∈ l.tracker.statements)
    (hids : p'.openIds = p.openIds) (hlast : p'.run.lastScope = p.run.lastScope) :
    p'.Knows label := by
  obtain ⟨n, hin, hwhere⟩ := h
  refine ⟨n, hin.grows hg, ?_⟩
  rcases hwhere with hmem | hmem | hout
  · exact (hpend hmem).imp_right .inl
  · exact .inr (.inl (hopen hmem))
  · exact .inr (.inr (by rw [hids, hlast]; exact hout))

theorem Act.knows (hact : Act script library p p') (hn : p.Numbered) (hlaid : p.Laid)
    (h : ∀ label ∈ p.labels, p.Knows label) : ∀ label ∈ p'.labels, p'.Knows label := by
  have hg := hact.grows
  -- a statement more in the innermost scope
  have happend : ∀ {tr tr' : Tracker} {aside : List NodeId} {outer : List Level} {id : NodeId}
      {label : NodeId}, p.stack = ⟨tr, aside⟩ :: outer → tr'.statements = tr.statements ++ [id] →
      (∃ l ∈ p.stack, label ∈ l.tracker.statements) →
      ∃ l ∈ (⟨tr', aside⟩ :: outer : List Level), label ∈ l.tracker.statements := by
    rintro tr tr' aside outer id label hst hstmts ⟨l, hl, hmem⟩
    rw [hst] at hl
    rcases List.mem_cons.mp hl with rfl | hl
    · exact ⟨_, List.mem_cons_self, by rw [hstmts]; exact List.mem_append_left _ hmem⟩
    · exact ⟨l, List.mem_cons_of_mem _ hl, hmem⟩
  cases hact with
  | openScope single =>
    intro label hmem
    obtain ⟨n, hin, hwhere⟩ := h label hmem
    refine ⟨n, hin, ?_⟩
    rcases hwhere with hpend | ⟨l, hl, hstmt⟩ | ⟨hout, hle⟩
    · exact .inl hpend
    · exact .inr (.inl ⟨l, List.mem_cons_of_mem _ hl, hstmt⟩)
    · refine .inr (.inr ⟨fun hopen => ?_, Nat.le_succ_of_le hle⟩)
      rcases List.mem_cons.mp hopen with rfl | hopen
      · exact Nat.not_succ_le_self _ hle
      · exact hout hopen
  | append id s rest tr tr' aside outer t' reach hl hst hs hk happ =>
    intro label hmem
    refine (h label hmem).mono hg .inl (happend hst (Tree.statements_append happ)) ?_ rfl
    simp [Progress.openIds, hst, Tree.scopeId_append happ]
  | appendLabel id s rest tr tr' aside outer t' reach hl hst hs hk hscope hindex happ =>
    intro label hmem
    refine (h label hmem).mono hg (fun hpend => ?_) (happend hst (Tree.statements_append happ))
      ?_ rfl
    · rw [hl] at hpend
      rcases List.mem_cons.mp hpend with rfl | hpend
      · refine .inr ⟨_, List.mem_cons_self, ?_⟩
        rw [Tree.statements_append happ]
        exact List.mem_append_right _ List.mem_cons_self
      · exact .inl hpend
    · simp [Progress.openIds, hst, Tree.scopeId_append happ]
  | closeScope tr aside outer kind span hl hst hpending =>
    intro label hmem
    obtain ⟨n, hin, hwhere⟩ := h label hmem
    refine ⟨n, hin.grows hg, ?_⟩
    have hids : p.openIds = tr.scopeId :: outer.map (·.tracker.scopeId) := by
      simp [Progress.openIds, hst]
    have hsorted := List.pairwise_cons.mp (hids ▸ hn.sorted)
    rcases hwhere with hpend | ⟨l, hmem', hstmt⟩ | ⟨hout, hle⟩
    · exact .inl hpend
    · rw [hst] at hmem'
      rcases List.mem_cons.mp hmem' with rfl | hmem'
      · -- the label has the number of the scope that is closed
        obtain rfl : n = tr.scopeId :=
          hin.unique ((hlaid.opened _ (hst ▸ List.mem_cons_self)).labelIn hstmt hin)
        refine .inr (.inr ⟨fun hopen => ?_, hn.bound _ (hids ▸ List.mem_cons_self)⟩)
        exact Nat.lt_irrefl _ (hsorted.1 _ hopen)
      · exact .inr (.inl ⟨l, hmem', hstmt⟩)
    · refine .inr (.inr ⟨fun hopen => hout ?_, hle⟩)
      rw [hids]
      exact List.mem_cons_of_mem _ hopen
  | enterBody labels rest hl hst hlabels hk =>
    intro label hmem
    obtain ⟨s, hs, hlabel⟩ := hk label hmem
    exact ⟨s.info.scopeId, ⟨s, hs, hlabel, rfl⟩, .inl hmem⟩
  | _ => exact fun label hmem => (h label hmem).mono hg .inl (fun hex => hex) rfl rfl

/-! ### What fits into the open scopes -/

namespace Tree

/-- The label of the jump is a statement of a scope around it. -/
def Lands (t : Tree) (j label : NodeId) : Prop := ∃ x, t.parent? label = some x ∧ t.Within j x

/-- The label is in an open scope, or will be. -/
def Owns (t : Tree) (pending : List NodeId) (l : Level) (label : NodeId) : Prop :=
  label ∈ l.tracker.statements ∨ (label ∈ pending ∧ t.LabelIn label l.tracker.scopeId)

/-- A node without a parent that may be put into the innermost of these scopes:
every jump in it lands or leads to one of them, and the scopes in it have greater
numbers. -/
structure Fits (t : Tree) (pending : List NodeId) (levels : List Level) (r : NodeId) : Prop where
  jumps : ∀ j label, t.Within j r → t.Jumps j label →
    t.Lands j label ∨ ∃ l ∈ levels, t.Owns pending l label
  scopes : ∀ x c, t.Within x r → t.scope? x = some c → ∀ l ∈ levels, l.tracker.scopeId < c.scopeId

variable {pending pending' : List NodeId} {levels levels' : List Level} {r c : NodeId}

theorem Lands.adopts {j label : NodeId} (h : t.Lands j label) (ha : t.Adopts N t') :
    t'.Lands j label := by
  obtain ⟨x, hx, hj⟩ := h
  exact ⟨x, ha.keep _ _ hx, hj.adopts ha⟩

theorem Fits.within (h : t.Fits pending levels r) (hc : t.Within c r) :
    t.Fits pending levels c :=
  ⟨fun j label hj => h.jumps j label (hj.trans hc), fun x k hx => h.scopes x k (hx.trans hc)⟩

/-- A node fits if it does so by itself and its parts fit. -/
theorem Fits.of_children (hc : ∀ c, t.parent? c = some r → t.Fits pending levels c)
    (hj : ∀ label, t.Jumps r label → t.Lands r label ∨ ∃ l ∈ levels, t.Owns pending l label)
    (hs : ∀ k, t.scope? r = some k → ∀ l ∈ levels, l.tracker.scopeId < k.scopeId) :
    t.Fits pending levels r where
  jumps j label hw hjump := by
    rcases hw.cases_tail with rfl | ⟨c, hjc, hcr⟩
    · exact hj label hjump
    · exact (hc c hcr).jumps j label hjc hjump
  scopes x k hw hx := by
    rcases hw.cases_tail with rfl | ⟨c, hxc, hcr⟩
    · exact hs k hx
    · exact (hc c hcr).scopes x k hxc hx

theorem scope?_of_grows {x : NodeId} {k : CodeScope} (hg : t.Grows P t') (hx : t.Has x)
    (h : t'.scope? x = some k) : t.scope? x = some k := by
  obtain ⟨n, hn⟩ := exists_node? hx
  obtain ⟨k', hk', ho⟩ := hg.kind? (kind?_of_node? hn)
  obtain rfl := Option.some.inj ((scope?_eq_some.mp h).symm.trans hk')
  rw [scope?_eq_some, kind?_of_node? hn, NodeKind.eq_scope_of_outline ho.symm]

/-- What fits still fits, if it adopts nothing and the scopes keep their labels. -/
theorem Fits.grows (h : t.Fits pending levels r) (hg : t.Grows P t') (ha : t.Adopts N t')
    (hr : t.Has r) (hN : ¬ N r) (hids : ∀ l' ∈ levels', ∃ l ∈ levels,
      l.tracker.scopeId = l'.tracker.scopeId)
    (hown : ∀ j label, t.Within j r → (∃ l ∈ levels, t.Owns pending l label) →
      t'.Lands j label ∨ ∃ l ∈ levels', t'.Owns pending' l label) :
    t'.Fits pending' levels' r where
  jumps j label hj hjump := by
    have hj' := hj.of_adopts ha hN
    rcases h.jumps j label hj' (hjump.of_grows hg (hj'.has hr)) with hland | howned
    · exact .inl (hland.adopts ha)
    · exact hown j label hj' howned
  scopes x k hx hk l' hl' := by
    have hx' := hx.of_adopts ha hN
    obtain ⟨l, hl, hid⟩ := hids l' hl'
    rw [← hid]
    exact h.scopes x k hx' (scope?_of_grows hg (hx'.has hr) hk) l hl

theorem Owns.grows {l : Level} {label : NodeId} (h : t.Owns pending l label) (hg : t.Grows P t')
    (hp : label ∈ pending → label ∈ pending') : t'.Owns pending' l label :=
  h.imp_right fun h => ⟨hp h.1, h.2.grows hg⟩

/-- The same scopes, and no label less to come. -/
theorem Fits.same (h : t.Fits pending levels r) (hg : t.Grows P t') (ha : t.Adopts N t')
    (hr : t.Has r) (hN : ¬ N r) : t'.Fits pending levels r :=
  h.grows hg ha hr hN (fun l hl => ⟨l, hl, rfl⟩)
    fun _ _ _ ⟨l, hl, howns⟩ => .inr ⟨l, hl, howns.grows hg fun h => h⟩

/-- All nodes in the open scopes, and those set aside, are where they fit. -/
def Stacked (F : List Level → NodeId → Prop) : List Level → Prop
  | [] => True
  | l :: outer => (∀ s ∈ l.tracker.statements, F (l :: outer) s) ∧ (∀ r ∈ l.aside, F outer r)
    ∧ Stacked F outer

theorem Stacked.mono {F G : List Level → NodeId → Prop} {stack : List Level} (h : Stacked F stack)
    (hFG : ∀ levels, levels <:+ stack → ∀ r ∈ stack.flatMap (fun l => l.tracker.statements ++ l.aside),
      F levels r → G levels r) : Stacked G stack := by
  induction stack with
  | nil => trivial
  | cons l outer ih =>
    obtain ⟨hstmts, haside, houter⟩ := h
    refine ⟨fun s hs => ?_, fun r hr => ?_, ih houter fun levels hlev r hr => ?_⟩
    · exact hFG _ (List.suffix_refl _) s (by simp [hs]) (hstmts s hs)
    · exact hFG _ (List.suffix_cons _ _) r (by simp [hr]) (haside r hr)
    · refine hFG levels (hlev.trans (List.suffix_cons _ _)) r ?_
      rw [List.flatMap_cons]
      exact List.mem_append_right _ hr

end Tree

/-- Everything in the hands of the checker is where it fits. -/
structure Progress.Arranged (p : Progress) : Prop where
  loose : ∀ r ∈ p.loose, p.run.tree.Fits p.run.labels p.stack r
  stack : Tree.Stacked (p.run.tree.Fits p.run.labels) p.stack

section Arranged

variable (hs : p.run.tree.Shaped script library p.roots)
include hs

theorem Progress.has_of_stack {r : NodeId}
    (hr : r ∈ p.stack.flatMap fun l => l.tracker.statements ++ l.aside) :
    p.run.tree.Has r ∧ r ∉ p.loose := by
  refine ⟨(hs.orphans r (List.mem_append_left _ (List.mem_append_right _ hr))).1, fun hl => ?_⟩
  exact (List.nodup_append.mp (List.nodup_append.mp hs.distinct).1).2.2 r hl r hr rfl

theorem Progress.has_of_loose {r : NodeId} (hr : r ∈ p.loose) : p.run.tree.Has r :=
  (hs.orphans r (Progress.mem_roots_of_loose hr)).1

/-- An act that leaves the open scopes alone. -/
theorem Progress.Arranged.same (h : p.Arranged) (hg : p.run.tree.Grows P p'.run.tree)
    (ha : p.run.tree.Adopts N p'.run.tree) (hst : p'.stack = p.stack)
    (hlabels : p'.run.labels = p.run.labels)
    (hN : ∀ q, N q → ¬ p.run.tree.Has q ∨ q ∈ p.loose)
    (hloose : ∀ r ∈ p'.loose, (r ∈ p.loose ∧ ¬ N r)
      ∨ p'.run.tree.Fits p.run.labels p.stack r) : p'.Arranged := by
  constructor <;> rw [hlabels, hst]
  · intro r hr
    rcases hloose r hr with ⟨hmem, hnot⟩ | hfits
    · exact (h.loose r hmem).same hg ha (Progress.has_of_loose hs hmem) hnot
    · exact hfits
  · refine h.stack.mono fun levels _ r hr hfits => ?_
    obtain ⟨hhas, hout⟩ := Progress.has_of_stack hs hr
    exact hfits.same hg ha hhas fun hq => (hN r hq).elim (fun h => h hhas) hout

/-- An error, which has no parts. -/
theorem Progress.fits_error (span : Span) :
    (p.run.tree.allocError span).1.Fits p.run.labels p.stack p.run.tree.size := by
  have hself : (p.run.tree.allocError span).1.kind? p.run.tree.size = some .error := by
    rw [Tree.kind?_allocError, if_pos rfl]
  refine .of_children (fun c hc => ?_) (fun label hjump => ?_) fun k hk => ?_
  · rw [Tree.parent?_allocError] at hc
    obtain ⟨k, hk, -⟩ := hs.owned c _ hc
    exact absurd (Tree.has_of_kind? hk) (Nat.lt_irrefl _)
  · obtain ⟨name, always, info, hj⟩ := hjump
    rw [Tree.stmt?_eq_some, hself] at hj
    cases hj
  · rw [Tree.scope?_eq_some, hself] at hk
    cases hk

/-- A new node out of loose ones. -/
theorem Progress.Arranged.fits_make (h : p.Arranged) (hknows : ∀ label ∈ p.labels, p.Knows label)
    {kind : NodeKind} {rest : List NodeId} (span : Span) (hl : p.loose = kind.children ++ rest)
    (hnew : kind.outline = kind) (hf : p.run.tree.Formed script library kind)
    (hj : p.MayLead kind) (hsort : kind.sort ≠ .scope) (wrong : Bool) :
    ((p.run.tree.alloc kind span).1.settle wrong p.run.tree.size kind).Fits p.run.labels p.stack
      p.run.tree.size := by
  have ha := Act.adopts_make hs span hl wrong
  have hg : p.run.tree.Grows (fun _ => True)
      ((p.run.tree.alloc kind span).1.settle wrong p.run.tree.size kind) :=
    (Tree.grows_alloc kind span).idem (Tree.grows_settle wrong kind)
  have hretains := Tree.retains_settle (t := (p.run.tree.alloc kind span).1) wrong
    p.run.tree.size kind
  have hnote : (p.run.tree.alloc kind span).1.Grows (fun _ => True)
      ((p.run.tree.alloc kind span).1.settle wrong p.run.tree.size kind) :=
    Tree.grows_settle wrong kind
  obtain ⟨k', hk', ho⟩ := hnote.kind? (Tree.kind?_alloc_self kind span)
  refine .of_children (fun c hc => ?_) (fun label hjump => .inr ?_) fun k hk => ?_
  · rw [hretains.parent?, Tree.parent?_alloc kind span hf.has] at hc
    split at hc
    · rename_i hmem
      exact (h.loose c (hl ▸ List.mem_append_left _ hmem)).same hg ha (hf.has c hmem)
        (Nat.ne_of_lt (hf.has c hmem))
    · obtain ⟨k, hk, -⟩ := hs.owned c _ hc
      exact absurd (Tree.has_of_kind? hk) (Nat.lt_irrefl _)
  · -- a new jump leads to a label of the body whose scope is open
    obtain ⟨name, always, info, hj'⟩ := hjump
    obtain rfl := Option.some.inj ((Tree.stmt?_eq_some.mp hj').symm.trans hk')
    obtain rfl := NodeKind.eq_jump_of_outline hnew ho
    obtain ⟨hlabel, s, hs, hopen⟩ := hj name label false {} rfl
    obtain ⟨n, hin, hwhere⟩ := hknows label hlabel
    have hn : s.info.scopeId = n := by
      obtain ⟨s', hs', -, rfl⟩ := hin
      rw [Option.some.inj (hs.symm.trans hs')]
    rw [hn] at hopen
    rcases hwhere with hpend | ⟨l, hl, hmem⟩ | ⟨hout, -⟩
    · obtain ⟨l, hl, rfl⟩ := List.mem_map.mp hopen
      exact ⟨l, hl, .inr ⟨hpend, hin.grows hg⟩⟩
    · exact ⟨l, hl, .inl hmem⟩
    · exact absurd hopen hout
  · obtain rfl := Option.some.inj ((Tree.scope?_eq_some.mp hk).symm.trans hk')
    rw [NodeKind.eq_scope_of_outline ho.symm] at hsort
    exact absurd rfl hsort

/-- A node that is filled with loose ones. -/
theorem Progress.Arranged.fits_fill (h : p.Arranged) {id : NodeId} {k kind : NodeKind}
    (hid : id ∈ p.loose) (hk : p.run.tree.kind? id = some k)
    (hkind : ∀ n, kind ≠ .stmt n) (hscope : ∀ n, kind ≠ .scope n)
    (hg : p.run.tree.Grows P (p.run.tree.fill id kind).1)
    (ha : p.run.tree.Adopts (· = id) (p.run.tree.fill id kind).1)
    (hparts : ∀ c, (p.run.tree.fill id kind).1.parent? c = some id →
      p.run.tree.parent? c = some id ∨ c ∈ p.loose) :
    (p.run.tree.fill id kind).1.Fits p.run.labels p.stack id := by
  have hself : (p.run.tree.fill id kind).1.kind? id = some kind := by
    rw [Tree.kind?_fill kind (Tree.has_of_kind? hk), if_pos rfl]
  have hroot := (hs.orphans id (Progress.mem_roots_of_loose hid)).2
  refine .of_children (fun c hc => ?_) (fun label hjump => ?_) fun n hn => ?_
  · have hne : ¬ c = id := by
      rintro rfl
      rcases ha.new _ _ hc with hc | ⟨-, hc'⟩
      · simp [hroot] at hc
      · simp [hc'] at hc
    rcases hparts c hc with hold | hmem
    · exact ((h.loose id hid).within (.of_parent hold)).same hg ha (Tree.has_of_parent? hold) hne
    · exact (h.loose c hmem).same hg ha (Progress.has_of_loose hs hmem) hne
  · obtain ⟨name, always, info, hj⟩ := hjump
    rw [Tree.stmt?_eq_some, hself] at hj
    exact absurd (Option.some.inj hj) (hkind _)
  · rw [Tree.scope?_eq_some, hself] at hn
    exact absurd (Option.some.inj hn) (hscope _)

/-- A function or a state is filled. -/
theorem Progress.Arranged.fill (h : p.Arranged) {id : NodeId} {k kind : NodeKind}
    (hid : id ∈ p.loose) (hk : p.run.tree.kind? id = some k)
    (hkind : ∀ n, kind ≠ .stmt n) (hscope : ∀ n, kind ≠ .scope n)
    (ht : p'.run.tree = (p.run.tree.fill id kind).1) (hst : p'.stack = p.stack)
    (hlabels : p'.run.labels = p.run.labels) (hloose : p'.loose ⊆ p.loose)
    (hg : p.run.tree.Grows P p'.run.tree) (ha : p.run.tree.Adopts (· = id) p'.run.tree)
    (hparts : ∀ c, p'.run.tree.parent? c = some id →
      p.run.tree.parent? c = some id ∨ c ∈ p.loose) : p'.Arranged := by
  refine h.same hs hg ha hst hlabels (fun q hq => .inr (hq ▸ hid)) fun r hr => ?_
  by_cases hr' : r = id
  · rw [ht] at hg ha hparts ⊢
    rw [hr']
    exact .inr (h.fits_fill hs hid hk hkind hscope hg ha hparts)
  · exact .inl ⟨hloose hr, hr'⟩

/-- A statement that is appended to the innermost scope. -/
theorem Progress.Arranged.append (h : p.Arranged) (hn : p.Numbered) {id : NodeId}
    {tr tr' : Tracker} {aside : List NodeId} {outer : List Level}
    (hst : p.stack = ⟨tr, aside⟩ :: outer) (hst' : p'.stack = ⟨tr', aside⟩ :: outer)
    (hstmts : tr'.statements = tr.statements ++ [id]) (hscope : tr'.scopeId = tr.scopeId)
    (hg : p.run.tree.Grows P p'.run.tree) (ha : p.run.tree.Adopts (fun _ => False) p'.run.tree)
    (hpend : ∀ label ∈ p.run.labels, label ∈ p'.run.labels
      ∨ (label = id ∧ p.run.tree.LabelIn id tr.scopeId))
    (hid : p.run.tree.Fits p.run.labels p.stack id) (hhas : p.run.tree.Has id)
    (hloose : p'.loose ⊆ p.loose) : p'.Arranged := by
  have hsorted : ∀ l ∈ outer, l.tracker.scopeId < tr.scopeId := by
    have := hn.sorted
    rw [Progress.openIds, hst, List.map_cons, List.pairwise_cons] at this
    exact fun l hl => this.1 _ (List.mem_map_of_mem hl)
  -- an outer scope does not get the label
  have houter : ∀ l ∈ outer, ∀ label, p.run.tree.Owns p.run.labels l label →
      p'.run.tree.Owns p'.run.labels l label := by
    rintro l hl label (hmem | ⟨hmem, hin⟩)
    · exact .inl hmem
    · rcases hpend label hmem with hmem' | ⟨rfl, hin'⟩
      · exact .inr ⟨hmem', hin.grows hg⟩
      · exact absurd (hin.unique hin') (Nat.ne_of_lt (hsorted l hl))
  have hinner : ∀ label, (∃ l ∈ p.stack, p.run.tree.Owns p.run.labels l label) →
      ∃ l ∈ p'.stack, p'.run.tree.Owns p'.run.labels l label := by
    rw [hst, hst']
    rintro label ⟨l, hl, howns⟩
    rcases List.mem_cons.mp hl with rfl | hl
    · refine ⟨_, List.mem_cons_self, ?_⟩
      rcases howns with hmem | ⟨hmem, hin⟩
      · exact .inl (by rw [hstmts]; exact List.mem_append_left _ hmem)
      · rcases hpend label hmem with hmem' | ⟨rfl, -⟩
        · exact .inr ⟨hmem', by rw [hscope]; exact hin.grows hg⟩
        · exact .inl (by rw [hstmts]; exact List.mem_append_right _ List.mem_cons_self)
    · exact ⟨l, List.mem_cons_of_mem _ hl, houter l hl label howns⟩
  have hids : ∀ l' ∈ p'.stack, ∃ l ∈ p.stack, l.tracker.scopeId = l'.tracker.scopeId := by
    rw [hst, hst']
    intro l' hl'
    rcases List.mem_cons.mp hl' with rfl | hl'
    · exact ⟨_, List.mem_cons_self, hscope.symm⟩
    · exact ⟨l', List.mem_cons_of_mem _ hl', rfl⟩
  have hfits : ∀ r, p.run.tree.Has r → p.run.tree.Fits p.run.labels p.stack r →
      p'.run.tree.Fits p'.run.labels p'.stack r := fun r hr hf =>
    hf.grows hg ha hr (fun hf => hf) hids fun _ label _ howned => .inr (hinner label howned)
  have hfits' : ∀ levels, levels <:+ outer → ∀ r, p.run.tree.Has r →
      p.run.tree.Fits p.run.labels levels r → p'.run.tree.Fits p'.run.labels levels r :=
    fun levels hlev r hr hf => hf.grows hg ha hr (fun hf => hf) (fun l hl => ⟨l, hl, rfl⟩)
      fun _ label _ howned => .inr <| howned.imp fun l hl =>
        ⟨hl.1, houter l (hlev.subset hl.1) label hl.2⟩
  have hroots : ∀ r, r ∈ p.stack.flatMap (fun l => l.tracker.statements ++ l.aside) →
      p.run.tree.Has r := fun r hr => (Progress.has_of_stack hs hr).1
  have hstack := h.stack
  rw [hst] at hstack hroots
  obtain ⟨hold, haside, hrest⟩ := hstack
  constructor
  · exact fun r hr => hfits r (Progress.has_of_loose hs (hloose hr)) (h.loose r (hloose hr))
  · have hall : ∀ s ∈ tr'.statements, p'.run.tree.Fits p'.run.labels p'.stack s := by
      intro s hmem
      rw [hstmts] at hmem
      rcases List.mem_append.mp hmem with hmem | hmem
      · exact hfits s (hroots s (by simp [hmem])) (by rw [hst]; exact hold s hmem)
      · rw [List.mem_singleton.mp hmem]
        exact hfits id hhas hid
    rw [hst'] at hall ⊢
    refine ⟨hall, fun r hr => ?_, hrest.mono fun levels hlev r hr => ?_⟩
    · exact hfits' outer (List.suffix_refl _) r (hroots r (by simp [hr])) (haside r hr)
    · refine hfits' levels hlev r (hroots r ?_)
      rw [List.flatMap_cons]
      exact List.mem_append_right _ hr

/-- A scope that is closed: the jumps to its labels land in it. -/
theorem Progress.Arranged.fits_close (h : p.Arranged) (hn : p.Numbered) {tr : Tracker}
    {aside : List NodeId} {outer : List Level} (kind : ScopeKind) (span : Span)
    (hst : p.stack = ⟨tr, aside⟩ :: outer)
    (hpending : ∀ l ∈ p.run.labels, ∀ s, p.run.tree.stmt? l = some s →
      s.info.scopeId ≠ tr.scopeId) :
    (p.run.tree.alloc (.scope (tr.scope kind)) span).1.Fits p.run.labels outer p.run.tree.size := by
  have ha := Act.adopts_closeScope hs kind span hst
  have hg := Tree.grows_alloc (t := p.run.tree) (P := fun _ => True) (.scope (tr.scope kind)) span
  have htop : (⟨tr, aside⟩ : Level) ∈ p.stack := hst ▸ List.mem_cons_self
  have hhas : ∀ s ∈ tr.statements, p.run.tree.Has s := fun s hmem =>
    (hs.orphans s (Progress.mem_roots_of_statements htop hmem)).1
  have hparent : ∀ s ∈ tr.statements,
      (p.run.tree.alloc (.scope (tr.scope kind)) span).1.parent? s = some p.run.tree.size := by
    intro s hmem
    rw [Tree.parent?_alloc (.scope (tr.scope kind)) span hhas]
    exact if_pos hmem
  have hstack := h.stack
  rw [hst] at hstack
  refine .of_children (fun c hc => ?_) (fun label hjump => ?_) fun k hk l hl => ?_
  · have hmem : c ∈ tr.statements := by
      rw [Tree.parent?_alloc (.scope (tr.scope kind)) span hhas] at hc
      split at hc
      · assumption
      · obtain ⟨k, hk, -⟩ := hs.owned c _ hc
        exact absurd (Tree.has_of_kind? hk) (Nat.lt_irrefl _)
    refine (hstack.1 c hmem).grows hg ha (hhas c hmem) (Nat.ne_of_lt (hhas c hmem))
      (fun l hl => ⟨l, List.mem_cons_of_mem _ hl, rfl⟩) fun j label hj ⟨l, hl, howns⟩ => ?_
    rcases List.mem_cons.mp hl with rfl | hl
    · rcases howns with hlabel | ⟨hlabel, s, hs', -, hscope⟩
      · exact .inl ⟨_, hparent label hlabel, (hj.adopts ha).trans (.of_parent hc)⟩
      · exact absurd hscope (hpending label hlabel s hs')
    · exact .inr ⟨l, hl, howns.grows hg fun h => h⟩
  · obtain ⟨name, always, info, hj⟩ := hjump
    rw [Tree.stmt?_eq_some, Tree.kind?_alloc_self] at hj
    cases hj
  · rw [Tree.scope?_eq_some, Tree.kind?_alloc_self] at hk
    cases hk
    have := hn.sorted
    rw [Progress.openIds, hst, List.map_cons, List.pairwise_cons] at this
    exact this.1 _ (List.mem_map_of_mem hl)

/-- What was set aside for the scope that is closed is loose again. -/
theorem Progress.Arranged.close (h : p.Arranged) (hn : p.Numbered) {tr : Tracker}
    {aside : List NodeId} {outer : List Level} (kind : ScopeKind) (span : Span)
    (hst : p.stack = ⟨tr, aside⟩ :: outer)
    (hpending : ∀ l ∈ p.run.labels, ∀ s, p.run.tree.stmt? l = some s →
      s.info.scopeId ≠ tr.scopeId)
    (ht : p'.run.tree = (p.run.tree.alloc (.scope (tr.scope kind)) span).1)
    (hlabels : p'.run.labels = p.run.labels) (hloose : p'.loose = p.run.tree.size :: aside)
    (hst' : p'.stack = outer) : p'.Arranged := by
  have ha := Act.adopts_closeScope hs kind span hst
  have hg := Tree.grows_alloc (t := p.run.tree) (P := fun _ => True) (.scope (tr.scope kind)) span
  have hhas : ∀ r, r ∈ aside ++ outer.flatMap (fun l => l.tracker.statements ++ l.aside) →
      p.run.tree.Has r := by
    intro r hr
    refine (Progress.has_of_stack hs ?_).1
    rw [hst, List.flatMap_cons, List.append_assoc]
    exact List.mem_append_right _ hr
  have hstack := h.stack
  rw [hst] at hstack
  obtain ⟨-, haside, houter⟩ := hstack
  constructor <;> rw [ht, hlabels, hst']
  · intro r hr
    rw [hloose] at hr
    rcases List.mem_cons.mp hr with rfl | hr
    · exact h.fits_close hs hn kind span hst hpending
    · have hr' := hhas r (List.mem_append_left _ hr)
      exact (haside r hr).same hg ha hr' (Nat.ne_of_lt hr')
  · refine houter.mono fun levels _ r hr hfits => ?_
    have hr' := hhas r (List.mem_append_right _ hr)
    exact hfits.same hg ha hr' (Nat.ne_of_lt hr')

/-- A label, which has no parts. -/
theorem Progress.fits_label {id : NodeId} {s : StmtNode} {levels : List Level}
    (hstmt : p.run.tree.stmt? id = some s) (hl : s.kind.isLabel = true) :
    p.run.tree.Fits p.run.labels levels id := by
  have hkind := Tree.stmt?_eq_some.mp hstmt
  rcases s with ⟨kind, info⟩
  cases kind <;> simp [StmtKind.isLabel] at hl
  refine .of_children (fun c hc => ?_) (fun label hjump => ?_) fun k hk => ?_
  · obtain ⟨k, hk, -, hmem⟩ := hs.owned c id hc
    obtain rfl := Option.some.inj (hkind.symm.trans hk)
    exact absurd (hmem (by simp [NodeKind.sort]) (by simp [NodeKind.sort]))
      (by simp [NodeKind.children, StmtKind.children])
  · obtain ⟨name, always, info', hj⟩ := hjump
    rw [hstmt] at hj
    cases hj
  · rw [Tree.scope?_eq_some, hkind] at hk
    cases hk

end Arranged

/-- **Acts keep everything where it fits.** -/
theorem Act.arranged (hact : Act script library p p')
    (hs : p.run.tree.Shaped script library p.roots) (hn : p.Numbered)
    (hknows : ∀ label ∈ p.labels, p.Knows label) (h : p.Arranged) : p'.Arranged := by
  have hg := hact.grows
  have hnone : ∀ q : Nat, False → ¬ p.run.tree.Has q ∨ q ∈ p.loose := fun _ hf => hf.elim
  cases hact with
  | say | names => exact ⟨h.loose, h.stack⟩
  | shuffle loose hl => exact ⟨fun r hr => h.loose r (hl.mem_iff.mpr hr), h.stack⟩
  | fault id ns hid hne hns =>
    exact h.same hs hg (Tree.retains_markError id).adopts rfl rfl hnone
      fun r hr => .inl ⟨hr, fun hf => hf⟩
  | reject dropped rest ns span hl hns hwhy =>
    have hparent : ∀ i, (p.run.tree.allocError span).1.parent? i = p.run.tree.parent? i :=
      fun i => Tree.parent?_allocError span
    refine h.same (N := fun _ => False) hs hg ⟨fun c q hq => by rw [hparent, hq],
      fun c q hq => .inl (by rw [← hparent, hq])⟩ rfl rfl hnone fun r hr => ?_
    rcases List.mem_cons.mp hr with rfl | hr
    · exact .inr (Progress.fits_error hs span)
    · exact .inl ⟨hl ▸ List.mem_append_right _ hr, fun hf => hf⟩
  | make kind rest span ns hl hnew hf hj hsort he hns =>
    refine h.same hs hg (Act.adopts_make hs span hl _) rfl rfl
      (fun q hq => .inl (by rw [hq]; exact Nat.lt_irrefl _)) fun r hr => ?_
    rcases List.mem_cons.mp hr with rfl | hr
    · exact .inr (h.fits_make hs hknows span hl hnew hf hj hsort _)
    · have hmem : r ∈ p.loose := hl ▸ List.mem_append_right _ hr
      exact .inl ⟨hmem, Nat.ne_of_lt (Progress.has_of_loose hs hmem)⟩
  | openScope single => exact ⟨by simp, by simp, h.loose, h.stack⟩
  | append id s rest tr tr' aside outer t' reach hl hst hstmt hk happ =>
    have hid : id ∈ p.loose := hl ▸ List.mem_cons_self
    exact h.append hs hn hst rfl (Tree.statements_append happ) (Tree.scopeId_append happ) hg
      (Tree.retains_append happ hstmt (by simp [hk])).adopts (fun label hmem => .inl hmem)
      (h.loose id hid) (Progress.has_of_loose hs hid) (hl ▸ List.subset_cons_self _ _)
  | appendLabel id s rest tr tr' aside outer t' reach hl hst hstmt hk hscope hindex happ =>
    refine h.append hs hn hst rfl (Tree.statements_append happ) (Tree.scopeId_append happ) hg
      (Tree.retains_append happ hstmt fun _ => ⟨hscope, hindex⟩).adopts (fun label hmem => ?_)
      (Progress.fits_label hs hstmt hk) (Tree.has_of_kind? (Tree.stmt?_eq_some.mp hstmt))
      (List.Subset.refl _)
    rw [hl] at hmem
    rcases List.mem_cons.mp hmem with rfl | hmem
    · exact .inr ⟨rfl, s, hstmt, hk, hscope⟩
    · exact .inl hmem
  | closeScope tr aside outer kind span hl hst hpending =>
    exact h.close hs hn kind span hst hpending rfl rfl rfl rfl
  | enterBody labels rest hl hst hlabels hk =>
    have hfits : ∀ r ∈ rest, p.run.tree.Fits labels p.stack r := by
      intro r hr
      have hmem : r ∈ p.loose := hl ▸ List.mem_append_right _ hr
      refine ⟨fun j label hj hjump => .inl ?_, fun x c hx hc => (h.loose r hmem).scopes x c hx hc⟩
      rcases (h.loose r hmem).jumps j label hj hjump with hland | ⟨l, hl', -⟩
      · exact hland
      · simp [hst] at hl'
    refine ⟨hfits, ?_⟩
    change Tree.Stacked _ p.stack
    rw [hst]
    trivial
  | fillFunction id f body c rest hl hid hopen hf hb hcallable hret =>
    have hloose : rest ⊆ p.loose := hl ▸ List.subset_cons_self _ _
    obtain ⟨ha, hparts⟩ := Act.adopts_fillFunction hs hl hid hf hb
    exact h.fill hs (hloose hid) hf (by simp) (by simp) rfl rfl rfl hloose hg ha hparts
  | fillState id s handlers rest hl hid hopen hst hh =>
    have hloose : rest ⊆ p.loose := hl ▸ List.subset_append_right _ _
    obtain ⟨ha, hparts⟩ := Act.adopts_fillState hs hl hid hst hh
    exact h.fill hs (hloose hid) hst (by simp) (by simp) rfl rfl rfl hloose hg ha hparts

/-- Everything is where it fits, along with what that rests on. -/
theorem Acts.arranged (h : Acts script library {} p) :
    (∀ label ∈ p.labels, p.Knows label) ∧ p.Arranged := by
  induction h with
  | refl => exact ⟨by simp, by simp, trivial⟩
  | tail hacts hact ih =>
    exact ⟨hact.knows (Acts.numbered hacts) (Acts.laid hacts) ih.1,
      hact.arranged (Acts.shaped hacts) (Acts.numbered hacts) ih.1 ih.2⟩

/-- **In the end every jump lands.** -/
theorem Finished.lands {root : NodeId} {n : ScriptNode} (h : Finished script library p root n)
    {j label : NodeId} (hj : p.run.tree.Within j root) (hjump : p.run.tree.Jumps j label) :
    p.run.tree.Lands j label := by
  have hfits := (Acts.arranged h.acts).2.loose root (by simp [h.loose])
  rcases hfits.jumps j label hj hjump with hland | ⟨l, hl, -⟩
  · exact hland
  · simp [h.stack] at hl

/-! ### Scopes inside scopes -/

/-- The scopes in the statements of a scope have greater numbers. -/
def Tree.Nests (t : Tree) (c : CodeScope) : Prop :=
  ∀ s ∈ c.statements, ∀ x d, t.Within x s → t.scope? x = some d → c.scopeId < d.scopeId

theorem Tree.Nests.grows {c : CodeScope} (h : t.Nests c) (hg : t.Grows P t') (ha : t.Adopts N t')
    (hs : ∀ s ∈ c.statements, t.Fixed P N s) : t'.Nests c := by
  intro s hmem x d hx hd
  obtain ⟨hhas, -, hN⟩ := hs s hmem
  have hx' := hx.of_adopts ha hN
  exact h s hmem x d hx' (Tree.scope?_of_grows hg (hx'.has hhas) hd)

theorem Act.nested (hact : Act script library p p')
    (hs : p.run.tree.Shaped script library p.roots)
    (hs' : p'.run.tree.Shaped script library p'.roots) (harr : p.Arranged)
    (h : ∀ x c, p.run.tree.scope? x = some c → p.run.tree.Nests c) :
    ∀ x c, p'.run.tree.scope? x = some c → p'.run.tree.Nests c := by
  intro x c hc
  have ha := Act.adopts hs hact
  rcases hact.scope?_cases hc with hold | ⟨tr, aside, outer, kind, hst, rfl⟩
  · exact (h x c hold).grows hact.grows ha (hact.fixed_of_closed hs hs' hold)
  · have hnests : p.run.tree.Nests (tr.scope kind) := by
      intro s hmem y d hy hd
      have hstack := harr.stack
      rw [hst] at hstack
      exact (hstack.1 s hmem).scopes y d hy hd _ List.mem_cons_self
    exact hnests.grows hact.grows ha
      (Act.fixed_of_closing hs hs' (hst ▸ List.mem_cons_self) hc)

theorem Acts.nested (h : Acts script library {} p) :
    ∀ x c, p.run.tree.scope? x = some c → p.run.tree.Nests c := by
  induction h with
  | refl => exact fun x c hc => by simp [Tree.scope?, Tree.kind?, Tree.node?] at hc
  | tail hacts hact ih =>
    exact hact.nested (Acts.shaped hacts) (Acts.shaped (hacts.tail hact)) (Acts.arranged hacts).2 ih

end Lsl
