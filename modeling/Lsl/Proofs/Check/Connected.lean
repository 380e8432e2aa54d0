/- # Everything belongs to the script

A node that is made is taken up by another one in the end, unless it is put
aside for an error in its place. So where no error is reported, every node lies
within the script.

Key definitions: `Progress.Complete`.
Key theorems: `Acts.complete`, `Finished.within_root`.
-/
import Lsl.Proofs.Check.ErrorFlags
import Lsl.Proofs.Check.Within

namespace Lsl

variable {script : Script} {library : Catalog} {p p' : Progress} {t : Tree} {i : Nat}

/-- Unless something was wrong, every node without a parent is still to get one. -/
def Progress.Complete (p : Progress) : Prop :=
  p.run.Faulty ∨ ∀ i, p.run.tree.Has i → p.run.tree.parent? i = none → i ∈ p.roots

/-- Some roots become parts of a node, and a node that is new is a root. -/
theorem Progress.Complete.adopt {N : Nat → Prop} (h : p.Complete)
    (hs' : p'.run.tree.Shaped script library p'.roots)
    (ha : p.run.tree.Adopts N p'.run.tree) (hn : p.run.notices ⊆ p'.run.notices)
    (q : NodeId) {parts others : List NodeId} (hr : p.roots.Perm (parts ++ others))
    (hparts : parts ⊆ p'.run.tree.children q) (hothers : others ⊆ p'.roots)
    (hnew : ∀ i, p'.run.tree.Has i → p.run.tree.Has i ∨ i ∈ p'.roots) : p'.Complete := by
  rcases h with ⟨m, hm, hmark⟩ | h
  · exact .inl ⟨m, hn hm, hmark⟩
  refine .inr fun i hi hp => ?_
  rcases hnew i hi with hold | hroot
  · have hnone : p.run.tree.parent? i = none := by
      rcases hq : p.run.tree.parent? i with _ | q
      · rfl
      · rw [ha.keep i q hq] at hp
        cases hp
    rcases List.mem_append.mp (hr.subset (h i hold hnone)) with hpart | hother
    · rw [hs'.links q i (hparts hpart)] at hp
      cases hp
    · exact hothers hother
  · exact hroot

/-- The newest node is a root, and the others were there before. -/
theorem Progress.has_of_size (hsize : p'.run.tree.size = p.run.tree.size + 1)
    (hroot : p.run.tree.size ∈ p'.roots) (hi : p'.run.tree.Has i) :
    p.run.tree.Has i ∨ i ∈ p'.roots := by
  rw [Tree.Has, hsize] at hi
  rcases Nat.lt_or_eq_of_le (Nat.le_of_lt_succ hi) with hi | rfl
  · exact .inl hi
  · exact .inr hroot

/-- **Nothing is lost by an act.** -/
theorem Act.complete (hact : Act script library p p')
    (hs : p.run.tree.Shaped script library p.roots)
    (hs' : p'.run.tree.Shaped script library p'.roots) (hflag : p.Flagged) (h : p.Complete) :
    p'.Complete := by
  have ha := Act.adopts hs hact
  have hn := hact.notices
  -- no node is new, and none gets a parent
  have hsame : p'.run.tree.size = p.run.tree.size → p.roots.Perm p'.roots → p'.Complete := by
    intro hsize hr
    rw [← List.nil_append p'.roots] at hr
    exact h.adopt hs' ha hn 0 hr (List.nil_subset _) (List.Subset.refl _)
      fun i hi => .inl (Nat.lt_of_lt_of_eq hi hsize)
  cases hact with
  | say | names => exact hsame rfl (.refl _)
  | fault id ns hid hne hns =>
    obtain ⟨m, hm⟩ := List.exists_mem_of_ne_nil ns hne
    exact .inl ⟨m, List.mem_append_right _ hm, hns m hm⟩
  | reject dropped rest ns span hl hns hwhy =>
    -- what is rejected is wrong already, or reported now
    rcases hwhy with hne | ⟨d, -, hd⟩
    · obtain ⟨m, hm⟩ := List.exists_mem_of_ne_nil ns hne
      exact .inl ⟨m, List.mem_append_right _ hm, hns m hm⟩
    · obtain ⟨m, hm, hmark⟩ := hflag.told d hd
      exact .inl ⟨m, List.mem_append_left _ hm, hmark⟩
  | make kind rest span ns hl hnew hf hj hsort he hns =>
    refine h.adopt hs' ha hn p.run.tree.size (.of_eq (Progress.roots_of_loose hl)) ?_ ?_
      fun i => Progress.has_of_size ?_ ?_
    · rw [(Tree.retains_settle _ _ kind).children, Tree.children_alloc, if_pos rfl]
      exact List.Subset.refl _
    · rw [Progress.roots_eq]
      exact List.subset_cons_self _ _
    · rw [Tree.size_settle, Tree.size_alloc]
    · exact Progress.mem_roots_of_loose List.mem_cons_self
  | shuffle loose hl => exact hsame rfl (Progress.roots_perm rfl (hl.append_right _))
  | openScope single =>
    refine hsame rfl (.of_eq ?_)
    simp [Progress.roots]
  | append id s rest tr tr' aside outer t' reach hl hst hstmt hk happ =>
    refine hsame (Tree.retains_append happ hstmt (by simp [hk])).size
      (Progress.roots_append happ hst rfl ?_)
    rw [hl]
    exact .refl _
  | appendLabel id s rest tr tr' aside outer t' reach hl hst hstmt hk hscope hindex happ =>
    refine hsame (Tree.retains_append happ hstmt fun _ => ⟨hscope, hindex⟩).size
      (Progress.roots_append happ hst rfl ?_)
    rw [hl]
    exact List.perm_middle
  | closeScope tr aside outer kind span hl hst hpending =>
    refine h.adopt hs' ha hn p.run.tree.size (.of_eq (Progress.roots_of_level hl hst)) ?_ ?_
      fun i => Progress.has_of_size ?_ ?_
    · rw [Tree.children_alloc, if_pos rfl]
      exact List.Subset.refl _
    · rw [Progress.roots_eq]
      exact List.subset_cons_self _ _
    · rw [Tree.size_alloc]
    · exact Progress.mem_roots_of_loose List.mem_cons_self
  | enterBody labels rest hl hst hlabels hk =>
    refine hsame rfl (Progress.roots_perm rfl ?_)
    rw [hl, hlabels, List.append_nil]
    exact List.perm_append_comm
  | fillFunction id f body c rest hl hid hopen hf hb hcallable hret =>
    have hr : p.roots = [body] ++ (rest ++ p.besides) := Progress.roots_of_loose hl
    refine h.adopt hs' ha hn id (.of_eq hr) ?_ ?_
      fun i hi => .inl (Nat.lt_of_lt_of_eq hi (Tree.size_fill _))
    · rw [Tree.children_fill _ (Tree.has_of_kind? hf), if_pos rfl]
      simp [NodeKind.children]
    · rw [Progress.roots_eq]
      exact List.Subset.refl _
  | fillState id s handlers rest hl hid hopen hk hh =>
    refine h.adopt hs' ha hn id (.of_eq (Progress.roots_of_loose hl)) ?_ ?_
      fun i hi => .inl (Nat.lt_of_lt_of_eq hi (Tree.size_fill _))
    · rw [Tree.children_fill _ (Tree.has_of_kind? hk), if_pos rfl]
      exact List.Subset.refl _
    · rw [Progress.roots_eq]
      exact List.Subset.refl _

theorem Acts.complete (h : Acts script library {} p) : p.Complete := by
  induction h with
  | refl => exact .inr fun i hi => absurd hi (Nat.not_lt_zero i)
  | tail hacts hact ih =>
    exact hact.complete (Acts.shaped hacts) (Acts.shaped (hacts.tail hact)) (Acts.flagged hacts) ih

/-! ### In the end -/

/-- How far below the script a node outside the bodies may stand. -/
def NodeSort.depth : NodeSort → Nat
  | .script => 0
  | .global | .function | .state => 1
  | .handler => 2
  | _ => 3

theorem NodeSort.depth_lt_of_holds {s s' : NodeSort} (h : s.holds s' = true)
    (hb : s'.inBody = false) : s.depth < s'.depth := by
  cases s <;> cases s' <;> simp_all [holds, inBody, depth]

section Root

variable {roots : List NodeId} {root : NodeId} (hs : t.Shaped script library roots)
  (hall : ∀ i, t.Has i → t.parent? i = none → i = root)
include hs hall

/-- Outside the bodies the way up leads to nodes that may hold more. -/
theorem Tree.Shaped.within_of_outside {s : NodeSort} (hsort : t.sort? i = some s)
    (hb : s.inBody = false) : t.Within i root := by
  induction hd : s.depth using Nat.strongRecOn generalizing i s with
  | _ d ih =>
    rcases hp : t.parent? i with _ | q
    · rw [hall i (has_of_sort? hsort) hp]
      exact .refl root
    · obtain ⟨k, hk, ⟨s', hs', hholds⟩, -⟩ := hs.owned i q hp
      obtain rfl := Option.some.inj (hsort.symm.trans hs')
      have hout : k.sort.inBody = false := by
        by_contra hin
        rw [NodeSort.inBody_of_holds (by simpa using hin) hholds] at hb
        cases hb
      exact .head hp (ih _ (hd ▸ NodeSort.depth_lt_of_holds hholds hb) (sort?_of_kind? hk) hout rfl)

/-- Inside a body the way up leads to nodes that were made later. -/
theorem Tree.Shaped.within_root (hi : t.Has i) : t.Within i root := by
  induction hd : t.size - i using Nat.strongRecOn generalizing i with
  | _ d ih =>
    rcases hp : t.parent? i with _ | q
    · rw [hall i hi hp]
      exact .refl root
    · obtain ⟨k, hk, -⟩ := hs.owned i q hp
      have hq := has_of_kind? hk
      refine .head hp ?_
      by_cases hin : k.sort.inBody = true
      · obtain ⟨-, hlt⟩ := hs.inBody_of_parent? hp ⟨k.sort, sort?_of_kind? hk, hin⟩
        exact ih (t.size - q) (by omega) hq rfl
      · exact hs.within_of_outside hall (sort?_of_kind? hk) (by simpa using hin)

end Root

/-- **Where nothing is wrong, every node is a part of the script.** -/
theorem Finished.within_root {root : NodeId} {n : ScriptNode} (h : Finished script library p root n)
    (hn : ¬ p.run.Faulty) (hi : p.run.tree.Has i) : p.run.tree.Within i root := by
  have hroots : p.roots = [root] := by simp [Progress.roots, h.loose, h.stack, h.labels]
  refine (Acts.shaped h.acts).within_root (fun j hj hp => ?_) hi
  rcases Acts.complete h.acts with hf | hc
  · exact absurd hf hn
  · simpa [hroots] using hc j hj hp

end Lsl
