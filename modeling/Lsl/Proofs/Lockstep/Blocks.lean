/- # Declarations in another order

A declaration takes a block of consecutive numbers: a function one for each
parameter and one for itself, a state one. Writing the declarations in another
order moves the blocks and leaves each in one piece.

Key definitions: `Decl`, `Decl.placed`, `Decl.Renumbers`.
Key theorems: `Decl.exists_renumbers`, `Decl.placed_cover`, `Decl.placed_pairwise`.
-/
import Lsl.Script.Basic
import Mathlib.Algebra.GroupWithZero.Nat
import Mathlib.Data.List.Perm.Basic
import Mathlib.Logic.Function.Basic

namespace Lsl

/-- What is declared ahead of the globals. -/
inductive Decl where
  | function (d : FunctionDecl)
  | state (d : StateDecl) (isDefault : Bool)

namespace Decl

/-- How many nodes the declaration becomes. -/
def width : Decl → Nat
  | function d => d.params.length + 1
  | state .. => 1

theorem width_pos (x : Decl) : 0 < x.width := by
  cases x <;> simp [width]

def total (xs : List Decl) : Nat := (xs.map width).sum

@[simp] theorem total_nil : total [] = 0 := rfl

@[simp] theorem total_cons (x : Decl) (xs : List Decl) : total (x :: xs) = x.width + total xs := rfl

@[simp] theorem total_append (xs ys : List Decl) : total (xs ++ ys) = total xs + total ys := by
  simp [total]

/-- The declarations with the numbers of their first nodes. -/
def placed : Nat → List Decl → List (Decl × Nat)
  | _, [] => []
  | start, x :: rest => (x, start) :: placed (start + x.width) rest

theorem placed_append (start : Nat) (xs ys : List Decl) :
    placed start (xs ++ ys) = placed start xs ++ placed (start + total xs) ys := by
  induction xs generalizing start with
  | nil => rfl
  | cons x rest ih => rw [List.cons_append, placed, ih, placed, total_cons, Nat.add_assoc]; rfl

theorem placed_bounds (start : Nat) (xs : List Decl) :
    ∀ x ∈ placed start xs, start ≤ x.2 ∧ x.2 + x.1.width ≤ start + total xs := by
  induction xs generalizing start with
  | nil => simp [placed]
  | cons x rest ih =>
    rw [placed, List.forall_mem_cons, total_cons]
    refine ⟨⟨Nat.le_refl _, ?_⟩, fun y hy => ?_⟩
    · change start + x.width ≤ _
      omega
    · have := ih (start + x.width) y hy
      omega

/-- The blocks stand one behind the other. -/
theorem placed_pairwise (start : Nat) (xs : List Decl) :
    (placed start xs).Pairwise fun x y => x.2 + x.1.width ≤ y.2 := by
  induction xs generalizing start with
  | nil => exact .nil
  | cons x rest ih => exact .cons (fun y hy => (placed_bounds _ rest y hy).1) (ih _)

/-- Every number up to the end is in a block. -/
theorem placed_cover {start : Nat} {xs : List Decl} {i : Nat} (hi : start ≤ i)
    (hlt : i < start + total xs) : ∃ x ∈ placed start xs, ∃ j < x.1.width, i = x.2 + j := by
  induction xs generalizing start with
  | nil =>
    rw [total_nil] at hlt
    omega
  | cons x rest ih =>
    rw [total_cons] at hlt
    rcases Nat.lt_or_ge i (start + x.width) with hx | hx
    · exact ⟨(x, start), List.mem_cons_self, i - start, Nat.sub_lt_left_of_lt_add hi hx,
        (Nat.add_sub_cancel' hi).symm⟩
    · obtain ⟨y, hy, hj⟩ := ih hx (by omega)
      exact ⟨y, List.mem_cons_of_mem _ hy, hj⟩

/-- The numbers that the nodes get when the declarations are made in another order. -/
structure Renumbers (g : Nat → Nat) (start : Nat) (xs ys : List Decl) : Prop where
  inj : Function.Injective g
  before : ∀ i, i < start → g i = i
  behind : ∀ i, start + total xs ≤ i → g i = i
  along : ∀ x ∈ placed start xs, ∀ j < x.1.width, g (x.2 + j) = g x.2 + j
  perm : (placed start ys).Perm ((placed start xs).map fun x => (x.1, g x.2))

/-- The numbers of all declarations together stay the same. -/
theorem Renumbers.lt {g : Nat → Nat} {start : Nat} {xs ys : List Decl} (h : Renumbers g start xs ys)
    {i : Nat} (hi : i < start + total xs) : g i < start + total xs := by
  rcases Nat.lt_or_ge (g i) (start + total xs) with hlt | hge
  · exact hlt
  · have := h.inj (h.behind (g i) hge)
    omega

/-- Changes the places of two blocks. -/
def swapBlocks (start first second i : Nat) : Nat :=
  if i < start then i
  else if i < start + first then i + second
  else if i < start + first + second then i - first
  else i

theorem renumbers_swap (start : Nat) (x y : Decl) (rest : List Decl) :
    Renumbers (swapBlocks start x.width y.width) start (x :: y :: rest) (y :: x :: rest) := by
  have hx := x.width_pos
  have hy := y.width_pos
  have hrest : ∀ z ∈ placed (start + x.width + y.width) rest, ∀ j,
      swapBlocks start x.width y.width (z.2 + j) = z.2 + j := by
    intro z hz j
    have := (placed_bounds _ rest z hz).1
    grind [swapBlocks]
  have hfirst : ∀ j < x.width, swapBlocks start x.width y.width (start + j) = start + y.width + j := by
    grind [swapBlocks]
  have hsecond : ∀ j < y.width, swapBlocks start x.width y.width (start + x.width + j) = start + j := by
    grind [swapBlocks]
  constructor
  case inj =>
    intro i j heq
    grind [swapBlocks]
  case before => grind [swapBlocks]
  case behind =>
    simp only [total_cons]
    grind [swapBlocks]
  case along =>
    rw [placed, placed, List.forall_mem_cons, List.forall_mem_cons]
    have hfirst₀ := hfirst 0 hx
    have hsecond₀ := hsecond 0 hy
    rw [Nat.add_zero, Nat.add_zero] at hfirst₀ hsecond₀
    refine ⟨fun j hj => ?_, fun j hj => ?_, fun z hz j _ => ?_⟩
    · rw [hfirst j hj, hfirst₀]
    · rw [hsecond j hj, hsecond₀]
    · rw [hrest z hz j, show swapBlocks start x.width y.width z.2 = z.2 from hrest z hz 0]
  case perm =>
    have hsame : (placed (start + x.width + y.width) rest).map
        (fun z => (z.1, swapBlocks start x.width y.width z.2))
          = placed (start + x.width + y.width) rest := by
      conv_rhs => rw [← List.map_id (placed (start + x.width + y.width) rest)]
      exact List.map_congr_left fun z hz => Prod.ext rfl (hrest z hz 0)
    simp only [placed, List.map_cons]
    rw [hsame, show swapBlocks start x.width y.width start = start + y.width from hfirst 0 hx,
      show swapBlocks start x.width y.width (start + x.width) = start from hsecond 0 hy,
      Nat.add_right_comm start y.width]
    exact .swap _ _ _

/-- **Declarations in another order have other numbers**, each block in one piece. -/
theorem exists_renumbers {xs ys : List Decl} (h : xs.Perm ys) (start : Nat) :
    ∃ g, Renumbers g start xs ys := by
  induction h generalizing start with
  | nil => exact ⟨id, Function.injective_id, fun _ _ => rfl, fun _ _ => rfl, by simp [placed],
      by simp [placed]⟩
  | @cons x xs ys hperm ih =>
    -- the numbers of the first block come before those that change
    obtain ⟨g, hg⟩ := ih (start + x.width)
    have hfirst : ∀ j < x.width, g (start + j) = start + j := fun j hj => hg.before _ (by omega)
    have hstart : g start = start := hfirst 0 x.width_pos
    refine ⟨g, hg.inj, fun i hi => hg.before i (by omega), fun i hi => hg.behind i ?_, ?_, ?_⟩
    · rw [total_cons] at hi
      omega
    · rw [placed, List.forall_mem_cons]
      exact ⟨fun j hj => by rw [hfirst j hj, hstart], hg.along⟩
    · rw [placed, placed, List.map_cons, hstart]
      exact hg.perm.cons _
  | swap x y rest => exact ⟨_, renumbers_swap start y x rest⟩
  | @trans xs ys zs hxy _ ih₁ ih₂ =>
    obtain ⟨g₁, hg₁⟩ := ih₁ start
    obtain ⟨g₂, hg₂⟩ := ih₂ start
    have htotal : total ys = total xs := (hxy.map width).sum_nat.symm
    refine ⟨g₂ ∘ g₁, hg₂.inj.comp hg₁.inj, fun i hi => ?_, fun i hi => ?_, fun x hx j hj => ?_, ?_⟩
    · rw [Function.comp_apply, hg₁.before i hi, hg₂.before i hi]
    · rw [Function.comp_apply, hg₁.behind i hi, hg₂.behind i (htotal ▸ hi)]
    · have hmem : (x.1, g₁ x.2) ∈ placed start ys :=
        hg₁.perm.mem_iff.mpr (List.mem_map_of_mem (f := fun x : Decl × Nat => (x.1, g₁ x.2)) hx)
      rw [Function.comp_apply, hg₁.along x hx j hj, hg₂.along _ hmem j hj, Function.comp_apply]
    · refine hg₂.perm.trans ?_
      have := hg₁.perm.map fun x => (x.1, g₂ x.2)
      rwa [List.map_map] at this

end Decl

end Lsl
