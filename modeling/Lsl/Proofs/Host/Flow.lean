/- # Control flow in host code

The control flow of a piece of host code is a graph over places in it. A place is
what is left to run of a block and of the blocks around it, or the condition of a
loop. Every condition may turn out either way, so a loop runs any number of times,
but the body of a `do` loop at least once, and a `for` loop without a condition is
left by a jump or a return only. A jump leads to a label of its name in a block
around it.

In guarded code every label holds a checkpoint and every loop starts its body with
one. There is a rank of places that goes down with every step that does not lead to
a checkpoint: so no walk that passes none can go on forever or come back.

Key definitions: `HostPoint`, `HostPoint.Flows`, `HostPoint.In`, `HostStmt.Guarded`,
`HostPoint.rank`.
Key theorems: `HostPoint.Flows.checks_or_rank_lt`, `HostPoint.exists_checks_of_cycle`,
`HostPoint.exists_checks_of_run`.
-/
import Mathlib.Algebra.GroupWithZero.Nat
import Mathlib.Data.List.Infix
import Mathlib.Data.List.Chain
import Lsl.Proofs.Host.Spots

namespace Lsl

/-! ### The graph -/

namespace HostStmt

/-- Control may go on behind the statement without entering a block of it. -/
def passes : HostStmt → Bool
  | checkpoint | eval _ | declare .. | label .. | changeState _ => true
  | branch _ _ _ otherwise => otherwise.isNone
  | ret _ | goto _ | whileLoop .. | doWhile .. | forLoop .. | block _ => false

def loops : HostStmt → Bool
  | whileLoop .. | doWhile .. | forLoop .. => true
  | _ => false

/-- The condition is looked at before the body runs for the first time. -/
def testsFirst : HostStmt → Bool
  | whileLoop .. | forLoop .. => true
  | _ => false

/-- The condition may end the loop. -/
def ends : HostStmt → Bool
  | whileLoop .. | doWhile .. => true
  | forLoop _ cond _ _ => cond.isSome
  | _ => false

end HostStmt

/-- A block, and what is left of it. -/
structure Cursor where
  block : List HostStmt
  rest : List HostStmt

/-- A place in host code where control can be: before what is left of a block, or
before the condition of the loop that comes next there. Of every block around it the
first statement that is left is the one that control is in. -/
structure HostPoint where
  testing : Bool := false
  here : Cursor
  around : List Cursor := []

namespace HostPoint

/-- The place where a body starts. -/
def start (body : List HostStmt) : HostPoint := { here := ⟨body, body⟩ }

/-- Control goes from one place to the next. -/
inductive Flows : HostPoint → HostPoint → Prop where
  | pass (s : HostStmt) (block rest : List HostStmt) (around : List Cursor)
    (hs : s.passes = true) : Flows ⟨false, ⟨block, s :: rest⟩, around⟩ ⟨false, ⟨block, rest⟩, around⟩
  | jump (name : String) (block rest : List HostStmt) (around inner outer : List Cursor)
    (target : Cursor) (before behind : List HostStmt) (checkpoint : Bool)
    (htarget : ⟨block, .goto name :: rest⟩ :: around = inner ++ target :: outer)
    (hlabel : target.block = before ++ .label name checkpoint :: behind) :
    Flows ⟨false, ⟨block, .goto name :: rest⟩, around⟩
      ⟨false, ⟨target.block, .label name checkpoint :: behind⟩, outer⟩
  | into (s : HostStmt) (block rest body : List HostStmt) (around : List Cursor)
    (hs : s.testsFirst = false) (hbody : body ∈ s.bodies) :
    Flows ⟨false, ⟨block, s :: rest⟩, around⟩ ⟨false, ⟨body, body⟩, ⟨block, s :: rest⟩ :: around⟩
  | test (s : HostStmt) (block rest : List HostStmt) (around : List Cursor)
    (hs : s.testsFirst = true) :
    Flows ⟨false, ⟨block, s :: rest⟩, around⟩ ⟨true, ⟨block, s :: rest⟩, around⟩
  | again (s : HostStmt) (block rest body : List HostStmt) (around : List Cursor)
    (hs : s.loops = true) (hbody : body ∈ s.bodies) :
    Flows ⟨true, ⟨block, s :: rest⟩, around⟩ ⟨false, ⟨body, body⟩, ⟨block, s :: rest⟩ :: around⟩
  | leave (s : HostStmt) (block rest : List HostStmt) (around : List Cursor) (hs : s.ends = true) :
    Flows ⟨true, ⟨block, s :: rest⟩, around⟩ ⟨false, ⟨block, rest⟩, around⟩
  | back (s : HostStmt) (body block rest : List HostStmt) (around : List Cursor)
    (hs : s.loops = true) :
    Flows ⟨false, ⟨body, []⟩, ⟨block, s :: rest⟩ :: around⟩ ⟨true, ⟨block, s :: rest⟩, around⟩
  | out (s : HostStmt) (body block rest : List HostStmt) (around : List Cursor)
    (hs : s.loops = false) :
    Flows ⟨false, ⟨body, []⟩, ⟨block, s :: rest⟩ :: around⟩ ⟨false, ⟨block, rest⟩, around⟩

/-- A checkpoint is what comes next. -/
def Checks (p : HostPoint) : Prop :=
  p.testing = false ∧ ∃ s behind, p.here.rest = s :: behind
    ∧ (s = .checkpoint ∨ ∃ name, s = .label name true)

end HostPoint

/-! ### The places of a body -/

/-- Blocks that lie in each other, the outermost of them the body. -/
inductive Cursor.Nested (body : List HostStmt) : List Cursor → Prop where
  | outermost {rest : List HostStmt} (h : rest <:+ body) : Nested body [⟨body, rest⟩]
  | inside {block rest behind outer : List HostStmt} {s : HostStmt} {around : List Cursor}
    (h : rest <:+ block) (hblock : block ∈ s.bodies)
    (haround : Nested body (⟨outer, s :: behind⟩ :: around)) :
    Nested body (⟨block, rest⟩ :: ⟨outer, s :: behind⟩ :: around)

namespace Cursor.Nested

variable {body block rest rest' : List HostStmt} {around inner : List Cursor} {target : Cursor}

theorem suffix (h : Nested body (⟨block, rest⟩ :: around)) : rest <:+ block := by
  cases h with
  | outermost h => exact h
  | inside h _ _ => exact h

/-- Another place in the innermost block. -/
theorem move (h : Nested body (⟨block, rest⟩ :: around)) (hrest : rest' <:+ block) :
    Nested body (⟨block, rest'⟩ :: around) := by
  cases h with
  | outermost => exact .outermost hrest
  | inside _ hblock haround => exact .inside hrest hblock haround

theorem tail {s : HostStmt} (h : Nested body (⟨block, s :: rest⟩ :: around)) :
    Nested body (⟨block, rest⟩ :: around) :=
  h.move ((List.suffix_cons s rest).trans h.suffix)

/-- The blocks around a block. -/
theorem drop (h : Nested body (inner ++ target :: around)) : Nested body (target :: around) := by
  induction inner with
  | nil => exact h
  | cons c inner ih =>
    refine ih ?_
    cases inner with
    | nil =>
      cases h with
      | inside _ _ haround => exact haround
    | cons d inner =>
      cases h with
      | inside _ _ haround => exact haround

end Cursor.Nested

namespace HostPoint

variable {body : List HostStmt} {p q : HostPoint}

/-- The place is one of the body. -/
def In (body : List HostStmt) (p : HostPoint) : Prop := Cursor.Nested body (p.here :: p.around)

theorem start_in : (start body).In body := .outermost (List.suffix_refl body)

/-- Control stays in the body. -/
theorem Flows.stays (h : Flows p q) (hp : p.In body) : q.In body := by
  cases h with
  | pass s block rest around hs => exact hp.tail
  | jump name block rest around inner outer target before behind checkpoint htarget hlabel =>
    rw [In, htarget] at hp
    exact hp.drop.move (hlabel ▸ List.suffix_append _ _)
  | into s block rest body' around hs hbody => exact .inside (List.suffix_refl _) hbody hp
  | test s block rest around hs => exact hp
  | again s block rest body' around hs hbody => exact .inside (List.suffix_refl _) hbody hp
  | leave s block rest around hs => exact hp.tail
  | back s body' block rest around hs =>
    cases hp with
    | inside _ _ haround => exact haround
  | out s body' block rest around hs =>
    cases hp with
    | inside _ _ haround => exact haround.tail

end HostPoint

/-! ### Guarded code -/

/-- A label holds a checkpoint, and the body of a loop starts with one. -/
def HostStmt.Guards : HostStmt → Prop
  | label _ held => held = true
  | whileLoop _ body | doWhile body _ | forLoop _ _ _ body => body.head? = some .checkpoint
  | _ => True

/-- All labels and loops of the code guard it. -/
inductive HostStmt.Guarded : List HostStmt → Prop where
  | nil : Guarded []
  | cons {s : HostStmt} {rest : List HostStmt} (hs : s.Guards)
    (hbodies : ∀ body ∈ s.bodies, Guarded body) (hrest : Guarded rest) : Guarded (s :: rest)

namespace HostStmt.Guarded

variable {body code rest : List HostStmt} {s : HostStmt} {around : List Cursor} {c : Cursor}

theorem append (h : Guarded code) (hrest : Guarded rest) : Guarded (code ++ rest) := by
  induction h with
  | nil => exact hrest
  | cons hs hbodies _ _ ih => exact .cons hs hbodies ih

theorem flatten {codes : List (List HostStmt)} (h : ∀ code ∈ codes, Guarded code) :
    Guarded codes.flatten := by
  induction codes with
  | nil => exact .nil
  | cons code codes ih =>
    exact (h code List.mem_cons_self).append (ih fun c hc => h c (List.mem_cons_of_mem _ hc))

theorem of_append (h : Guarded (code ++ rest)) : Guarded rest := by
  induction code with
  | nil => exact h
  | cons s code ih =>
    cases h with
    | cons _ _ hrest => exact ih hrest

theorem of_suffix (h : Guarded code) (hs : rest <:+ code) : Guarded rest := by
  obtain ⟨before, rfl⟩ := hs
  exact h.of_append

theorem guards (h : Guarded (s :: rest)) : s.Guards := by
  cases h with
  | cons hs _ _ => exact hs

theorem bodies (h : Guarded (s :: rest)) (hb : body ∈ s.bodies) : Guarded body := by
  cases h with
  | cons _ hbodies _ => exact hbodies body hb

/-- Every block in guarded code is guarded. -/
theorem block (h : Guarded body) (hn : Cursor.Nested body (c :: around)) : Guarded c.block := by
  generalize hl : c :: around = cs at hn
  induction hn generalizing c around with
  | outermost =>
    obtain ⟨rfl, -⟩ := List.cons.inj hl
    exact h
  | inside hrest hblock haround ih =>
    obtain ⟨rfl, -⟩ := List.cons.inj hl
    exact ((ih rfl).of_suffix haround.suffix).bodies hblock

end HostStmt.Guarded

/-- The body of a loop in guarded code starts with a checkpoint. -/
theorem HostStmt.Guards.head? {s : HostStmt} {body : List HostStmt} (h : s.Guards)
    (hs : s.loops = true) (hbody : body ∈ s.bodies) : body.head? = some .checkpoint := by
  cases s with
  | whileLoop | doWhile | forLoop =>
    obtain rfl := List.mem_singleton.mp hbody
    exact h
  | _ => cases hs

/-! ### The rank of a place -/

namespace HostPoint

variable {body : List HostStmt} {p q : HostPoint}

/-- How much code is left behind the statements around a place. -/
noncomputable def rankAround (around : List Cursor) : Nat :=
  (around.map fun c => 2 * sizeOf c.rest.tail).sum

/-- A bound on the steps that control can take from a place without a checkpoint. -/
noncomputable def rank (p : HostPoint) : Nat :=
  (if p.testing then 2 * sizeOf p.here.rest.tail + 1 else 2 * sizeOf p.here.rest)
    + rankAround p.around

/-- A body that starts with a checkpoint is entered through it. -/
theorem checks_of_head? {code : List HostStmt} {around : List Cursor}
    (h : code.head? = some .checkpoint) : Checks ⟨false, ⟨code, code⟩, around⟩ := by
  obtain ⟨behind, hcode⟩ := List.head?_eq_some_iff.mp h
  exact ⟨rfl, _, behind, hcode, .inl rfl⟩

/-- **Every step leads to a checkpoint or down.** -/
theorem Flows.checks_or_rank_lt (h : Flows p q) (hp : p.In body)
    (hg : HostStmt.Guarded body) : q.Checks ∨ q.rank < p.rank := by
  have hblock := hg.block hp
  cases h with
  | pass s block rest around hs =>
    right
    simp only [rank, Bool.false_eq_true, ↓reduceIte, List.cons.sizeOf_spec]
    omega
  | jump name block rest around inner outer target before behind checkpoint htarget hlabel =>
    rw [In, htarget] at hp
    have hguards := ((hlabel ▸ hg.block hp.drop).of_append).guards
    exact .inl ⟨rfl, _, behind, rfl, .inr ⟨name, congrArg _ hguards⟩⟩
  | into s block rest body' around hs hbody =>
    right
    have hsize := HostStmt.sizeOf_bodies hbody
    simp only [rank, rankAround, Bool.false_eq_true, ↓reduceIte, List.cons.sizeOf_spec,
      List.map_cons, List.sum_cons, List.tail_cons]
    omega
  | test s block rest around hs =>
    right
    simp only [rank, Bool.false_eq_true, ↓reduceIte, List.cons.sizeOf_spec, List.tail_cons]
    omega
  | again s block rest body' around hs hbody =>
    exact .inl (checks_of_head? ((hblock.of_suffix hp.suffix).guards.head? hs hbody))
  | leave s block rest around hs =>
    right
    simp only [rank, Bool.false_eq_true, ↓reduceIte, List.tail_cons]
    omega
  | back s body' block rest around hs | out s body' block rest around hs =>
    right
    simp only [rank, rankAround, Bool.false_eq_true, ↓reduceIte, List.map_cons, List.sum_cons,
      List.tail_cons, List.nil.sizeOf_spec]
    omega

/-! ### Walks -/

/-- Along a walk without checkpoints the rank goes down. -/
theorem rank_lt_of_walk (hg : HostStmt.Guarded body) {path : List HostPoint} (hp : p.In body)
    (hpath : List.IsChain Flows (p :: path ++ [q])) (hno : ∀ r ∈ path ++ [q], ¬ r.Checks) :
    q.rank < p.rank := by
  induction path generalizing p with
  | nil =>
    have hstep := List.isChain_pair.mp hpath
    exact (hstep.checks_or_rank_lt hp hg).resolve_left (hno q List.mem_cons_self)
  | cons r path ih =>
    obtain ⟨hstep, hrest⟩ := List.isChain_cons_cons.mp hpath
    have hlt := (hstep.checks_or_rank_lt hp hg).resolve_left (hno r List.mem_cons_self)
    exact Nat.lt_trans (ih (hstep.stays hp) hrest fun x hx => hno x (List.mem_cons_of_mem _ hx)) hlt

/-- **A walk that comes back passes a checkpoint.** -/
theorem exists_checks_of_cycle (hg : HostStmt.Guarded body) {path : List HostPoint}
    (hp : p.In body) (hpath : List.IsChain Flows (p :: path ++ [p])) :
    ∃ q ∈ p :: path, q.Checks := by
  by_contra hno
  refine Nat.lt_irrefl p.rank (rank_lt_of_walk hg hp hpath fun q hq hc => hno ⟨q, ?_, hc⟩)
  rcases List.mem_append.mp hq with hq | hq
  · exact List.mem_cons_of_mem _ hq
  · exact List.mem_singleton.mp hq ▸ List.mem_cons_self

/-- A walk stays in the body. -/
theorem in_of_path {path : List HostPoint} (hp : p.In body) (hpath : List.IsChain Flows (p :: path)) :
    ∀ q ∈ p :: path, q.In body := by
  induction path generalizing p with
  | nil =>
    intro q hq
    exact List.mem_singleton.mp hq ▸ hp
  | cons r path ih =>
    obtain ⟨hstep, hrest⟩ := List.isChain_cons_cons.mp hpath
    intro q hq
    rcases List.mem_cons.mp hq with rfl | hq
    · exact hp
    · exact ih (hstep.stays hp) hrest q hq

theorem in_of_run {run : Nat → HostPoint} (h0 : (run 0).In body)
    (hrun : ∀ n, Flows (run n) (run (n + 1))) : ∀ n, (run n).In body
  | 0 => h0
  | n + 1 => (hrun n).stays (in_of_run h0 hrun n)

/-- **A walk that never ends passes checkpoints again and again.** -/
theorem exists_checks_of_run (hg : HostStmt.Guarded body) {run : Nat → HostPoint}
    (h0 : (run 0).In body) (hrun : ∀ n, Flows (run n) (run (n + 1))) (n : Nat) :
    ∃ k, n ≤ k ∧ (run k).Checks := by
  by_contra hno
  have hlt : ∀ k, (run (n + k + 1)).rank < (run (n + k)).rank := fun k =>
    ((hrun _).checks_or_rank_lt (in_of_run h0 hrun _) hg).resolve_left fun hc =>
      hno ⟨n + k + 1, by omega, hc⟩
  have hdown : ∀ k, (run (n + k)).rank + k ≤ (run n).rank := by
    intro k
    induction k with
    | zero => exact Nat.le_refl _
    | succ k ih =>
      have := hlt k
      simp only [← Nat.add_assoc]
      omega
  have := hdown ((run n).rank + 1)
  omega

/-- A loop without a checkpoint is a cycle that passes none. -/
example (cond : HostExpr) : List.IsChain Flows
    [⟨true, ⟨[], [.whileLoop cond []]⟩, []⟩, ⟨false, ⟨[], []⟩, [⟨[], [.whileLoop cond []]⟩]⟩,
      ⟨true, ⟨[], [.whileLoop cond []]⟩, []⟩] :=
  .cons_cons (.again _ _ _ _ _ rfl List.mem_cons_self) (.cons_cons (.back _ _ _ _ _ rfl) (.singleton _))

end HostPoint

end Lsl
