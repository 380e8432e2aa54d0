/- # What steps of the generator give

A step that succeeds gives code, whatever was called before it, and what it gives
is taken apart along the steps that it is made of. The operations it takes up
are those of the code it gives: this is carried through a sequence of steps by
naming what has been taken up so far.

Key definitions: `Generator.Gives`, `Generator.Succeeds`, `Generator.Collects`, `Generator.Ends`.
Key theorems: `Generator.Gives.bind`, `Generator.Gives.mapM`, `Generator.Collects.bind`,
`Generator.Collects.mapM`.
-/
import Lsl.Generate.Error
import Mathlib.Data.List.Forall2

namespace Lsl

namespace Generator

variable {α β : Type} {x : Generator α} {f : α → Generator β}

/-! ### Results -/

/-- The step has this result. -/
def Gives (x : Generator α) (a : α) : Prop := ∃ called called', x called = .ok (a, called')

theorem Gives.bind {b : β} (h : (x >>= f).Gives b) : ∃ a, x.Gives a ∧ (f a).Gives b := by
  obtain ⟨called, called', h⟩ := h
  cases hx : x called with
  | error e => simp [Bind.bind, StateT.bind, hx, Except.bind] at h
  | ok p =>
    refine ⟨p.1, ⟨called, p.2, hx⟩, p.2, called', ?_⟩
    simpa [Bind.bind, StateT.bind, hx, Except.bind] using h

theorem Gives.pure {a b : α} (h : (Pure.pure a : Generator α).Gives b) : a = b := by
  obtain ⟨_, _, h⟩ := h
  exact congrArg Prod.fst (Except.ok.inj h)

theorem not_gives_throw {e : GenerateError} {a : α} : ¬ (throw e : Generator α).Gives a := by
  rintro ⟨_, _, h⟩
  cases h

/-- The results of a list of steps, one by one. -/
theorem Gives.mapM {l : List α} {bs : List β} (h : (l.mapM f).Gives bs) :
    List.Forall₂ (fun a b => (f a).Gives b) l bs := by
  induction l generalizing bs with
  | nil =>
    obtain rfl := h.pure
    exact .nil
  | cons a rest ih =>
    rw [List.mapM_cons] at h
    obtain ⟨b, hb, h⟩ := h.bind
    obtain ⟨bs', hbs, h⟩ := h.bind
    obtain rfl := h.pure
    exact .cons hb (ih hbs)

/-- Every result of a list of steps is the result of one of them. -/
theorem Gives.mem_mapM {l : List α} {bs : List β} (h : (l.mapM f).Gives bs) :
    ∀ b ∈ bs, ∃ a ∈ l, (f a).Gives b := by
  have hall := h.mapM
  clear h
  induction hall with
  | nil => simp
  | cons hone _ ih =>
    intro b hb
    rcases List.mem_cons.mp hb with rfl | hb
    · exact ⟨_, List.mem_cons_self, hone⟩
    · obtain ⟨a, ha, hab⟩ := ih b hb
      exact ⟨a, List.mem_cons_of_mem _ ha, hab⟩

theorem Gives.expect {found : Option α} {id : NodeId} {expected : String} {a : α}
    (h : (Generator.expect found id expected).Gives a) : found = some a := by
  cases found with
  | none => exact absurd h not_gives_throw
  | some b => exact congrArg some h.pure

/-! ### Steps that succeed -/

/-- The step gives a result, whatever was called before it. -/
def Succeeds (x : Generator α) : Prop := ∀ called, ∃ a called', x called = .ok (a, called')

theorem Succeeds.pure (a : α) : (Pure.pure a : Generator α).Succeeds := fun called => ⟨a, called, rfl⟩

theorem Succeeds.bind (hx : x.Succeeds) (hf : ∀ a, x.Gives a → (f a).Succeeds) :
    (x >>= f).Succeeds := by
  intro called
  obtain ⟨a, called', h⟩ := hx called
  obtain ⟨b, called'', h'⟩ := hf a ⟨called, called', h⟩ called'
  exact ⟨b, called'', by simp [Bind.bind, StateT.bind, h, Except.bind, h']⟩

/-- A step of which only the result is used. -/
theorem Succeeds.then (hx : x.Succeeds) (hf : ∀ a, (f a).Succeeds) : (x >>= f).Succeeds :=
  hx.bind fun a _ => hf a

theorem Succeeds.mapM {l : List α} (h : ∀ a ∈ l, (f a).Succeeds) : (l.mapM f).Succeeds := by
  induction l with
  | nil => exact .pure _
  | cons a rest ih =>
    rw [List.mapM_cons]
    refine (h a List.mem_cons_self).then fun b => ?_
    refine (ih fun x hx => h x (List.mem_cons_of_mem _ hx)).then fun bs => ?_
    exact .pure _

theorem Succeeds.expect {found : Option α} {a : α} (h : found = some a) (id : NodeId)
    (expected : String) : (Generator.expect found id expected).Succeeds := by
  rw [h]
  exact .pure a

theorem Succeeds.call (o : Operation) : (Generator.call o).Succeeds := fun called =>
  ⟨(), Operation.takeUp called o, rfl⟩

theorem Succeeds.get : (MonadState.get : Generator (List Operation)).Succeeds := fun called =>
  ⟨called, called, rfl⟩

/-! ### Operations that are taken up -/

/-- Going on from these operations, the step takes up others, and all of them
together are those that its result calls. -/
def CollectsAfter (taken : List Operation) (x : Generator α) (calls : α → List Operation) : Prop :=
  ∀ called a called', x (taken.foldl Operation.takeUp called) = .ok (a, called') →
    called' = (calls a).foldl Operation.takeUp called

/-- The step takes up the operations that its result calls, in their order. -/
def Collects (x : Generator α) (calls : α → List Operation) : Prop := CollectsAfter [] x calls

variable {calls : α → List Operation} {calls' : β → List Operation} {taken : List Operation}

theorem CollectsAfter.pure {a : α} (h : calls a = taken) :
    CollectsAfter taken (Pure.pure a) calls := by
  rintro called b called' hb
  cases hb
  rw [h]

theorem CollectsAfter.bind (hx : x.Collects calls)
    (hf : ∀ a, CollectsAfter (taken ++ calls a) (f a) calls') :
    CollectsAfter taken (x >>= f) calls' := by
  intro called b called' h
  cases hstep : x (taken.foldl Operation.takeUp called) with
  | error e => simp [Bind.bind, StateT.bind, hstep, Except.bind] at h
  | ok p =>
    have hp := hx _ p.1 p.2 hstep
    refine hf p.1 called b called' ?_
    rw [List.foldl_append, ← hp]
    simpa [Bind.bind, StateT.bind, hstep, Except.bind] using h

theorem CollectsAfter.call {o : Operation} {g : Unit → Generator β}
    (h : CollectsAfter (taken ++ [o]) (g ()) calls') :
    CollectsAfter taken (Generator.call o >>= g) calls' := by
  have hone : (Generator.call o).Collects fun _ => [o] := by
    rintro called a called' ⟨⟩
    rfl
  exact .bind hone fun _ => h

theorem CollectsAfter.throw {e : GenerateError} : CollectsAfter taken (throw e) calls := by
  rintro called a called' h
  cases h

/-- A lookup takes up nothing. -/
theorem Collects.lookup {found : Option α} {id : NodeId} {expected : String} :
    (Generator.expect found id expected).Collects fun _ => [] := by
  cases found with
  | none => exact .throw
  | some a => exact .pure rfl

theorem CollectsAfter.expect {found : Option α} {id : NodeId} {expected : String}
    {g : α → Generator β} (h : ∀ a, found = some a → CollectsAfter taken (g a) calls') :
    CollectsAfter taken (Generator.expect found id expected >>= g) calls' := by
  cases found with
  | none => exact .throw
  | some a => exact h a rfl

/-- Steps one after the other take up what their results call, in their order. -/
theorem Collects.mapM {calls : β → List Operation} (h : ∀ a, (f a).Collects calls) (l : List α) :
    (l.mapM f).Collects (·.flatMap calls) := by
  induction l with
  | nil => exact .pure rfl
  | cons a rest ih =>
    rw [List.mapM_cons]
    exact .bind (h a) fun b => .bind ih fun bs => .pure (by simp)

/-- Steps that take up nothing. -/
theorem Collects.mapM_nil (h : ∀ a, (f a).Collects fun _ => []) (l : List α) :
    (l.mapM f).Collects fun _ => [] := by
  intro called bs called' hbs
  have hnone : (bs.flatMap fun _ => ([] : List Operation)) = [] :=
    List.flatMap_eq_nil_iff.mpr fun _ _ => rfl
  exact (Collects.mapM h l called bs called' hbs).trans (congrArg _ hnone)

/-- A look at the operations takes up nothing. -/
theorem CollectsAfter.get {g : List Operation → Generator β}
    (h : ∀ seen, CollectsAfter taken (g seen) calls') :
    CollectsAfter taken (MonadState.get >>= g) calls' := fun called b called' hb =>
  h _ called b called' hb

/-- Where the step ends, its result and the operations called so far are related. -/
def Ends (x : Generator α) (P : α → List Operation → Prop) : Prop :=
  ∀ called a called', x called = .ok (a, called') → P a called'

variable {P : β → List Operation → Prop}

theorem Ends.bind (h : ∀ a, (f a).Ends P) : (x >>= f).Ends P := by
  intro called b called' hb
  cases hx : x called with
  | error e => simp [Bind.bind, StateT.bind, hx, Except.bind] at hb
  | ok p =>
    refine h p.1 p.2 b called' ?_
    simpa [Bind.bind, StateT.bind, hx, Except.bind] using hb

theorem Ends.throw {e : GenerateError} : (throw e : Generator β).Ends P := by
  intro called a called' h
  cases h

theorem Ends.get {g : List Operation → β} (h : ∀ called, P (g called) called) :
    Ends (MonadState.get >>= fun called => Pure.pure (g called)) P := by
  intro called b called' hb
  cases hb
  exact h called

end Generator

end Lsl
