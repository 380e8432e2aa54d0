/- # Steps side by side

Two runs are in step if their trees are twins and they have said the same since
they are compared; inside a body they also have the same scopes open, with the
same local variables and the same labels ahead. A step on either side keeps
them in step if both make the same nodes, say the same and go on alike.

Key definitions: `Run.Around`, `Run.Twin`, `Check.Sim`, `CheckBody.Sim`.
Key theorems: `Check.Sim.bind`, `Check.Sim.alloc`, `Check.Sim.faultAt`, `CheckBody.Sim.bind`.
-/
import Lsl.Proofs.Lockstep.Twins

namespace Lsl

variable {F : Pairing} {inside inner : Bool} {run run' : Run} {α β γ δ : Type}

/-! ### Runs in step -/

/-- Open scopes whose local variables have other numbers. -/
def ScopeStack.rename (f : NodeId → NodeId) (s : ScopeStack) : ScopeStack :=
  ⟨s.frames.map fun fr => { fr with locals := fr.locals.map fun x => (x.1, f x.2) }⟩

/-- The runs are at the same place of a body. -/
structure Run.Around (F : Pairing) (run run' : Run) : Prop where
  scopes : run'.scopes = run.scopes.rename F.map
  locals : ∀ fr ∈ run.scopes.frames, ∀ x ∈ fr.locals, F.At run.tree.size x.2
  labels : run'.labels = run.labels.map F.map
  ahead : ∀ l ∈ run.labels, F.At run.tree.size l
  lastScope : run'.lastScope = run.lastScope

/-- Two runs in step. The flag tells that they are inside a body. -/
structure Run.Twin (F : Pairing) (inside : Bool) (run run' : Run) : Prop where
  tree : run.tree.Twin F run'.tree
  told : ∃ ns, run.notices = F.start.notices ++ ns ∧ run'.notices = F.start'.notices ++ ns
  around : inside = true → Run.Around F run run'

/-- A node that both runs made. -/
def Pairing.Made (F : Pairing) (n : Nat) (a a' : NodeId) : Prop := a' = F.map a ∧ F.At n a

namespace Run.Twin

/-- A larger tree on both sides. -/
theorem withTree {t t' : Tree} (h : run.Twin F inside run') (ht : t.Twin F t')
    (hsize : run.tree.size ≤ t.size) :
    Run.Twin F inside { run with tree := t } { run' with tree := t' } where
  tree := ht
  told := h.told
  around hi :=
    let a := h.around hi
    { a with
      locals := fun fr hfr x hx => (a.locals fr hfr x hx).mono hsize
      ahead := fun l hl => (a.ahead l hl).mono hsize }

/-- The same notices on both sides. -/
theorem say (h : run.Twin F inside run') (more : List Notice) :
    Run.Twin F inside { run with notices := run.notices ++ more }
      { run' with notices := run'.notices ++ more } where
  tree := h.tree
  told := by
    obtain ⟨ns, hns, hns'⟩ := h.told
    exact ⟨ns ++ more, by rw [hns, List.append_assoc], by rw [hns', List.append_assoc]⟩
  around hi := { h.around hi with }

end Run.Twin

/-! ### Steps that cannot fail -/

/-- Steps that keep two runs in step and give results that belong together. -/
structure Check.Sim (F : Pairing) (inside : Bool) (run run' : Run) (x : Check α) (x' : Check β)
    (V : Nat → α → β → Prop) : Prop where
  twin : (x run).2.Twin F inside (x' run').2
  grows : run.tree.size ≤ (x run).2.tree.size
  value : V (x run).2.tree.size (x run).1 (x' run').1

namespace Check.Sim

variable {V : Nat → α → β → Prop} {W : Nat → γ → δ → Prop}

theorem pure {a : α} {a' : β} (h : run.Twin F inside run') (hv : V run.tree.size a a') :
    Sim F inside run run' (Pure.pure a) (Pure.pure a') V := ⟨h, Nat.le_refl _, hv⟩

theorem bind {x : Check α} {x' : Check β} {f : α → Check γ} {f' : β → Check δ}
    (hx : Sim F inner run run' x x' V)
    (hf : ∀ a a' r r', r.Twin F inner r' → run.tree.size ≤ r.tree.size → V r.tree.size a a' →
      Sim F inside r r' (f a) (f' a') W) :
    Sim F inside run run' (x >>= f) (x' >>= f') W := by
  obtain ⟨htwin, hgrows, hvalue⟩ := hf _ _ _ _ hx.twin hx.grows hx.value
  exact ⟨htwin, Nat.le_trans hx.grows hgrows, hvalue⟩

theorem ite {c c' : Prop} [Decidable c] [Decidable c'] {x y : Check α} {x' y' : Check β}
    (hc : c' ↔ c) (hx : c → Sim F inside run run' x x' V) (hy : ¬ c → Sim F inside run run' y y' V) :
    Sim F inside run run' (if c then x else y) (if c' then x' else y') V := by
  by_cases h : c
  · rw [if_pos h, if_pos (hc.mpr h)]
    exact hx h
  · rw [if_neg h, if_neg fun h' => h (hc.mp h')]
    exact hy h

/-- A step that is made under a condition, with what follows it. -/
theorem when {c c' : Prop} [Decidable c] [Decidable c'] {x x' : Check Unit}
    {f : Unit → Check α} {f' : Unit → Check β} (hc : c' ↔ c) (h : run.Twin F inside run')
    (hx : c → Sim F inside run run' x x' fun _ _ _ => True)
    (hf : ∀ r r', r.Twin F inside r' → run.tree.size ≤ r.tree.size →
      Sim F inside r r' (f ()) (f' ()) V) :
    Sim F inside run run' (if c then x >>= f else f ()) (if c' then x' >>= f' else f' ()) V :=
  .ite hc (fun hc => .bind (hx hc) fun _ _ r r' hr hg _ => hf r r' hr hg)
    fun _ => hf run run' h (Nat.le_refl _)

theorem tree {f : Tree → Check α} {f' : Tree → Check β}
    (hf : Sim F inside run run' (f run.tree) (f' run'.tree) V) :
    Sim F inside run run' (Check.tree >>= f) (Check.tree >>= f') V := ⟨hf.twin, hf.grows, hf.value⟩

theorem get {f : Run → Check α} {f' : Run → Check β} (hf : Sim F inside run run' (f run) (f' run') V) :
    Sim F inside run run' (MonadState.get >>= f) (MonadState.get >>= f') V :=
  ⟨hf.twin, hf.grows, hf.value⟩

theorem set {r r' : Run} {f : PUnit → Check α} {f' : PUnit → Check β}
    (hf : Sim F inside r r' (f ⟨⟩) (f' ⟨⟩) V) (hle : run.tree.size ≤ r.tree.size) :
    Sim F inside run run' (MonadStateOf.set r >>= f) (MonadStateOf.set r' >>= f') V :=
  ⟨hf.twin, Nat.le_trans hle hf.grows, hf.value⟩

theorem forM {xs : List γ} {g : γ → δ} {f : γ → Check PUnit} {f' : δ → Check PUnit}
    (h : run.Twin F inside run')
    (hf : ∀ x ∈ xs, ∀ r r', r.Twin F inside r' → run.tree.size ≤ r.tree.size →
      Sim F inside r r' (f x) (f' (g x)) fun _ _ _ => True) :
    Sim F inside run run' (xs.forM f) ((xs.map g).forM f') fun _ _ _ => True := by
  induction xs generalizing run run' with
  | nil => exact .pure h trivial
  | cons x rest ih =>
    refine .bind (hf x List.mem_cons_self run run' h (Nat.le_refl _)) fun _ _ r r' hr hg _ => ?_
    exact ih hr fun y hy s s' hs hle =>
      hf y (List.mem_cons_of_mem _ hy) s s' hs (Nat.le_trans hg hle)

/-- The same list on both sides. -/
theorem forMSame {xs : List γ} {f f' : γ → Check PUnit} (h : run.Twin F inside run')
    (hf : ∀ x ∈ xs, ∀ r r', r.Twin F inside r' → run.tree.size ≤ r.tree.size →
      Sim F inside r r' (f x) (f' x) fun _ _ _ => True) :
    Sim F inside run run' (xs.forM f) (xs.forM f') fun _ _ _ => True := by
  have hsame : Sim F inside run run' (xs.forM f) ((xs.map id).forM f') _ := forM h hf
  rwa [List.map_id] at hsame

theorem optionForM {found : Option γ} {g : γ → δ} {f : γ → Check PUnit} {f' : δ → Check PUnit}
    (h : run.Twin F inside run')
    (hf : ∀ x ∈ found, Sim F inside run run' (f x) (f' (g x)) fun _ _ _ => True) :
    Sim F inside run run' (found.forM f) ((found.map g).forM f') fun _ _ _ => True := by
  cases found with
  | none => exact .pure h trivial
  | some x => exact hf x rfl

/-- The same option on both sides. -/
theorem optionForMSame {found : Option γ} {f f' : γ → Check PUnit} (h : run.Twin F inside run')
    (hf : ∀ x ∈ found, Sim F inside run run' (f x) (f' x) fun _ _ _ => True) :
    Sim F inside run run' (found.forM f) (found.forM f') fun _ _ _ => True := by
  have hsame : Sim F inside run run' (found.forM f) ((found.map id).forM f') _ :=
    optionForM h hf
  rwa [Option.map_id] at hsame

theorem modifyTree {f f' : Tree → Tree} (h : run.Twin F inside run')
    (ht : (f run.tree).Twin F (f' run'.tree)) (hsize : (f run.tree).size = run.tree.size) :
    Sim F inside run run' (Check.modifyTree f) (Check.modifyTree f') fun _ _ _ => True :=
  ⟨h.withTree ht (Nat.le_of_eq hsize.symm), Nat.le_of_eq hsize.symm, trivial⟩

theorem alloc (h : run.Twin F inside run') (kind : NodeKind) (span : Span)
    (hm : ∀ c ∈ kind.mentions, F.At run.tree.size c) :
    Sim F inside run run' (Check.alloc kind span) (Check.alloc (kind.rename F.map) span) F.Made := by
  have hle : run.tree.size ≤ (run.tree.alloc kind span).1.size := by
    rw [Tree.size_alloc]
    exact Nat.le_succ _
  exact ⟨h.withTree (h.tree.alloc kind span hm) hle, hle, h.tree.map_size.symm,
    h.tree.at_size kind span⟩

theorem allocError (h : run.Twin F inside run') (span : Span) :
    Sim F inside run run' (Check.allocError span) (Check.allocError span) F.Made := by
  have hsize := Tree.size_allocError (t := run.tree) span
  have hle : run.tree.size ≤ (run.tree.allocError span).1.size := by omega
  refine ⟨h.withTree (h.tree.allocError span) hle, hle, h.tree.map_size.symm, h.tree.own_size, ?_⟩
  change run.tree.size < (run.tree.allocError span).1.size
  omega

theorem report (h : run.Twin F inside run') (n : Notice) :
    Sim F inside run run' (Check.report n) (Check.report n) fun _ _ _ => True :=
  ⟨h.say [n], Nat.le_refl _, trivial⟩

theorem fault (h : run.Twin F inside run') (kind : Fault) (span : Span) :
    Sim F inside run run' (Check.fault kind span) (Check.fault kind span) fun _ _ _ => True :=
  report h _

theorem warn (h : run.Twin F inside run') (kind : Warning) (span : Span) :
    Sim F inside run run' (Check.warn kind span) (Check.warn kind span) fun _ _ _ => True :=
  report h _

theorem markError {id : NodeId} (h : run.Twin F inside run') (hid : F.At run.tree.size id) :
    Sim F inside run run' (Check.modifyTree (·.markError id))
      (Check.modifyTree (·.markError (F.map id))) fun _ _ _ => True :=
  modifyTree h (h.tree.markError hid) Tree.size_markError

theorem faultAt {id : NodeId} (h : run.Twin F inside run') (hid : F.At run.tree.size id)
    (kind : Fault) (span : Span) :
    Sim F inside run run' (Check.faultAt id kind span) (Check.faultAt (F.map id) kind span)
      fun _ _ _ => True :=
  .bind (markError h hid) fun _ _ _ _ hr _ _ => fault hr kind span

end Check.Sim

/-! ### Steps that can fail -/

/-- Steps that keep two runs in step if both succeed. -/
def CheckBody.Sim (F : Pairing) (inside : Bool) (run run' : Run) (x : CheckBody α)
    (x' : CheckBody β) (V : Nat → α → β → Prop) : Prop :=
  ∀ a r a' r', x run = .ok (a, r) → x' run' = .ok (a', r') →
    r.Twin F inside r' ∧ run.tree.size ≤ r.tree.size ∧ V r.tree.size a a'

namespace CheckBody.Sim

variable {V : Nat → α → β → Prop} {W : Nat → γ → δ → Prop}

theorem pure {a : α} {a' : β} (h : run.Twin F inside run') (hv : V run.tree.size a a') :
    CheckBody.Sim F inside run run' (Pure.pure a) (Pure.pure a') V := by
  intro b r b' r' hx hx'
  obtain ⟨rfl, rfl⟩ := CheckBody.pure_ok hx
  obtain ⟨rfl, rfl⟩ := CheckBody.pure_ok hx'
  exact ⟨h, Nat.le_refl _, hv⟩

theorem bind {x : CheckBody α} {x' : CheckBody β} {f : α → CheckBody γ} {f' : β → CheckBody δ}
    (hx : CheckBody.Sim F inner run run' x x' V)
    (hf : ∀ a a' r r', r.Twin F inner r' → run.tree.size ≤ r.tree.size → V r.tree.size a a' →
      CheckBody.Sim F inside r r' (f a) (f' a') W) :
    CheckBody.Sim F inside run run' (x >>= f) (x' >>= f') W := by
  intro b s b' s' hb hb'
  obtain ⟨a, r, ha, hfa⟩ := CheckBody.bind_ok hb
  obtain ⟨a', r', ha', hfa'⟩ := CheckBody.bind_ok hb'
  obtain ⟨htwin, hgrows, hvalue⟩ := hx a r a' r' ha ha'
  obtain ⟨htwin', hgrows', hvalue'⟩ := hf a a' r r' htwin hgrows hvalue b s b' s' hfa hfa'
  exact ⟨htwin', Nat.le_trans hgrows hgrows', hvalue'⟩

theorem lift {x : Check α} {x' : Check β} (h : Check.Sim F inside run run' x x' V) :
    CheckBody.Sim F inside run run' (liftM x : CheckBody α) (liftM x' : CheckBody β) V := by
  intro a r a' r' hx hx'
  have hr : x run = (a, r) := Except.ok.inj hx
  have hr' : x' run' = (a', r') := Except.ok.inj hx'
  obtain ⟨htwin, hgrows, hvalue⟩ := h
  rw [hr] at htwin hgrows hvalue
  rw [hr'] at htwin hvalue
  exact ⟨htwin, hgrows, hvalue⟩

theorem map {x : CheckBody α} {x' : CheckBody β} {f : α → γ} {f' : β → δ}
    (hx : CheckBody.Sim F inside run run' x x' V) (hf : ∀ n a a', V n a a' → W n (f a) (f' a')) :
    CheckBody.Sim F inside run run' (f <$> x) (f' <$> x') W := by
  intro b r b' r' hb hb'
  obtain ⟨a, ha, rfl⟩ := CheckBody.map_ok hb
  obtain ⟨a', ha', rfl⟩ := CheckBody.map_ok hb'
  obtain ⟨htwin, hgrows, hvalue⟩ := hx a r a' r' ha ha'
  exact ⟨htwin, hgrows, hf _ _ _ hvalue⟩

theorem ite {c c' : Prop} [Decidable c] [Decidable c'] {x y : CheckBody α} {x' y' : CheckBody β}
    (hc : c' ↔ c) (hx : c → CheckBody.Sim F inside run run' x x' V)
    (hy : ¬ c → CheckBody.Sim F inside run run' y y' V) :
    CheckBody.Sim F inside run run' (if c then x else y) (if c' then x' else y') V := by
  by_cases h : c
  · rw [if_pos h, if_pos (hc.mpr h)]
    exact hx h
  · rw [if_neg h, if_neg fun h' => h (hc.mp h')]
    exact hy h

/-- A step that is made under a condition, with what follows it. -/
theorem when {c c' : Prop} [Decidable c] [Decidable c'] {x x' : Check Unit}
    {f : Unit → CheckBody α} {f' : Unit → CheckBody β} (hc : c' ↔ c) (h : run.Twin F inside run')
    (hx : c → Check.Sim F inside run run' x x' fun _ _ _ => True)
    (hf : ∀ r r', r.Twin F inside r' → run.tree.size ≤ r.tree.size →
      CheckBody.Sim F inside r r' (f ()) (f' ()) V) :
    CheckBody.Sim F inside run run' (if c then (liftM x : CheckBody Unit) >>= f else f ())
      (if c' then (liftM x' : CheckBody Unit) >>= f' else f' ()) V :=
  .ite hc (fun hc => .bind (.lift (hx hc)) fun _ _ r r' hr hg _ => hf r r' hr hg)
    fun _ => hf run run' h (Nat.le_refl _)

theorem get {f : Run → CheckBody α} {f' : Run → CheckBody β}
    (hf : CheckBody.Sim F inside run run' (f run) (f' run') V) :
    CheckBody.Sim F inside run run' (MonadState.get >>= f) (MonadState.get >>= f') V := hf

theorem set {r r' : Run} {f : PUnit → CheckBody α} {f' : PUnit → CheckBody β}
    (hf : CheckBody.Sim F inside r r' (f ⟨⟩) (f' ⟨⟩) V) (hle : run.tree.size ≤ r.tree.size) :
    CheckBody.Sim F inside run run' (MonadStateOf.set r >>= f) (MonadStateOf.set r' >>= f') V := by
  intro a s a' s' hx hx'
  obtain ⟨htwin, hgrows, hvalue⟩ := hf a s a' s' hx hx'
  exact ⟨htwin, Nat.le_trans hle hgrows, hvalue⟩

theorem throwing {e e' : InternalError} :
    CheckBody.Sim F inside run run' (throw e : CheckBody α) (throw e' : CheckBody β) V := by
  intro a r a' r' hx
  cases hx

theorem optionForMSame {found : Option γ} {f f' : γ → CheckBody PUnit} (h : run.Twin F inside run')
    (hf : ∀ x ∈ found, CheckBody.Sim F inside run run' (f x) (f' x) fun _ _ _ => True) :
    CheckBody.Sim F inside run run' (found.forM f) (found.forM f') fun _ _ _ => True := by
  cases found with
  | none => exact .pure h trivial
  | some x => exact hf x rfl

end CheckBody.Sim

end Lsl
