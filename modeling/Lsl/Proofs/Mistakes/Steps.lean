/- # Steps with mistakes

A step of the run over a script and one of the run over the same script with mistakes
belong together if they lead to the same place, where more may be linked than before,
and the second one reports certain errors on the way. All this has to hold only where
the first run is spotless in the end: then it was spotless all the time, and nothing
it could find fault with has happened.

Key definitions: `Check.Mirrors`, `CheckBody.Mirrors`, `Check.Quiet`.
Key theorems: `Check.Mirrors.bind`, `Check.Mirrors.guard`, `Check.Mirrors.alloc`,
`CheckBody.Mirrors.bindFrom`.
-/
import Lsl.Proofs.Mistakes.Exprs

namespace Lsl

variable {n : String} {L M : Links} {run run' r r' : Run} {fs gs : List (Fault × Span)}
  {α β γ δ : Type}

/-! ### Steps that cannot fail -/

/-- Steps that belong together: wherever the first leads without a stain, the second
leads to what is linked with it, and it reports these errors. -/
def Check.Mirrors (n : String) (L : Links) (fs : List (Fault × Span)) (run run' : Run)
    (x : Check α) (x' : Check β) (V : Links → Tree → Tree → α → β → Prop) : Prop :=
  Run.Spotless (x run).2 → ∃ M, L ≤ M ∧ (x run).2.Linked n M (x' run').2
    ∧ (x' run').2.faults = run'.faults ++ fs ∧ V M (x run).2.tree (x' run').2.tree (x run).1 (x' run').1

/-- A step that does nothing but warn. -/
class Check.Quiet (x : Check α) : Prop where
  warns : ∀ run : Run, ∃ ws : List Notice, ws.filterMap Notice.fault? = []
    ∧ (x run).2 = { run with notices := run.notices ++ ws }

namespace Check

instance quiet_pure (a : α) : Check.Quiet (pure a) :=
  ⟨fun run => ⟨[], rfl, by rw [List.append_nil]; rfl⟩⟩

instance quiet_tree : Check.Quiet Check.tree :=
  ⟨fun run => ⟨[], rfl, by rw [List.append_nil]; rfl⟩⟩

instance quiet_warn (w : Warning) (span : Span) : Check.Quiet (Check.warn w span) :=
  ⟨fun _ => ⟨[.warning w span], rfl, rfl⟩⟩

instance quiet_bind (x : Check α) (f : α → Check β) [hx : Check.Quiet x]
    [hf : ∀ a, Check.Quiet (f a)] : Check.Quiet (x >>= f) where
  warns run := by
    obtain ⟨ws, hws, hr⟩ := hx.warns run
    obtain ⟨vs, hvs, hr'⟩ := (hf (x run).1).warns (x run).2
    refine ⟨ws ++ vs, by rw [List.filterMap_append, hws, hvs]; rfl, ?_⟩
    rw [Check.bind_run, hr', hr, List.append_assoc]

instance quiet_ite (c : Prop) [Decidable c] (x y : Check α) [Check.Quiet x] [Check.Quiet y] :
    Check.Quiet (if c then x else y) := by
  split <;> assumption

theorem quiet_each {xs : List α} {f : α → Check PUnit} (hf : ∀ x ∈ xs, Check.Quiet (f x)) :
    Check.Quiet (xs.forM f) := by
  induction xs with
  | nil => exact quiet_pure _
  | cons x rest ih =>
    have hx := hf x List.mem_cons_self
    have hrest := ih fun y hy => hf y (List.mem_cons_of_mem _ hy)
    exact inferInstanceAs (Check.Quiet (f x >>= fun _ => rest.forM f))

instance quiet_forM (xs : List α) (f : α → Check PUnit) [hf : ∀ x, Check.Quiet (f x)] :
    Check.Quiet (xs.forM f) := quiet_each fun x _ => hf x

instance quiet_optionForM (found : Option α) (f : α → Check PUnit) [hf : ∀ x, Check.Quiet (f x)] :
    Check.Quiet (found.forM f) := by
  cases found with
  | none => exact quiet_pure _
  | some x => exact hf x

/-- A report that is made for one of many. -/
theorem wrong_each {xs : List α} {f : α → Check PUnit} [hf : ∀ x, Check.Upholds (f x)] {x : α}
    (hx : x ∈ xs) (hw : ∀ r, (f x r).2.Wrong) (run : Run) : ((xs.forM f) run).2.Wrong := by
  induction xs generalizing run with
  | nil => cases hx
  | cons y rest ih =>
    change ((f y >>= fun _ => rest.forM f) run).2.Wrong
    rw [Check.bind_run]
    rcases List.mem_cons.mp hx with rfl | hx
    · exact (hw run).mono ((Check.upholds_forM rest f).upholds _).notices
    · exact ih hx _

theorem wrong_fault (kind : Fault) (span : Span) (run : Run) :
    (Check.fault kind span run).2.Wrong :=
  ⟨.fault kind span, List.mem_append_right _ List.mem_cons_self, rfl⟩

theorem wrong_faultAt (id : NodeId) (kind : Fault) (span : Span) (run : Run) :
    (Check.faultAt id kind span run).2.Wrong := wrong_fault kind span _

namespace Mirrors

variable {V : Links → Tree → Tree → α → β → Prop} {W : Links → Tree → Tree → γ → δ → Prop}

theorem pure {a : α} {a' : β} (h : run.Linked n L run') (hv : V L run.tree run'.tree a a') :
    Check.Mirrors n L [] run run' (Pure.pure a) (Pure.pure a') V := fun _ =>
  ⟨L, le_refl L, h, (List.append_nil _).symm, hv⟩

theorem mono {x : Check α} {x' : Check β} {V' : Links → Tree → Tree → α → β → Prop}
    (h : Check.Mirrors n L fs run run' x x' V) (hv : ∀ M t t' a a', V M t t' a a' → V' M t t' a a') :
    Check.Mirrors n L fs run run' x x' V' := fun hclean => by
  obtain ⟨M, hle, hl, htold, hvalue⟩ := h hclean
  exact ⟨M, hle, hl, htold, hv _ _ _ _ _ hvalue⟩

/-- More may have been linked already. -/
theorem widen {x : Check α} {x' : Check β} (h : Check.Mirrors n M fs run run' x x' V) (hle : L ≤ M) :
    Check.Mirrors n L fs run run' x x' V := fun hclean => by
  obtain ⟨N, hle', hl, htold, hvalue⟩ := h hclean
  exact ⟨N, le_trans hle hle', hl, htold, hvalue⟩

/-- One step after the other. -/
theorem bind {x : Check α} {x' : Check β} {f : α → Check γ} {f' : β → Check δ}
    [hu : ∀ a, Check.Upholds (f a)] (hx : Check.Mirrors n L fs run run' x x' V)
    (hf : ∀ M a a' r r', L ≤ M → r.Spotless → r.Linked n M r' → V M r.tree r'.tree a a' →
      Check.Mirrors n M gs r r' (f a) (f' a') W) :
    Check.Mirrors n L (fs ++ gs) run run' (x >>= f) (x' >>= f') W := fun hclean => by
  have hbefore : Run.Spotless (x run).2 := hclean.before ((hu _).upholds _)
  obtain ⟨M, hle, hl, htold, hvalue⟩ := hx hbefore
  obtain ⟨N, hle', hl', htold', hvalue'⟩ := hf M _ _ _ _ hle hbefore hl hvalue hclean
  exact ⟨N, le_trans hle hle', hl', by rw [Check.bind_run, htold', htold, List.append_assoc], hvalue'⟩

/-- A step without errors before others. -/
theorem silentBind {x : Check α} {x' : Check β} {f : α → Check γ} {f' : β → Check δ}
    [hu : ∀ a, Check.Upholds (f a)] (hx : Check.Mirrors n L [] run run' x x' V)
    (hf : ∀ M a a' r r', L ≤ M → r.Spotless → r.Linked n M r' → V M r.tree r'.tree a a' →
      Check.Mirrors n M gs r r' (f a) (f' a') W) :
    Check.Mirrors n L gs run run' (x >>= f) (x' >>= f') W := bind hx hf

/-- A step without errors behind others. -/
theorem bindSilent {x : Check α} {x' : Check β} {f : α → Check γ} {f' : β → Check δ}
    [hu : ∀ a, Check.Upholds (f a)] (hx : Check.Mirrors n L fs run run' x x' V)
    (hf : ∀ M a a' r r', L ≤ M → r.Spotless → r.Linked n M r' → V M r.tree r'.tree a a' →
      Check.Mirrors n M [] r r' (f a) (f' a') W) :
    Check.Mirrors n L fs run run' (x >>= f) (x' >>= f') W := by
  have hboth := bind hx hf
  rwa [List.append_nil] at hboth

/-- A report is not made where nothing is wrong in the end. -/
theorem refuse {x : Check γ} {f : γ → Check α} {y : Check β} [hu : ∀ a, Check.Upholds (f a)]
    (hx : ∀ r, (x r).2.Wrong) : Check.Mirrors n L fs run run' (x >>= f) y V := fun hclean =>
  absurd ((hx run).mono ((hu _).upholds _).notices) hclean.right

/-- What is only said under a condition that does not arise. -/
theorem guard {c c' : Prop} [Decidable c] [Decidable c'] {x : Check γ} {f : γ → Check α}
    {y : Check α} {x' y' : Check β} [hu : ∀ a, Check.Upholds (f a)] (hc : c' → c)
    (hx : ∀ r, (x r).2.Wrong) (hy : Check.Mirrors n L fs run run' y y' V) :
    Check.Mirrors n L fs run run' (if c then x >>= f else y) (if c' then x' else y') V := by
  by_cases h : c
  · rw [if_pos h]
    exact refuse hx
  · rw [if_neg h, if_neg fun h' => h (hc h')]
    exact hy

/-- What is only said under a condition that does not arise, with nothing behind it. -/
theorem never {c c' : Prop} [Decidable c] [Decidable c'] {x x' : Check PUnit}
    (h : run.Linked n L run') (hc : c' → c) (hx : ∀ r, (x r).2.Wrong) :
    Check.Mirrors n L [] run run' (if c then x else Pure.pure ⟨⟩) (if c' then x' else Pure.pure ⟨⟩)
      fun M t t' _ _ => M = L ∧ t = run.tree ∧ t' = run'.tree := by
  by_cases hcond : c
  · rw [if_pos hcond]
    exact fun hclean => absurd (hx run) hclean.right
  · rw [if_neg hcond, if_neg fun h' => hcond (hc h')]
    exact .pure h ⟨rfl, rfl, rfl⟩

theorem tree {f : Tree → Check α} {f' : Tree → Check β}
    (hf : Check.Mirrors n L fs run run' (f run.tree) (f' run'.tree) V) :
    Check.Mirrors n L fs run run' (Check.tree >>= f) (Check.tree >>= f') V := hf

theorem get {f : Run → Check α} {f' : Run → Check β}
    (hf : Check.Mirrors n L fs run run' (f run) (f' run') V) :
    Check.Mirrors n L fs run run' (MonadState.get >>= f) (MonadState.get >>= f') V := hf

theorem optionForM {R : γ → δ → Prop} {found : Option γ} {found' : Option δ} {f : γ → Check PUnit}
    {f' : δ → Check PUnit} (h : run.Linked n L run') (hfound : Option.Rel R found found')
    (hf : ∀ x x', R x x' → Check.Mirrors n L [] run run' (f x) (f' x') fun M _ _ _ _ => M = L) :
    Check.Mirrors n L [] run run' (found.forM f) (found'.forM f') fun M _ _ _ _ => M = L := by
  cases hfound with
  | none => exact .pure h rfl
  | some hx => exact hf _ _ hx

theorem modifyTree {f f' : Tree → Tree} (h : run.Linked n L run')
    (ht : (f run.tree).Linked n L (f' run'.tree)) :
    Check.Mirrors n L [] run run' (Check.modifyTree f) (Check.modifyTree f') fun M _ _ _ _ => M = L :=
  fun _ => ⟨L, le_refl L, { h with tree := ht }, (List.append_nil _).symm, rfl⟩

/-- Warnings on either side. -/
theorem quiet {x : Check α} {x' : Check β} [hx : Check.Quiet x] [hx' : Check.Quiet x']
    (h : run.Linked n L run') :
    Check.Mirrors n L [] run run' x x' fun M t t' _ _ => M = L ∧ t = run.tree ∧ t' = run'.tree :=
  fun _ => by
    obtain ⟨ws, -, hr⟩ := hx.warns run
    obtain ⟨ws', hws', hr'⟩ := hx'.warns run'
    refine ⟨L, le_refl L, ?_, ?_, rfl, by rw [hr], by rw [hr']⟩
    · rw [hr, hr']
      exact h.say _ _
    · rw [hr', Run.faults_say run' run'.tree ws', hws']

/-- Warnings under conditions that need not be the same. -/
theorem warn {c c' : Prop} [Decidable c] [Decidable c'] {x x' : Check PUnit} [Check.Quiet x]
    [Check.Quiet x'] {f : PUnit → Check α} {f' : PUnit → Check β} [hu : ∀ a, Check.Upholds (f a)]
    (h : run.Linked n L run') (hf : ∀ r r', r.Linked n L r' → r.tree = run.tree → r'.tree = run'.tree →
      Check.Mirrors n L fs r r' (f ⟨⟩) (f' ⟨⟩) V) :
    Check.Mirrors n L fs run run' (if c then x >>= f else f ⟨⟩) (if c' then x' >>= f' else f' ⟨⟩) V := by
  have hwhen : ∀ {ε : Type} {c : Prop} [Decidable c] {x : Check PUnit} {f : PUnit → Check ε},
      (if c then x >>= f else f ⟨⟩) = (if c then x else Pure.pure ⟨⟩) >>= f := by
    intro ε c _ x f
    split <;> rfl
  rw [hwhen, hwhen]
  refine silentBind (quiet h) fun M _ _ r r' _ _ hl hv => ?_
  obtain ⟨rfl, ht, ht'⟩ := hv
  exact hf r r' hl ht ht'

/-- New nodes that belong together. -/
theorem alloc (h : run.Linked n L run') {kind kind' : NodeKind} (span span' : Span)
    (hc : List.Forall₂ L.nodes kind.children kind'.children)
    (hgist : kind.gist.Linked L.nodes kind'.gist) :
    Check.Mirrors n L [] run run' (Check.alloc kind span) (Check.alloc kind' span')
      fun M t t' i j => M = L.addNode i j ∧ i = run.tree.size ∧ j = run'.tree.size
        ∧ t = (run.tree.alloc kind span).1 ∧ t' = (run'.tree.alloc kind' span').1 := fun _ =>
  ⟨L.addNode run.tree.size run'.tree.size, L.le_addNode _ _,
    { tree := h.tree.alloc span span' hc hgist
      scopes := h.scopes
      fresh := h.fresh
      labels := h.labels.imp fun _ _ => .inl
      lastScope := h.lastScope }, (List.append_nil _).symm, rfl, rfl, rfl, rfl, rfl⟩

end Mirrors

end Check

/-! ### Steps that can fail -/

/-- Steps that belong together if both succeed. -/
def CheckBody.Mirrors (n : String) (L : Links) (fs : List (Fault × Span)) (run run' : Run)
    (x : CheckBody α) (x' : CheckBody β) (V : Links → Tree → Tree → α → β → Prop) : Prop :=
  ∀ a r a' r', x run = .ok (a, r) → x' run' = .ok (a', r') → r.Spotless →
    ∃ M, L ≤ M ∧ r.Linked n M r' ∧ r'.faults = run'.faults ++ fs ∧ V M r.tree r'.tree a a'

namespace CheckBody.Mirrors

variable {V : Links → Tree → Tree → α → β → Prop} {W : Links → Tree → Tree → γ → δ → Prop}

theorem lift {x : Check α} {x' : Check β} (h : Check.Mirrors n L fs run run' x x' V) :
    CheckBody.Mirrors n L fs run run' (liftM x : CheckBody α) (liftM x' : CheckBody β) V := by
  intro a r a' r' hx hx' hclean
  have hr : x run = (a, r) := Except.ok.inj hx
  have hr' : x' run' = (a', r') := Except.ok.inj hx'
  have hmirrors := h
  rw [Check.Mirrors, hr, hr'] at hmirrors
  exact hmirrors hclean

theorem pure {a : α} {a' : β} (h : run.Linked n L run') (hv : V L run.tree run'.tree a a') :
    CheckBody.Mirrors n L [] run run' (Pure.pure a) (Pure.pure a') V := by
  intro b r b' r' hx hx' _
  obtain ⟨rfl, rfl⟩ := CheckBody.pure_ok hx
  obtain ⟨rfl, rfl⟩ := CheckBody.pure_ok hx'
  exact ⟨L, le_refl L, h, (List.append_nil _).symm, hv⟩

/-- More may have been linked already. -/
theorem widen {x : CheckBody α} {x' : CheckBody β} (h : CheckBody.Mirrors n M fs run run' x x' V)
    (hle : L ≤ M) : CheckBody.Mirrors n L fs run run' x x' V := by
  intro a r a' r' hx hx' hclean
  obtain ⟨N, hle', hl, htold, hvalue⟩ := h a r a' r' hx hx' hclean
  exact ⟨N, le_trans hle hle', hl, htold, hvalue⟩

/-- One step after the other, where what the first one links need not last. -/
theorem bindFrom {x : CheckBody α} {x' : CheckBody β} {f : α → CheckBody γ} {f' : β → CheckBody δ}
    [hu : ∀ a, CheckBody.Upholds (f a)] (hx : CheckBody.Mirrors n L fs run run' x x' V)
    (hf : ∀ M a a' r r', L ≤ M → r.Spotless → r.Linked n M r' → V M r.tree r'.tree a a' →
      CheckBody.Mirrors n L gs r r' (f a) (f' a') W) :
    CheckBody.Mirrors n L (fs ++ gs) run run' (x >>= f) (x' >>= f') W := by
  intro b s b' s' hb hb' hclean
  obtain ⟨a, r, ha, hfa⟩ := CheckBody.bind_ok hb
  obtain ⟨a', r', ha', hfa'⟩ := CheckBody.bind_ok hb'
  have hbefore : r.Spotless := hclean.before ((hu a).upholds r b s hfa)
  obtain ⟨M, hle, hl, htold, hvalue⟩ := hx a r a' r' ha ha' hbefore
  obtain ⟨N, hle', hl', htold', hvalue'⟩ :=
    hf M a a' r r' hle hbefore hl hvalue b s b' s' hfa hfa' hclean
  exact ⟨N, hle', hl', by rw [htold', htold, List.append_assoc], hvalue'⟩

theorem silentBindFrom {x : CheckBody α} {x' : CheckBody β} {f : α → CheckBody γ}
    {f' : β → CheckBody δ} [hu : ∀ a, CheckBody.Upholds (f a)]
    (hx : CheckBody.Mirrors n L [] run run' x x' V)
    (hf : ∀ M a a' r r', L ≤ M → r.Spotless → r.Linked n M r' → V M r.tree r'.tree a a' →
      CheckBody.Mirrors n L gs r r' (f a) (f' a') W) :
    CheckBody.Mirrors n L gs run run' (x >>= f) (x' >>= f') W := bindFrom hx hf

theorem bindSilentFrom {x : CheckBody α} {x' : CheckBody β} {f : α → CheckBody γ}
    {f' : β → CheckBody δ} [hu : ∀ a, CheckBody.Upholds (f a)]
    (hx : CheckBody.Mirrors n L fs run run' x x' V)
    (hf : ∀ M a a' r r', L ≤ M → r.Spotless → r.Linked n M r' → V M r.tree r'.tree a a' →
      CheckBody.Mirrors n L [] r r' (f a) (f' a') W) :
    CheckBody.Mirrors n L fs run run' (x >>= f) (x' >>= f') W := by
  have hboth := bindFrom hx hf
  rwa [List.append_nil] at hboth

theorem bind {x : CheckBody α} {x' : CheckBody β} {f : α → CheckBody γ} {f' : β → CheckBody δ}
    [hu : ∀ a, CheckBody.Upholds (f a)] (hx : CheckBody.Mirrors n L fs run run' x x' V)
    (hf : ∀ M a a' r r', L ≤ M → r.Spotless → r.Linked n M r' → V M r.tree r'.tree a a' →
      CheckBody.Mirrors n M gs r r' (f a) (f' a') W) :
    CheckBody.Mirrors n L (fs ++ gs) run run' (x >>= f) (x' >>= f') W :=
  bindFrom hx fun M a a' r r' hle hclean hl hv => (hf M a a' r r' hle hclean hl hv).widen hle

theorem silentBind {x : CheckBody α} {x' : CheckBody β} {f : α → CheckBody γ} {f' : β → CheckBody δ}
    [hu : ∀ a, CheckBody.Upholds (f a)] (hx : CheckBody.Mirrors n L [] run run' x x' V)
    (hf : ∀ M a a' r r', L ≤ M → r.Spotless → r.Linked n M r' → V M r.tree r'.tree a a' →
      CheckBody.Mirrors n M gs r r' (f a) (f' a') W) :
    CheckBody.Mirrors n L gs run run' (x >>= f) (x' >>= f') W := bind hx hf

theorem bindSilent {x : CheckBody α} {x' : CheckBody β} {f : α → CheckBody γ} {f' : β → CheckBody δ}
    [hu : ∀ a, CheckBody.Upholds (f a)] (hx : CheckBody.Mirrors n L fs run run' x x' V)
    (hf : ∀ M a a' r r', L ≤ M → r.Spotless → r.Linked n M r' → V M r.tree r'.tree a a' →
      CheckBody.Mirrors n M [] r r' (f a) (f' a') W) :
    CheckBody.Mirrors n L fs run run' (x >>= f) (x' >>= f') W :=
  bindSilentFrom hx fun M a a' r r' hle hclean hl hv => (hf M a a' r r' hle hclean hl hv).widen hle

theorem get {f : Run → CheckBody α} {f' : Run → CheckBody β}
    (hf : CheckBody.Mirrors n L fs run run' (f run) (f' run') V) :
    CheckBody.Mirrors n L fs run run' (MonadState.get >>= f) (MonadState.get >>= f') V := hf

theorem expect {found : Option α} {found' : Option β} {id id' : NodeId} {expected : String}
    (hle : L ≤ M) (h : run.Linked n M run')
    (hv : ∀ a a', found = some a → found' = some a' → V M run.tree run'.tree a a') :
    CheckBody.Mirrors n L [] run run' (CheckBody.expect found id expected)
      (CheckBody.expect found' id' expected) V := by
  intro a r a' r' hx hx' _
  obtain ⟨ha, rfl⟩ := CheckBody.expect_ok hx
  obtain ⟨ha', rfl⟩ := CheckBody.expect_ok hx'
  exact ⟨M, hle, h, (List.append_nil _).symm, hv a a' ha ha'⟩

/-- A report is not made where nothing is wrong in the end. -/
theorem refuse {x : Check γ} {f : γ → CheckBody α} {y : CheckBody β}
    [hu : ∀ a, CheckBody.Upholds (f a)] (hx : ∀ r, (x r).2.Wrong) :
    CheckBody.Mirrors n L fs run run' ((liftM x : CheckBody γ) >>= f) y V := by
  intro a r a' r' hrun _ hclean
  obtain ⟨b, s, hb, hf⟩ := CheckBody.bind_ok hrun
  have hs : x run = (b, s) := Except.ok.inj hb
  have hwrong := hx run
  rw [hs] at hwrong
  exact absurd (hwrong.mono ((hu b).upholds s a r hf).notices) hclean.right

/-- What is only said under a condition that does not arise. -/
theorem guard {c c' : Prop} [Decidable c] [Decidable c'] {x : Check γ} {f : γ → CheckBody α}
    {y : CheckBody α} {x' y' : CheckBody β} [hu : ∀ a, CheckBody.Upholds (f a)] (hc : c' → c)
    (hx : ∀ r, (x r).2.Wrong) (hy : CheckBody.Mirrors n L fs run run' y y' V) :
    CheckBody.Mirrors n L fs run run' (if c then (liftM x : CheckBody γ) >>= f else y)
      (if c' then x' else y') V := by
  by_cases h : c
  · rw [if_pos h]
    exact refuse hx
  · rw [if_neg h, if_neg fun h' => h (hc h')]
    exact hy

theorem map {x : CheckBody α} {x' : CheckBody β} {f : α → γ} {f' : β → δ}
    (hx : CheckBody.Mirrors n L fs run run' x x' V)
    (hf : ∀ M t t' a a', V M t t' a a' → W M t t' (f a) (f' a')) :
    CheckBody.Mirrors n L fs run run' (f <$> x) (f' <$> x') W := by
  intro b r b' r' hb hb' hclean
  obtain ⟨a, ha, rfl⟩ := CheckBody.map_ok hb
  obtain ⟨a', ha', rfl⟩ := CheckBody.map_ok hb'
  obtain ⟨M, hle, hl, htold, hvalue⟩ := hx a r a' r' ha ha' hclean
  exact ⟨M, hle, hl, htold, hf _ _ _ _ _ hvalue⟩

/-- Warnings under conditions that need not be the same. -/
theorem warn {c c' : Prop} [Decidable c] [Decidable c'] {x x' : Check PUnit} [Check.Quiet x]
    [Check.Quiet x'] [Check.Upholds x] {f : PUnit → CheckBody α} {f' : PUnit → CheckBody β}
    [hu : ∀ a, CheckBody.Upholds (f a)] (hle : L ≤ M) (h : run.Linked n M run')
    (hf : ∀ r r', r.Linked n M r' → r.tree = run.tree → r'.tree = run'.tree →
      CheckBody.Mirrors n L fs r r' (f ⟨⟩) (f' ⟨⟩) V) :
    CheckBody.Mirrors n L fs run run' (if c then (liftM x : CheckBody PUnit) >>= f else f ⟨⟩)
      (if c' then (liftM x' : CheckBody PUnit) >>= f' else f' ⟨⟩) V := by
  have hwhen : ∀ {ε : Type} {c : Prop} [Decidable c] {x : Check PUnit} {f : PUnit → CheckBody ε},
      (if c then (liftM x : CheckBody PUnit) >>= f else f ⟨⟩)
        = (liftM (if c then x else Pure.pure ⟨⟩ : Check PUnit) : CheckBody PUnit) >>= f := by
    intro ε c _ x f
    split <;> rfl
  rw [hwhen, hwhen]
  refine silentBindFrom (.lift ((Check.Mirrors.quiet h).widen hle)) fun N _ _ r r' _ _ hl hv => ?_
  obtain ⟨rfl, ht, ht'⟩ := hv
  exact hf r r' hl ht ht'

end CheckBody.Mirrors

end Lsl
