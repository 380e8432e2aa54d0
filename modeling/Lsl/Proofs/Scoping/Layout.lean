/- # The layout of a body

A body is gone through in the order it is written: a scope first, then its
statements, and behind each statement the scopes in it. On the way scopes and
labels are met, and local variables become visible: those of the blocks around
a place that are declared above it.

Key definitions: `Tree.Visits`, `Tree.Scoped`.
Key theorems: `Tree.Visits.append`, `Tree.Scoped.cons_of_single`.
-/
import Lsl.Proofs.Check.Effects
import Lsl.Proofs.Scoping.Exprs

namespace Lsl

variable {rules : Rules} {o : Surroundings} {t t' : Tree} {P : Nat → Prop} {b : BlockView}
  {blocks outer : List BlockView}

theorem exists_of_forall₂_left {α β : Type} {R : α → β → Prop} {as : List α} {bs : List β}
    (h : List.Forall₂ R as bs) {a : α} (ha : a ∈ as) : ∃ b ∈ bs, R a b := by
  induction h with
  | nil => cases ha
  | cons hab _ ih =>
    rcases List.mem_cons.mp ha with rfl | ha
    · exact ⟨_, List.mem_cons_self, hab⟩
    · obtain ⟨b, hb, hr⟩ := ih ha
      exact ⟨b, List.mem_cons_of_mem _ hb, hr⟩

theorem exists_of_forall₂_right {α β : Type} {R : α → β → Prop} {as : List α} {bs : List β}
    (h : List.Forall₂ R as bs) {b : β} (hb : b ∈ bs) : ∃ a ∈ as, R a b := by
  obtain ⟨a, ha, hr⟩ := exists_of_forall₂_left h.flip hb
  exact ⟨a, ha, hr⟩

/-! ### Scopes and labels in their order -/

/-- The numbers given out after `last`, up to `last'`. -/
def numbersAfter (last last' : Nat) : List Nat := List.range' (last + 1) (last' - last)

@[simp] theorem numbersAfter_self (last : Nat) : numbersAfter last last = [] := by
  simp [numbersAfter]

theorem numbersAfter_append {first middle last : Nat} (h : first ≤ middle) (h' : middle ≤ last) :
    numbersAfter first middle ++ numbersAfter middle last = numbersAfter first last := by
  have hstart : middle + 1 = first + 1 + 1 * (middle - first) := by omega
  have hlength : last - first = middle - first + (last - middle) := by omega
  rw [numbersAfter, numbersAfter, numbersAfter, hstart, List.range'_append, hlength]

theorem numbersAfter_cons {first last : Nat} (h : first + 1 ≤ last) :
    (first + 1) :: numbersAfter (first + 1) last = numbersAfter first last := by
  have hone : numbersAfter first (first + 1) = [first + 1] := by simp [numbersAfter]
  rw [← numbersAfter_append (Nat.le_succ first) h, hone]
  rfl

/-- Going through scopes and statements in their order, the scopes with these
numbers are entered and these labels are met. -/
inductive Tree.Visits (t : Tree) : List NodeId → List Nat → List NodeId → Prop where
  | nil : Visits t [] [] []
  | stmt {id : NodeId} {rest : List NodeId} {s : StmtNode} {scopes more : List Nat}
    {labels others : List NodeId} (h : t.stmt? id = some s)
    (harms : Visits t s.kind.arms scopes labels) (hrest : Visits t rest more others) :
    Visits t (id :: rest) (scopes ++ more)
      ((if s.kind.isLabel then [id] else []) ++ labels ++ others)
  | scope {id : NodeId} {rest : List NodeId} {c : CodeScope} {scopes more : List Nat}
    {labels others : List NodeId} (h : t.scope? id = some c)
    (hin : Visits t c.statements scopes labels) (hrest : Visits t rest more others) :
    Visits t (id :: rest) (c.scopeId :: scopes ++ more) (labels ++ others)

namespace Tree.Visits

variable {ids ids' : List NodeId} {scopes scopes' : List Nat} {labels labels' : List NodeId}

theorem grows (h : t.Visits ids scopes labels) (hg : t.Grows P t') :
    t'.Visits ids scopes labels := by
  induction h with
  | nil => exact .nil
  | stmt h _ _ iharms ihrest =>
    obtain ⟨s', hs', ho, -⟩ := hg.stmt? h
    rw [← StmtNode.isLabel_of_outline ho]
    rw [← (StmtNode.arms_of_outline ho).1] at iharms
    exact .stmt hs' iharms ihrest
  | scope h _ _ ihin ihrest => exact .scope (hg.scope? h) ihin ihrest

theorem append (h : t.Visits ids scopes labels) (g : t.Visits ids' scopes' labels') :
    t.Visits (ids ++ ids') (scopes ++ scopes') (labels ++ labels') := by
  induction h with
  | nil => exact g
  | stmt h harms _ _ ih =>
    rw [List.append_assoc, List.append_assoc]
    exact .stmt h harms ih
  | scope h hin _ _ ih =>
    rw [List.append_assoc, List.append_assoc]
    exact .scope h hin ih

/-- A scope on its own. -/
theorem single_scope {id : NodeId} {c : CodeScope} (h : t.scope? id = some c)
    (hin : t.Visits c.statements scopes labels) : t.Visits [id] (c.scopeId :: scopes) labels := by
  have := scope h hin nil
  rwa [List.append_nil, List.append_nil] at this

/-- A statement on its own. -/
theorem single_stmt {id : NodeId} {s : StmtNode} (h : t.stmt? id = some s)
    (harms : t.Visits s.kind.arms scopes labels) :
    t.Visits [id] scopes ((if s.kind.isLabel then [id] else []) ++ labels) := by
  have := stmt h harms nil
  rwa [List.append_nil, List.append_nil] at this

end Tree.Visits

/-! ### Local variables in their blocks -/

/-- The expressions in a statement. -/
def StmtKind.terms : StmtKind → List NodeId
  | expr value => [value]
  | declare v => v.init.toList
  | ret value => value.toList
  | branch cond _ elseIfs _ => cond :: elseIfs.map (·.1)
  | whileLoop cond _ | doWhile _ cond => [cond]
  | forLoop init cond step _ => init ++ cond.toList ++ step
  | empty | jump .. | label .. | stateChange .. | block _ => []

/-- The conditions of a statement. -/
def StmtKind.tests : StmtKind → List NodeId
  | branch cond _ elseIfs _ => cond :: elseIfs.map (·.1)
  | whileLoop cond _ | doWhile _ cond => [cond]
  | forLoop _ cond _ _ => cond.toList
  | _ => []

/-- The expressions that a statement evaluates without using their values. -/
def StmtKind.clauses : StmtKind → List NodeId
  | expr value => [value]
  | forLoop init _ step _ => init ++ step
  | _ => []

/-- The expressions whose values a statement uses. -/
def StmtKind.values : StmtKind → List NodeId
  | declare v => v.init.toList
  | ret value => value.toList
  | branch cond _ elseIfs _ => cond :: elseIfs.map (·.1)
  | whileLoop cond _ | doWhile _ cond => [cond]
  | forLoop _ cond _ _ => cond.toList
  | empty | expr _ | jump .. | label .. | stateChange .. | block _ => []

theorem StmtKind.mem_terms {k : StmtKind} {c : NodeId} : c ∈ k.terms ↔ c ∈ k.clauses ∨ c ∈ k.values := by
  cases k <;> simp [terms, clauses, values, or_assoc, or_comm]

/-- The block behind a statement, which may have declared a variable. -/
def BlockView.behind (b : BlockView) (id : NodeId) : StmtKind → BlockView
  | .declare v => { b with locals := b.locals ++ [(v.name, id)] }
  | _ => b

theorem StmtKind.terms_outline (k : StmtKind) : k.outline.terms = k.terms := by
  cases k <;> rfl

theorem BlockView.behind_outline (id : NodeId) (k : StmtKind) :
    b.behind id k.outline = b.behind id k := by
  cases k <;> rfl

@[simp] theorem BlockView.behind_scopeId (b : BlockView) (id : NodeId) (k : StmtKind) :
    (b.behind id k).scopeId = b.scopeId := by
  cases k <;> rfl

theorem StmtNode.terms_of_outline {s s' : StmtNode} (h : s'.outline = s.outline) :
    s'.kind.terms = s.kind.terms := by
  have hk : s'.kind.outline = s.kind.outline := congrArg StmtNode.kind h
  rw [← StmtKind.terms_outline, hk, StmtKind.terms_outline]

theorem StmtNode.behind_of_outline {s s' : StmtNode} {id : NodeId} (h : s'.outline = s.outline) :
    b.behind id s'.kind = b.behind id s.kind := by
  have hk : s'.kind.outline = s.kind.outline := congrArg StmtNode.kind h
  rw [← BlockView.behind_outline, hk, BlockView.behind_outline]

theorem Variable.names_of_outline {v v' : Variable} (h : v'.outline = v.outline) :
    v'.name = v.name ∧ v'.declaredIn = v.declaredIn := by
  rcases v with ⟨⟩
  rcases v' with ⟨⟩
  simp_all [outline]

/-- A variable knows its block and has its name for itself there, a jump leads to
the first label of its name, and values and conditions are what they have to be,
unless something is `wrong`. -/
def Tree.InPlace (t : Tree) (rules : Rules) (o : Surroundings) (wrong : Prop) (b : BlockView) :
    StmtKind → Prop
  | .declare v => v.declaredIn = b.scopeId ∧ ((b.locals.lookup v.name).isSome = true → wrong)
    ∧ ∀ c ∈ v.init, t.Suits c (assignable v.ty · = true) ∨ wrong
  | .ret value => ∀ c ∈ value,
    t.Suits c (fun ty => ∃ r ∈ rules.returns, assignable r ty = true) ∨ wrong
  | .jump name target _ => (target = none → wrong)
    ∧ ∀ l ∈ target, ∃ site, o.label? name = some site ∧ t.labelSite? l = some site
  | k => ∀ c ∈ k.tests, t.Suits c (validCondition · = true)

/-- What may change in a statement. -/
theorem StmtKind.cases_of_outline {k k' : StmtKind} (h : k'.outline = k.outline) :
    k' = k ∨ (∃ v v', k = declare v ∧ k' = declare v' ∧ v'.outline = v.outline)
      ∨ (∃ name target always always', k = jump name target always ∧ k' = jump name target always')
      ∨ ∃ name jumps jumps', k = label name jumps ∧ k' = label name jumps' := by
  cases k <;> cases k' <;> simp_all [outline]

theorem Tree.InPlace.grows {wrong wrong' : Prop} {s s' : StmtNode}
    (h : t.InPlace rules o wrong b s.kind) (hg : t.Grows P t') (ho : s'.outline = s.outline)
    (hw : wrong → wrong') : t'.InPlace rules o wrong' b s'.kind := by
  have hvalue : ∀ {c : NodeId} {Q : Ty → Prop}, t.Suits c Q ∨ wrong → t'.Suits c Q ∨ wrong' :=
    fun hc => hc.imp (·.grows hg) hw
  have hjump : ∀ {name : String} {target : Option NodeId} {always always' : Bool},
      t.InPlace rules o wrong b (.jump name target always) →
      t'.InPlace rules o wrong' b (.jump name target always') := fun h =>
    ⟨fun hnone => hw (h.1 hnone), fun l hl => by
      obtain ⟨site, hsite, hat⟩ := h.2 l hl
      exact ⟨site, hsite, hg.labelSite? hat⟩⟩
  rcases s with ⟨kind, info⟩
  rcases s' with ⟨kind', info'⟩
  rcases StmtKind.cases_of_outline (congrArg StmtNode.kind ho) with
    hsame | ⟨v, v', hv, hv', hout⟩ | ⟨name, target, always, always', hk, hk'⟩
      | ⟨name, jumps, jumps', -, hk'⟩
  · simp only at hsame
    subst hsame
    cases kind' with
    | declare v => exact ⟨h.1, fun hsome => hw (h.2.1 hsome), fun c hc => hvalue (h.2.2 c hc)⟩
    | ret value => exact fun c hc => hvalue (h c hc)
    | jump => exact hjump h
    | _ => exact fun c hc => (h c hc).grows hg
  · simp only at hv hv'
    subst hv hv'
    obtain ⟨hname, hin⟩ := Variable.names_of_outline hout
    obtain ⟨hty, hinit⟩ := Variable.ty_init_of_outline hout
    refine ⟨hin.trans h.1, fun hsome => hw (h.2.1 (hname ▸ hsome)), ?_⟩
    rw [hty, hinit]
    exact fun c hc => hvalue (h.2.2 c hc)
  · simp only at hk hk'
    subst hk hk'
    exact hjump h
  · simp only at hk'
    subst hk'
    exact fun c hc => absurd hc List.not_mem_nil

/-- The statements of the innermost block, and the ones in them, refer only to
what is declared above them in the blocks around them. -/
inductive Tree.Scoped (t : Tree) (rules : Rules) (o : Surroundings) (wrong : Prop) :
    List BlockView → List NodeId → Prop where
  | nil {blocks : List BlockView} : Scoped t rules o wrong blocks []
  | cons {b : BlockView} {outer : List BlockView} {id : NodeId} {rest : List NodeId} {s : StmtNode}
    (h : t.stmt? id = some s)
    (hterms : ∀ c ∈ s.kind.terms, t.Sees rules o (visibleLocals (b :: outer)) c)
    (harms : ∀ x ∈ s.kind.arms, ∃ c, t.scope? x = some c)
    (hin : ∀ x ∈ s.kind.arms, ∀ c, t.scope? x = some c →
      Scoped t rules o wrong ({ scopeId := c.scopeId } :: b :: outer) c.statements)
    (hplace : t.InPlace rules o wrong b s.kind)
    (hrest : Scoped t rules o wrong (b.behind id s.kind :: outer) rest) :
    Scoped t rules o wrong (b :: outer) (id :: rest)

namespace Tree.Scoped

variable {wrong wrong' : Prop} {ids : List NodeId}

theorem grows (h : t.Scoped rules o wrong blocks ids) (hg : t.Grows P t') (hw : wrong → wrong') :
    t'.Scoped rules o wrong' blocks ids := by
  induction h with
  | nil => exact .nil
  | cons h hterms harms _ hplace _ ihin ihrest =>
    obtain ⟨s', hs', ho, -⟩ := hg.stmt? h
    have harms' := (StmtNode.arms_of_outline ho).1
    refine .cons hs' ?_ ?_ ?_ (hplace.grows hg ho hw) ?_
    · intro c hc
      exact (hterms c (StmtNode.terms_of_outline ho ▸ hc)).grows hg
    · intro x hx
      obtain ⟨c, hc⟩ := harms x (harms' ▸ hx)
      exact ⟨c, hg.scope? hc⟩
    · intro x hx c' hc'
      obtain ⟨c, hc⟩ := harms x (harms' ▸ hx)
      obtain rfl := Option.some.inj ((hg.scope? hc).symm.trans hc')
      exact ihin x (harms' ▸ hx) c hc
    · rw [StmtNode.behind_of_outline ho]
      exact ihrest

/-- A statement, and the ones behind it. -/
theorem cons_of_single {id : NodeId} {s : StmtNode} (h : t.Scoped rules o wrong (b :: outer) [id])
    (hs : t.stmt? id = some s) (g : t.Scoped rules o wrong (b.behind id s.kind :: outer) ids) :
    t.Scoped rules o wrong (b :: outer) (id :: ids) := by
  cases h with
  | cons h hterms harms hin hplace _ =>
    obtain rfl := Option.some.inj (hs.symm.trans h)
    exact .cons hs hterms harms hin hplace g

end Tree.Scoped

end Lsl
