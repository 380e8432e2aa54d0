/- # What is emitted for a body

A statement is left out, or it becomes one statement of the host, with the code
of its expressions and of its scopes in the order they are written. So the code
of a body can be gone through together with the body: at every place of the code
there stands what a statement of the script became, with the blocks around it
and the declarations above it that are emitted.

Key definitions: `Tree.Yields`, `Tree.Becomes`, `Tree.Emits`, `Tree.Stands`.
Key theorems: `stmtCode_becomes`, `hostBody_emits`, `Tree.Emits.stands`.
-/
import Lsl.Proofs.Generate.Total
import Lsl.Proofs.Host.Spots
import Lsl.Proofs.Scoping.Layout

namespace Lsl

variable {α β : Type} {t : Tree} {checkpoints : Bool}

open Generator

/-! ### One statement -/

namespace StmtKind

/-- The local variable that a statement declares, by its scope and its name. -/
def declared? : StmtKind → Option (Nat × String)
  | declare v => some (v.declaredIn, v.name)
  | _ => none

/-- The label that a statement jumps to. -/
def goto? : StmtKind → Option String
  | jump name _ _ => some name
  | _ => none

/-- The label that a statement is. -/
def label? : StmtKind → Option String
  | label name _ => some name
  | _ => none

/-- Nothing may be left of the statement though it is not dead. -/
def MayVanish : StmtKind → Prop
  | empty | expr _ => True
  | label _ jumps => jumps = []
  | _ => False

end StmtKind

/-- The code of an expression whose value is used, as it stands in a statement. -/
def Tree.Yields (t : Tree) (c : NodeId) (e : HostExpr) : Prop :=
  ∃ code, (hostExpr t false .value c).Gives code
    ∧ (e = code ∨ e = .toBool code ∨ e = .keyToBool code)

/-- What a statement becomes, its scopes apart. -/
structure Tree.Becomes (t : Tree) (k : StmtKind) (x : HostStmt) : Prop where
  declared : x.declared? = k.declared?
  goto : x.goto? = k.goto?
  label : x.label? = k.label?
  jumped : ∀ name, k ≠ .label name []
  clauses : List.Forall₂ (fun c e => (hostStatement t c).Gives e) k.clauses x.clauses
  values : List.Forall₂ t.Yields k.values x.values
    ∨ k.values = [] ∧ ∃ ty e, (defaultValue ty).Gives e ∧ x.values = [e]

theorem yields_of_hostExpr {c : NodeId} {e : HostExpr} (h : (hostExpr t false .value c).Gives e) :
    t.Yields c e := ⟨e, h, .inl rfl⟩

theorem yields_of_hostCondition {c : NodeId} {e : HostExpr} (h : (hostCondition t c).Gives e) :
    t.Yields c e := by
  obtain ⟨code, hcode, he⟩ := h.bind
  refine ⟨code, hcode, ?_⟩
  rw [← he.pure]
  split <;> simp

theorem yields_of_hostOption {code : NodeId → Generator HostExpr} {value : Option NodeId}
    {e : Option HostExpr} (hc : ∀ {c e}, (code c).Gives e → t.Yields c e)
    (h : (hostOption code value).Gives e) : List.Forall₂ t.Yields value.toList e.toList := by
  cases value with
  | none =>
    obtain rfl := h.pure
    exact .nil
  | some c =>
    obtain ⟨a, ha, he⟩ := h.bind
    obtain rfl := he.pure
    exact .cons (hc ha) .nil

/-- A clause is the code of an expression, maybe as the argument of a helper. -/
theorem code_of_hostStatement {c : NodeId} {e : HostExpr} (h : (hostStatement t c).Gives e) :
    ∃ n, t.expr? c = some n ∧ (n.kind.writes = true ∧ (hostExpr t false .statement c).Gives e
      ∨ n.kind.writes = false ∧ ∃ code, (hostExpr t false .value c).Gives code ∧ e = .force code) := by
  obtain ⟨n, hn, h⟩ := h.bind
  refine ⟨n, hn.expect, ?_⟩
  split at h
  · rename_i hw
    exact .inl ⟨hw, h⟩
  · rename_i hw
    obtain ⟨code, hcode, he⟩ := h.bind
    exact .inr ⟨by simpa using hw, code, hcode, he.pure.symm⟩

/-- Two relations one after the other, with what stands between them. -/
theorem exists_of_forall₂_comp {γ : Type} {R : α → β → Prop} {S : β → γ → Prop} {as : List α}
    {cs : List γ} (h : List.Forall₂ (fun a c => ∃ b, R a b ∧ S b c) as cs) :
    ∃ bs, List.Forall₂ R as bs ∧ List.Forall₂ S bs cs := by
  induction h with
  | nil => exact ⟨[], .nil, .nil⟩
  | cons hone _ ih =>
    obtain ⟨b, hr, hs⟩ := hone
    obtain ⟨bs, hrs, hss⟩ := ih
    exact ⟨b :: bs, .cons hr hrs, .cons hs hss⟩

theorem forall₂_single {R : α → β → Prop} {a : α} {b : β} (h : R a b) : List.Forall₂ R [a] [b] :=
  .cons h .nil

/-- The further conditions of a branch and their bodies. -/
theorem yields_of_arms {body : BodyCode} {elseIfs : List (NodeId × NodeId)} {arms : List HostArm}
    (h : (elseIfs.mapM (hostArm t body)).Gives arms) :
    List.Forall₂ t.Yields (elseIfs.map (·.1)) (arms.map (·.cond))
      ∧ List.Forall₂ (fun a b => (body a).Gives b) (elseIfs.map (·.2)) (arms.map (·.body)) := by
  have hboth : List.Forall₂ (fun a (b : HostArm) => t.Yields a.1 b.cond ∧ (body a.2).Gives b.body)
      elseIfs arms := by
    refine h.mapM.imp fun a b hb => ?_
    obtain ⟨cond, hcond, hb⟩ := hb.bind
    obtain ⟨code, hcode, hb⟩ := hb.bind
    obtain rfl := hb.pure
    exact ⟨yields_of_hostCondition hcond, hcode⟩
  rw [List.forall₂_map_left_iff, List.forall₂_map_right_iff, List.forall₂_map_left_iff,
    List.forall₂_map_right_iff]
  exact ⟨hboth.imp fun _ _ h => h.1, hboth.imp fun _ _ h => h.2⟩

/-- **What a statement becomes.** The code of its scopes stands in it in their order. -/
theorem stmtCode_becomes {body : BodyCode} {k : StmtKind} {code : List HostStmt}
    (h : (stmtCode t checkpoints body k).Gives code) :
    (code = [] ∧ k.MayVanish)
      ∨ ∃ x, code = [x] ∧ t.Becomes k x ∧ List.Forall₂ (fun a b => (body a).Gives b) k.arms x.bodies := by
  cases k with
  | empty => exact .inl ⟨h.pure.symm, trivial⟩
  | expr value =>
    simp only [stmtCode] at h
    split at h
    · obtain ⟨e, he, hx⟩ := h.bind
      obtain rfl := hx.pure
      exact .inr ⟨_, rfl, ⟨rfl, rfl, rfl, by simp, forall₂_single he, .inl .nil⟩, .nil⟩
    · exact .inl ⟨h.pure.symm, trivial⟩
  | declare v =>
    obtain ⟨e, he, hx⟩ := h.bind
    obtain rfl := hx.pure
    refine .inr ⟨_, rfl, ⟨rfl, rfl, rfl, by simp, .nil, ?_⟩, .nil⟩
    unfold initialValue at he
    cases hv : v.init with
    | some init =>
      rw [hv] at he
      simp only [StmtKind.values, hv]
      exact .inl (forall₂_single (yields_of_hostExpr he))
    | none =>
      rw [hv] at he
      exact .inr ⟨by simp [StmtKind.values, hv], v.ty, e, he, rfl⟩
  | ret value =>
    obtain ⟨e, he, hx⟩ := h.bind
    obtain rfl := hx.pure
    exact .inr ⟨_, rfl, ⟨rfl, rfl, rfl, by simp, .nil,
      .inl (yields_of_hostOption yields_of_hostExpr he)⟩, .nil⟩
  | jump name target always =>
    obtain rfl := h.pure
    exact .inr ⟨_, rfl, ⟨rfl, rfl, rfl, by simp, .nil, .inl .nil⟩, .nil⟩
  | label name jumps =>
    obtain rfl := h.pure
    cases jumps with
    | nil => exact .inl ⟨rfl, rfl⟩
    | cons j rest => exact .inr ⟨_, rfl, ⟨rfl, rfl, rfl, by simp, .nil, .inl .nil⟩, .nil⟩
  | stateChange target state =>
    obtain rfl := h.pure
    exact .inr ⟨_, rfl, ⟨rfl, rfl, rfl, by simp, .nil, .inl .nil⟩, .nil⟩
  | branch cond thenScope elseIfs elseScope =>
    obtain ⟨c, hc, h⟩ := h.bind
    obtain ⟨first, hfirst, h⟩ := h.bind
    obtain ⟨arms, harms, h⟩ := h.bind
    obtain ⟨hconds, hbodies⟩ := yields_of_arms harms
    have hvalues := List.Forall₂.cons (yields_of_hostCondition hc) hconds
    cases elseScope with
    | none =>
      obtain rfl := h.pure
      refine .inr ⟨_, rfl, ⟨rfl, rfl, rfl, by simp, .nil, .inl hvalues⟩, ?_⟩
      exact .cons hfirst (List.rel_append hbodies .nil)
    | some last =>
      obtain ⟨final, hfinal, h⟩ := h.bind
      obtain rfl := h.pure
      refine .inr ⟨_, rfl, ⟨rfl, rfl, rfl, by simp, .nil, .inl hvalues⟩, ?_⟩
      exact .cons hfirst (List.rel_append hbodies (forall₂_single hfinal))
  | whileLoop cond scope =>
    obtain ⟨c, hc, h⟩ := h.bind
    obtain ⟨b, hb, h⟩ := h.bind
    obtain rfl := h.pure
    exact .inr ⟨_, rfl, ⟨rfl, rfl, rfl, by simp, .nil,
      .inl (forall₂_single (yields_of_hostCondition hc))⟩,
      forall₂_single hb⟩
  | doWhile scope cond =>
    obtain ⟨b, hb, h⟩ := h.bind
    obtain ⟨c, hc, h⟩ := h.bind
    obtain rfl := h.pure
    exact .inr ⟨_, rfl, ⟨rfl, rfl, rfl, by simp, .nil,
      .inl (forall₂_single (yields_of_hostCondition hc))⟩,
      forall₂_single hb⟩
  | forLoop init cond step scope =>
    obtain ⟨i, hi, h⟩ := h.bind
    obtain ⟨c, hc, h⟩ := h.bind
    obtain ⟨s, hs, h⟩ := h.bind
    obtain ⟨b, hb, h⟩ := h.bind
    obtain rfl := h.pure
    have hclauses := List.rel_append hi.mapM hs.mapM
    have hvalues := yields_of_hostOption yields_of_hostCondition hc
    exact .inr ⟨_, rfl, ⟨rfl, rfl, rfl, by simp, hclauses, .inl hvalues⟩, forall₂_single hb⟩
  | block scope =>
    obtain ⟨b, hb, h⟩ := h.bind
    obtain rfl := h.pure
    exact .inr ⟨_, rfl, ⟨rfl, rfl, rfl, by simp, .nil, .inl .nil⟩, forall₂_single hb⟩

/-! ### Bodies -/

/-- The code of the statements of a scope. -/
inductive Tree.Emits (t : Tree) : List NodeId → List HostStmt → Prop where
  | nil : Emits t [] []
  | checkpoint {ids : List NodeId} {code : List HostStmt} (h : Emits t ids code) :
    Emits t ids (.checkpoint :: code)
  /-- A statement that is dead, or of which nothing is left. -/
  | skip {id : NodeId} {ids : List NodeId} {s : StmtNode} {code : List HostStmt}
    (hs : t.stmt? id = some s)
    (hskip : s.info.dead.isDead = true ∧ s.kind.isLabel = false ∨ s.kind.MayVanish)
    (hrest : Emits t ids code) : Emits t (id :: ids) code
  /-- A statement with the code of its scopes. -/
  | keep {id : NodeId} {ids : List NodeId} {s : StmtNode} {x : HostStmt} {code : List HostStmt}
    (hs : t.stmt? id = some s) (hlive : s.info.dead.isDead = true → s.kind.isLabel = true)
    (hx : t.Becomes s.kind x) (hbodies : s.kind.arms.length = x.bodies.length)
    (harms : ∀ a ∈ s.kind.arms, ∃ c, t.scope? a = some c)
    (hin : ∀ a body, (a, body) ∈ s.kind.arms.zip x.bodies → ∀ c, t.scope? a = some c →
      Emits t c.statements body)
    (hrest : Emits t ids code) : Emits t (id :: ids) (x :: code)

/-- The code of one statement, in front of the code behind it. -/
theorem hostStmt_emits {body : BodyCode} {id : NodeId} {ids : List NodeId}
    {code rest : List HostStmt} (h : (hostStmt t checkpoints body id).Gives code)
    (hbody : ∀ a b, (body a).Gives b → ∃ c, t.scope? a = some c ∧ t.Emits c.statements b)
    (hrest : t.Emits ids rest) : t.Emits (id :: ids) (code ++ rest) := by
  obtain ⟨s, hs, h⟩ := h.bind
  have hs := hs.expect
  split at h
  · rename_i hdead
    obtain rfl := h.pure
    exact .skip hs (.inl (by simpa using hdead)) hrest
  · rename_i hdead
    rcases stmtCode_becomes h with ⟨rfl, hvanish⟩ | ⟨x, rfl, hx, hbodies⟩
    · exact .skip hs (.inr hvanish) hrest
    · obtain ⟨hlength, hzip⟩ := List.forall₂_iff_zip.mp hbodies
      refine .keep hs (by simpa using hdead) hx hlength (fun a ha => ?_) (fun a b hab c hc => ?_) hrest
      · obtain ⟨b, -, hb⟩ := exists_of_forall₂_left hbodies ha
        obtain ⟨c, hc, -⟩ := hbody a b hb
        exact ⟨c, hc⟩
      · obtain ⟨c', hc', hemits⟩ := hbody a b (hzip hab)
        obtain rfl := Option.some.inj (hc'.symm.trans hc)
        exact hemits

theorem hostStmts_emits {body : BodyCode} {ids : List NodeId} {codes : List (List HostStmt)}
    (h : List.Forall₂ (fun id code => (hostStmt t checkpoints body id).Gives code) ids codes)
    (hbody : ∀ a b, (body a).Gives b → ∃ c, t.scope? a = some c ∧ t.Emits c.statements b) :
    t.Emits ids codes.flatten := by
  induction h with
  | nil => exact .nil
  | cons hone _ ih => exact hostStmt_emits hone hbody ih

theorem hostBodyWithin_emits : ∀ (depth : Nat) {id : NodeId} {code : List HostStmt},
    (hostBodyWithin t checkpoints depth id).Gives code →
      ∃ c, t.scope? id = some c ∧ t.Emits c.statements code
  | 0, _, _, h => absurd h not_gives_throw
  | depth + 1, id, code, h => by
    obtain ⟨c, hc, h⟩ := h.bind
    obtain ⟨stmts, hstmts, h⟩ := h.bind
    obtain rfl := h.pure
    have hcode : t.Emits c.statements stmts.flatten :=
      hostStmts_emits hstmts.mapM fun _ _ hb => hostBodyWithin_emits depth hb
    refine ⟨c, hc.expect, ?_⟩
    split
    · exact .checkpoint hcode
    · exact hcode

theorem hostBody_emits {id : NodeId} {code : List HostStmt} {c : CodeScope}
    (h : (hostBody t checkpoints id).Gives code) (hc : t.scope? id = some c) :
    t.Emits c.statements code := by
  obtain ⟨c', hc', hemits⟩ := hostBodyWithin_emits _ h
  obtain rfl := Option.some.inj (hc'.symm.trans hc)
  exact hemits

/-! ### Places in the code of a body -/

variable {script : Script} {library : Catalog} {roots : List NodeId} {rules : Rules}
  {o : Surroundings} {wrong : Prop} {visible : List (String × NodeId)} {before : List HostStmt}
  {blocks : List (List HostStmt)} {body x id : NodeId}

/-- The variables that can be seen have their names, and are declared before unless
they are dead. -/
def Tree.Declared (t : Tree) (visible : List (String × NodeId)) (before : List HostStmt) : Prop :=
  ∀ x ∈ visible, ∃ v, t.var? x.2 = some v ∧ v.name = x.1 ∧ (t.isDeadDeclaration x.2 = false →
    ∃ s ∈ before, s.declared? = some (v.declaredIn, v.name))

/-- The scopes that the node lies within are emitted as some of these blocks. -/
def Tree.Surrounds (t : Tree) (x : NodeId) (blocks : List (List HostStmt)) : Prop :=
  ∀ y c, t.scope? y = some c → t.Within x y → ∃ block ∈ blocks, t.Emits c.statements block

/-- At a place in the code of a body stands what a statement of the body became. -/
structure Tree.Stands (t : Tree) (rules : Rules) (o : Surroundings) (wrong : Prop) (body : NodeId)
    (spot : Spot) (id : NodeId) (s : StmtNode) : Prop where
  stmt : t.stmt? id = some s
  within : t.Within id body
  live : s.info.dead.isDead = true → s.kind.isLabel = true
  becomes : t.Becomes s.kind spot.stmt
  place : ∃ b, t.InPlace rules o wrong b s.kind
  sees : ∃ visible, t.Declared visible spot.before ∧ ∀ c ∈ s.kind.terms, t.Sees rules o visible c
  around : t.Surrounds id spot.blocks

namespace Tree

theorem Declared.mono {more : List HostStmt} (h : t.Declared visible before)
    (hsub : before ⊆ more) : t.Declared visible more := by
  intro x hx
  obtain ⟨v, hv, hname, hdecl⟩ := h x hx
  refine ⟨v, hv, hname, fun hlive => ?_⟩
  obtain ⟨s, hs, hs'⟩ := hdecl hlive
  exact ⟨s, hsub hs, hs'⟩

/-- A declaration that comes next is dead, or is emitted. -/
theorem Declared.behind {b : BlockView} {outer : List BlockView} {s : StmtNode}
    (h : t.Declared (visibleLocals (b :: outer)) before) (hs : t.stmt? id = some s)
    (hdecl : ∀ v, s.kind = .declare v → s.info.dead.isDead = false →
      ∃ x ∈ before, x.declared? = some (v.declaredIn, v.name)) :
    t.Declared (visibleLocals (b.behind id s.kind :: outer)) before := by
  rcases s with ⟨kind, info⟩
  cases kind with
  | declare v =>
    intro x hx
    simp only [visibleLocals, BlockView.behind, List.flatMap_cons, List.append_assoc,
      List.mem_append, List.mem_singleton] at hx
    rcases hx with hx | rfl | hx
    · exact h x (List.mem_append_left _ hx)
    · refine ⟨v, by rw [var?, stmt?_eq_some.mp hs]; rfl, rfl, fun hlive => hdecl v rfl ?_⟩
      simpa [isDeadDeclaration, hs, StmtKind.isDeclaration] using hlive
    · exact h x (List.mem_append_right _ hx)
  | _ => exact h

theorem Surrounds.of_parent (h : t.Surrounds x blocks) (hp : t.parent? id = some x)
    (hid : t.scope? id = none) : t.Surrounds id blocks := by
  intro y c hc hin
  rcases Relation.ReflTransGen.cases_head hin with rfl | ⟨q, hq, hrest⟩
  · simp [hid] at hc
  · obtain rfl := Option.some.inj (hp.symm.trans hq)
    exact h y c hc hrest

theorem Surrounds.scope {code : List HostStmt} {c : CodeScope} (h : t.Surrounds id blocks)
    (hp : t.parent? x = some id) (hx : t.scope? x = some c) (hcode : t.Emits c.statements code) :
    t.Surrounds x (code :: blocks) := by
  intro y d hd hin
  rcases Relation.ReflTransGen.cases_head hin with rfl | ⟨q, hq, hrest⟩
  · obtain rfl := Option.some.inj (hx.symm.trans hd)
    exact ⟨code, List.mem_cons_self, hcode⟩
  · obtain rfl := Option.some.inj (hp.symm.trans hq)
    obtain ⟨block, hblock, hemits⟩ := h y d hd hrest
    exact ⟨block, List.mem_cons_of_mem _ hblock, hemits⟩

theorem scope?_of_stmt? {s : StmtNode} (h : t.stmt? id = some s) : t.scope? id = none := by
  rw [scope?, stmt?_eq_some.mp h]
  rfl

/-- **Every place in the code of a body is understood.** The induction is on how
the code comes about; what can be seen grows with every declaration, and what
stands before with every statement that is emitted. -/
theorem Emits.stands (hshape : t.Shaped script library roots) {ids : List NodeId}
    {code : List HostStmt} (h : t.Emits ids code) :
    ∀ {b : BlockView} {outer : List BlockView} {before : List HostStmt}
      {blocks : List (List HostStmt)} {x : NodeId},
      t.Scoped rules o wrong (b :: outer) ids → (∀ id ∈ ids, t.parent? id = some x) →
      t.Within x body → t.Declared (visibleLocals (b :: outer)) before → t.Surrounds x blocks →
      ∀ spot ∈ HostStmt.spotsOf before blocks code,
        spot.stmt = .checkpoint ∨ ∃ id s, t.Stands rules o wrong body spot id s := by
  induction h with
  | nil => exact fun _ _ _ _ _ spot hspot => by cases hspot
  | checkpoint _ ih =>
    intro b outer before blocks x hscoped hparent hx hdecl hround spot hspot
    rw [HostStmt.spotsOf_cons] at hspot
    rcases List.mem_cons.mp hspot with rfl | hspot
    · exact .inl rfl
    · exact ih hscoped hparent hx (hdecl.mono (List.subset_append_left _ _)) hround spot hspot
  | skip hs hskip _ ih =>
    intro b outer before blocks x hscoped hparent hx hdecl hround spot hspot
    cases hscoped with
    | cons hs' hterms harms hin hplace hrest =>
      obtain rfl := Option.some.inj (hs.symm.trans hs')
      refine ih hrest (fun id hid => hparent id (List.mem_cons_of_mem _ hid)) hx
        (hdecl.behind hs fun v hv hlive => ?_) hround spot hspot
      rw [hv] at hskip
      simp [hlive, StmtKind.MayVanish] at hskip
  | @keep id ids s x code hs hlive hbecomes hbodies _ hcode hrest ihin ih =>
    intro b outer before blocks y hscoped hparent hy hdecl hround spot hspot
    cases hscoped with
    | cons hs' hterms harms hin hplace hbehind =>
      obtain rfl := Option.some.inj (hs.symm.trans hs')
      have hp := hparent id List.mem_cons_self
      have hin' : t.Within id body := .head hp hy
      have hround' := hround.of_parent hp (scope?_of_stmt? hs)
      rw [HostStmt.spotsOf_cons] at hspot
      rcases List.mem_append.mp hspot with hspot | hspot
      · rcases List.mem_cons.mp hspot with rfl | hspot
        · exact .inr ⟨id, s, hs, hin', hlive, hbecomes, ⟨b, hplace⟩, ⟨_, hdecl, hterms⟩, hround'⟩
        · obtain ⟨inner, hmem, hspot⟩ := List.mem_flatMap.mp hspot
          obtain ⟨a, ha, hzip⟩ := exists_of_forall₂_right
            (List.forall₂_iff_zip.mpr ⟨hbodies, fun hab => hab⟩) hmem
          obtain ⟨c, hc⟩ := harms a ha
          have hpa : t.parent? a = some id := by
            refine hshape.links id a ?_
            rw [children_of_kind? (stmt?_eq_some.mp hs)]
            exact (StmtKind.arms_sublist _).subset ha
          have hpc : ∀ s' ∈ c.statements, t.parent? s' = some a := fun s' hs' => by
            refine hshape.links a s' ?_
            rw [children_of_kind? (scope?_eq_some.mp hc)]
            exact hs'
          exact ihin a inner hzip c hc (hin a ha c hc) hpc (.head hpa hin') hdecl
            (hround'.scope hpa hc (hcode a inner hzip c hc)) spot hspot
      · refine ih hbehind (fun id hid => hparent id (List.mem_cons_of_mem _ hid)) hy
          ((hdecl.mono (List.subset_append_left _ _)).behind hs fun v hv _ => ?_) hround spot hspot
        refine ⟨x, List.mem_append_right _ List.mem_cons_self, ?_⟩
        rw [hbecomes.declared, hv]
        rfl

/-- The way through a scope on its own. -/
theorem Visits.of_scope {c : CodeScope} {scopes : List Nat} {labels : List NodeId}
    (h : t.Visits [id] scopes labels) (hc : t.scope? id = some c) :
    ∃ inner, scopes = c.scopeId :: inner ∧ t.Visits c.statements inner labels := by
  cases h with
  | stmt hs => simp [scope?_of_stmt? hs] at hc
  | scope hc' hin hrest =>
    obtain rfl := Option.some.inj (hc.symm.trans hc')
    cases hrest
    exact ⟨_, by rw [List.append_nil], by rwa [List.append_nil]⟩

/-- What holds of the code of each scope of a statement, and carries over from pieces
to the whole, holds of the code of all of them. -/
theorem Visits.over_arms {γ : Type} {Q : List Nat → List NodeId → List γ → Prop}
    {f : List HostStmt → List γ} (hnil : Q [] [] [])
    (happend : ∀ {scopes labels found scopes' labels' found'}, Q scopes labels found →
      Q scopes' labels' found' → Q (scopes ++ scopes') (labels ++ labels') (found ++ found'))
    {arms : List NodeId} {bodies : List (List HostStmt)} {scopes : List Nat} {labels : List NodeId}
    (hv : t.Visits arms scopes labels) (hlength : arms.length = bodies.length)
    (harms : ∀ a ∈ arms, ∃ c, t.scope? a = some c)
    (hin : ∀ a body, (a, body) ∈ arms.zip bodies → ∀ c, t.scope? a = some c →
      ∀ {scopes labels}, t.Visits c.statements scopes labels → Q (c.scopeId :: scopes) labels (f body)) :
    Q scopes labels (bodies.flatMap f) := by
  induction arms generalizing bodies scopes labels with
  | nil =>
    obtain rfl := List.eq_nil_of_length_eq_zero hlength.symm
    cases hv
    exact hnil
  | cons a rest ih =>
    rcases bodies with _ | ⟨body, bodies⟩
    · cases hlength
    obtain ⟨c, hc⟩ := harms a List.mem_cons_self
    cases hv with
    | stmt hs => simp [scope?_of_stmt? hs] at hc
    | scope hc' hstmts hrest =>
      obtain rfl := Option.some.inj (hc.symm.trans hc')
      refine happend (hin a body List.mem_cons_self c hc hstmts)
        (ih hrest (Nat.succ.inj hlength) (fun a ha => harms a (List.mem_cons_of_mem _ ha)) ?_)
      intro a' body' hab
      exact hin a' body' (List.mem_cons_of_mem _ hab)

end Tree

end Lsl
