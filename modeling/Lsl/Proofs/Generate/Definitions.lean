/- # Generated code defines what it uses

Statements that never run are left out of the code, and so are globals and
functions that nothing refers to. What is left refers only to what is left: a
local variable is declared above its uses, or a stand-in is used if its
declaration never runs; a function that is called is emitted, and so is a global
that is named, before the globals that start from it.

Key definitions: `Tree.DefinedAt`, `Tree.LocalDefined`, `Tree.Defines`.
Key theorems: `Tree.Emits.locals_distinct`, `Tree.HasGlobals.fields_in_order`,
`Script.generate_defines`.
-/
import Lsl.Proofs.Check.BackReferences
import Lsl.Proofs.Generate.Layout
import Lsl.Proofs.Generate.Methods
import Lsl.Proofs.Generate.References
import Lsl.Proofs.Typing.Soundness

namespace Lsl

open Generator

variable {script : Script} {library : Catalog} {t : Tree} {run : Run} {root body : NodeId}
  {n : ScriptNode} {checkpoints : Bool} {u : HostUnit} {m : HostMethod} {rules : Rules}
  {o : Surroundings} {block : Block} {x : HostExpr}

/-! ### Names of local variables -/

/-- The digits of a number are what stands before the first underscore. -/
theorem takeWhile_digits (k : Nat) (rest : List Char) :
    (Nat.toDigits 10 k ++ '_' :: rest).takeWhile (· != '_') = Nat.toDigits 10 k := by
  rw [List.takeWhile_append_of_pos, List.takeWhile_cons_of_neg (by simp), List.append_nil]
  intro c hc
  simpa using fun h : c = '_' => Nat.underscore_not_in_toDigits (h ▸ hc)

theorem HostName.inner_inj {k k' : Nat} {name name' : String}
    (h : HostName.inner k name = HostName.inner k' name') : k = k' ∧ name = name' := by
  have hlist := congrArg String.toList h
  simp only [HostName.inner, String.toList_append, Nat.repr_eq_ofList_toDigits,
    String.toList_ofList, List.append_assoc, List.append_cancel_left_eq] at hlist
  have hdigits : Nat.toDigits 10 k = Nat.toDigits 10 k' := by
    rw [← takeWhile_digits k name.toList, ← takeWhile_digits k' name'.toList]
    exact congrArg _ hlist
  obtain rfl : k = k' := by
    simpa using congrArg (Nat.ofDigitChars 10 · 0) hdigits
  exact ⟨rfl, String.toList_inj.mp (List.cons.inj (List.append_cancel_left hlist)).2⟩

/-! ### What a unit has to define -/

/-- The code at a place stands for a name of the variable, which is a part of the
statement that became the code there. -/
def Tree.NamedAt (t : Tree) (spot : Spot) (name : String) (d : NodeId) : Prop :=
  ∃ s stmt id e, t.stmt? s = some stmt ∧ t.Becomes stmt.kind spot.stmt ∧ t.Within id s
    ∧ t.expr? id = some e ∧ e.kind = .ref name (.inner d)

/-- A local variable in the code, at a place with these lines of its body above: it is
the stand-in for one whose declaration never runs, or the name of one that a line above
declares, in the block of the place or in one around it. -/
def Tree.LocalDefined (t : Tree) (spot : Spot) (above : List OutputLine) (depth : Nat)
    (x : HostExpr) : Prop :=
  ∃ name d v, t.NamedAt spot name d ∧ t.var? d = some v ∧ v.name = name
    ∧ (t.isDeadDeclaration d = true ∧ x = .absent v.ty ∧ v.ty ≠ .void
      ∨ t.isDeadDeclaration d = false ∧ x.render = "LV" ++ v.declaredIn.repr ++ "_" ++ name
        ∧ DeclaredAbove above depth x.render)

/-- The statement at a place is written at a depth, below lines that define its
variables. -/
structure Tree.DefinedAt (t : Tree) (call : String) (m : HostMethod) (spot : Spot)
    (above : List OutputLine) (depth : Nat) : Prop where
  shown : ∀ e ∈ spot.stmt.exprs, ∀ x ∈ e.parts,
    ∃ line ∈ spot.stmt.layout call depth, line.Shows depth x
  locals : ∀ e ∈ spot.stmt.exprs, ∀ x ∈ e.parts, x.isLocal = true →
    t.LocalDefined spot above depth x
  params : ∀ e ∈ spot.stmt.exprs, ∀ name, .param name ∈ e.parts →
    (HostExpr.param name).render = "PM_" ++ name
      ∧ ∃ ty : Ty, Text.Holds m.heading (ty.hostName ++ " " ++ ("PM_" ++ name))
  /-- Inside methods a global is reached through its container. -/
  globals : ∀ e ∈ spot.stmt.exprs, ∀ inContainer name, .global inContainer name ∈ e.parts →
    (HostExpr.global inContainer name).render = "this.Globals." ++ ("GV_" ++ name)
  declares : ∀ k name, spot.stmt.declared? = some (k, name) → ∃ (ty : Ty) (value : String),
    spot.stmt.layout call depth
      = [.code depth (ty.hostName ++ " " ++ ("LV" ++ k.repr ++ "_" ++ name) ++ " = " ++ value ++ ";")]

/-- The lines define what they use. -/
structure Tree.Defines (t : Tree) (u : HostUnit) (call : String) (lines : List OutputLine) :
    Prop where
  /-- Every method stands in the lines, and every statement in those of its method. -/
  methods : ∀ m ∈ u.methods, ∃ depth inner, m.StandsIn lines depth inner
    ∧ ∀ spot ∈ m.spots, ∃ above d behind, inner = above ++ spot.stmt.layout call d ++ behind
      ∧ t.DefinedAt call m spot above d
  /-- The local variables of a method have names of their own. -/
  distinct : ∀ m ∈ u.methods, (m.locals.map fun (k, name) => "LV" ++ k.repr ++ "_" ++ name).Nodup
  /-- A stand-in is a member of the utility class. -/
  standIns : ∀ ty : Ty, ty ≠ .void → ∃ member value depth,
    (HostExpr.absent ty).render = "UTILITIES." ++ member
      ∧ standInLine depth ty member value ∈ lines
  /-- No component of a stand-in is written to. -/
  targets : ∀ e ∈ u.exprs, ∀ x ∈ e.parts, ∀ target ∈ x.written?, target.isAbsentComponent = false
  /-- A function that is called stands in the lines. -/
  functions : ∀ e ∈ u.exprs, ∀ name args, .callFunction name args ∈ e.parts →
    (∃ rest, (HostExpr.callFunction name args).render = "FN_" ++ name ++ "(" ++ rest)
      ∧ ∃ (ty : Ty) (params : String) (depth : Nat) (inner : List OutputLine),
        [.code depth ("public " ++ ty.hostName ++ " " ++ ("FN_" ++ name) ++ "(" ++ params ++ ")"),
          .code depth "\x7b"] ++ inner ++ [.code depth "\x7d"] <:+: lines
  /-- The container of the globals stands in the lines: the fields and what sets them. -/
  container : u.globals ≠ [] → ∃ depth, containerLines depth
    (u.globals.map fun f => .code (depth + 1)
      ("public " ++ f.ty.hostName ++ " " ++ ("GV_" ++ f.name) ++ ";"))
    (u.globals.map fun f => .code (depth + 2)
      ("this." ++ ("GV_" ++ f.name) ++ " = " ++ f.value.render ++ ";")) <:+: lines
  /-- A global that is named has its field. -/
  fields : ∀ e ∈ u.exprs, ∀ inContainer name, .global inContainer name ∈ e.parts →
    ∃ f ∈ u.globals, f.name = name
  /-- A global starts from globals that are set on lines before, and from no local
  variable. -/
  order : ∀ before f after, u.globals = before ++ f :: after →
    (∀ x ∈ f.value.parts, x.isLocal = false)
      ∧ ∀ inContainer name, .global inContainer name ∈ f.value.parts →
        (HostExpr.global inContainer name).render = "this." ++ ("GV_" ++ name)
          ∧ ∃ f' ∈ before, f'.name = name

/-! ### Local variables -/

namespace Tree

variable {wrong : Prop} {visible : List (String × NodeId)}

theorem Sees.covers {id : NodeId} {e : ExprNode} {k : ExprKind} (h : t.Sees rules o visible id)
    (he : t.expr? id = some e) (hk : e.kind = k) : o.Covers visible k := by
  cases h with
  | error h => simp [expr?, h, NodeKind.expr?] at he
  | expr e' he' hc =>
    obtain rfl := Option.some.inj (he.symm.trans he')
    exact hk ▸ hc

theorem lookup_behind {b : BlockView} {id : NodeId} {k : StmtKind} {name : String}
    (h : (b.behind id k).locals.lookup name = none) :
    b.locals.lookup name = none ∧ ∀ v, k = .declare v → v.name ≠ name := by
  cases k with
  | declare v =>
    rw [BlockView.behind, List.lookup_append, Option.or_eq_none_iff] at h
    refine ⟨h.1, ?_⟩
    rintro v' hv rfl
    cases hv
    simp at h
  | _ => exact ⟨h, by simp⟩

end Tree

/-- The variables are declared in these scopes, none twice. -/
def DeclaredIn (scopes : List Nat) (found : List (Nat × String)) : Prop :=
  scopes.Nodup → found.Nodup ∧ ∀ x ∈ found, x.1 ∈ scopes

/-- The variables are declared in these scopes, or in the block under a name that is
free there, none twice. -/
def BlockView.Admits (b : BlockView) (scopes : List Nat) (found : List (Nat × String)) : Prop :=
  found.Nodup ∧ ∀ x ∈ found, x.1 = b.scopeId ∧ b.locals.lookup x.2 = none ∨ x.1 ∈ scopes

theorem DeclaredIn.append {scopes scopes' : List Nat} {found found' : List (Nat × String)}
    (h : DeclaredIn scopes found) (h' : DeclaredIn scopes' found') :
    DeclaredIn (scopes ++ scopes') (found ++ found') := by
  intro hnodup
  obtain ⟨hn, hn', hapart⟩ := List.nodup_append.mp hnodup
  obtain ⟨hdistinct, hin⟩ := h hn
  obtain ⟨hdistinct', hin'⟩ := h' hn'
  refine ⟨List.nodup_append.mpr ⟨hdistinct, hdistinct', ?_⟩, fun x hx => ?_⟩
  · rintro x hx y hy rfl
    exact hapart _ (hin x hx) _ (hin' x hy) rfl
  · rcases List.mem_append.mp hx with hx | hx
    · exact List.mem_append_left _ (hin x hx)
    · exact List.mem_append_right _ (hin' x hx)

/-- What a statement declares, what is declared in it, and what behind it. -/
theorem BlockView.Admits.behind {b : BlockView} {id : NodeId} {k : StmtKind}
    {inner more : List Nat} {rest : List (Nat × String)} (self : Option (Nat × String))
    (inside : List (Nat × String)) (hnodup : (b.scopeId :: (inner ++ more)).Nodup)
    (hself : ∀ y ∈ self, y.1 = b.scopeId ∧ b.locals.lookup y.2 = none
      ∧ ∃ v, k = .declare v ∧ v.name = y.2)
    (hinside : DeclaredIn inner inside) (hrest : (b.behind id k).Admits more rest) :
    b.Admits (inner ++ more) (self.toList ++ inside ++ rest) := by
  obtain ⟨hfresh, hnodup⟩ := List.nodup_cons.mp hnodup
  obtain ⟨hinner, hmore, hapart⟩ := List.nodup_append.mp hnodup
  obtain ⟨hdistinct, hin⟩ := hinside hinner
  obtain ⟨hdistinct', hfree⟩ := hrest
  refine ⟨List.nodup_append.mpr ⟨List.nodup_append.mpr ⟨?_, hdistinct, ?_⟩, hdistinct', ?_⟩, ?_⟩
  · cases self <;> simp
  · rintro x hx y hy rfl
    have hscope := (hself x (Option.mem_toList.mp hx)).1
    exact hfresh (List.mem_append_left _ (hscope ▸ hin x hy))
  · rintro x hx y hy rfl
    rcases hfree x hy with ⟨hscope, hlookup⟩ | hscope
    · rw [behind_scopeId] at hscope
      rcases List.mem_append.mp hx with hx | hx
      · obtain ⟨-, -, v, hk, hname⟩ := hself x (Option.mem_toList.mp hx)
        exact (Tree.lookup_behind hlookup).2 v hk hname
      · exact hfresh (List.mem_append_left _ (hscope ▸ hin x hx))
    · rcases List.mem_append.mp hx with hx | hx
      · have hself := (hself x (Option.mem_toList.mp hx)).1
        exact hfresh (List.mem_append_right _ (hself ▸ hscope))
      · exact hapart _ (hin x hx) _ hscope rfl
  · intro x hx
    rcases List.mem_append.mp hx with hx | hx
    · rcases List.mem_append.mp hx with hx | hx
      · obtain ⟨hscope, hlookup, -⟩ := hself x (Option.mem_toList.mp hx)
        exact .inl ⟨hscope, hlookup⟩
      · exact .inr (List.mem_append_left _ (hin x hx))
    · rcases hfree x hx with ⟨hscope, hlookup⟩ | hscope
      · exact .inl ⟨hscope.trans (behind_scopeId ..), (Tree.lookup_behind hlookup).1⟩
      · exact .inr (List.mem_append_right _ hscope)

namespace Tree

variable {wrong : Prop}

/-- What a statement declares is free in its block. -/
theorem Becomes.declares {b : BlockView} {s : StmtNode} {x : HostStmt} (hx : t.Becomes s.kind x)
    (hplace : t.InPlace rules o wrong b s.kind) (hright : ¬ wrong) :
    ∀ y ∈ x.declared?, y.1 = b.scopeId ∧ b.locals.lookup y.2 = none
      ∧ ∃ v, s.kind = .declare v ∧ v.name = y.2 := by
  intro y hy
  rw [hx.declared] at hy
  cases hk : s.kind with
  | declare v =>
    rw [hk] at hy hplace
    obtain rfl := Option.some.inj hy
    obtain ⟨hscope, htaken, -⟩ := hplace
    refine ⟨hscope, ?_, v, rfl, rfl⟩
    by_contra hsome
    exact hright (htaken (Option.isSome_iff_ne_none.mpr hsome))
  | _ =>
    rw [hk] at hy
    cases hy

/-- **The local variables that a body declares differ** in their scopes or in their
names. The induction is on how the code comes about; what is declared in a block
so far is not free any more. -/
theorem Emits.locals_distinct (hright : ¬ wrong) {ids : List NodeId} {code : List HostStmt}
    (h : t.Emits ids code) :
    ∀ {b : BlockView} {outer : List BlockView} {before : List HostStmt}
      {blocks : List (List HostStmt)} {scopes : List Nat} {labels : List NodeId},
      t.Scoped rules o wrong (b :: outer) ids → t.Visits ids scopes labels →
      (b.scopeId :: scopes).Nodup →
      b.Admits scopes ((HostStmt.spotsOf before blocks code).filterMap (·.stmt.declared?)) := by
  induction h with
  | nil => exact fun _ _ _ => ⟨List.nodup_nil, by simp [HostStmt.spotsOf]⟩
  | checkpoint _ ih =>
    intro b outer before blocks scopes labels hscoped hv hnodup
    rw [HostStmt.filterMap_spotsOf_cons HostStmt.declared?]
    exact ih hscoped hv hnodup
  | @skip id ids s code hs _ _ ih =>
    intro b outer before blocks scopes labels hscoped hv hnodup
    cases hscoped with
    | cons hs' _ _ _ _ hrest =>
      obtain rfl := Option.some.inj (hs.symm.trans hs')
      cases hv with
      | scope hc => simp [scope?_of_stmt? hs] at hc
      | @stmt _ _ _ inner more _ _ _ _ hvrest =>
        have hsub : ((b.behind id s.kind).scopeId :: more).Nodup := by
          rw [BlockView.behind_scopeId]
          exact hnodup.sublist ((List.sublist_append_right inner more).cons_cons _)
        exact .behind none [] hnodup (by simp)
          (fun _ => ⟨List.nodup_nil, by simp⟩) (ih hrest hvrest hsub)
  | @keep id ids s x code hs _ hx hlength harms _ _ ihin ih =>
    intro b outer before blocks scopes labels hscoped hv hnodup
    cases hscoped with
    | cons hs' _ _ hin hplace hrest =>
      obtain rfl := Option.some.inj (hs.symm.trans hs')
      cases hv with
      | scope hc => simp [scope?_of_stmt? hs] at hc
      | @stmt _ _ _ inner more _ _ hs'' hvarms hvrest =>
        obtain rfl := Option.some.inj (hs.symm.trans hs'')
        have hinside := hvarms.over_arms (Q := fun scopes _ found => DeclaredIn scopes found)
          (f := fun body =>
            (HostStmt.spotsOf before (body :: blocks) body).filterMap (·.stmt.declared?))
          (fun _ => ⟨List.nodup_nil, by simp⟩) DeclaredIn.append hlength harms
          (fun a body hab c hc _ _ hv hn => by
            obtain ⟨hd, hfound⟩ := ihin a body hab c hc (hin a (List.of_mem_zip hab).1 c hc) hv hn
            refine ⟨hd, fun y hy => ?_⟩
            rcases hfound y hy with ⟨hy, -⟩ | hy
            · exact hy ▸ List.mem_cons_self
            · exact List.mem_cons_of_mem _ hy)
        have hsub : ((b.behind id s.kind).scopeId :: more).Nodup := by
          rw [BlockView.behind_scopeId]
          exact hnodup.sublist ((List.sublist_append_right inner more).cons_cons _)
        rw [HostStmt.filterMap_spotsOf_cons HostStmt.declared?]
        exact .behind x.declared? _ hnodup (hx.declares hplace hright) hinside (ih hrest hvrest hsub)

end Tree

namespace Run.Emitted

/-- The local variables of a method have names of their own. -/
theorem locals_nodup (h : run.Emitted script root checkpoints m rules o block body)
    (hright : ¬ run.Wrong) : (m.locals.map fun x => HostName.inner x.1 x.2).Nodup := by
  obtain ⟨c, scopes, labels, -, hemits, hscoped, hvisits, hnodup, -⟩ := h.laysOut
  obtain ⟨hdistinct, -⟩ : BlockView.Admits { scopeId := c.scopeId } scopes m.locals :=
    hemits.locals_distinct hright hscoped hvisits hnodup
  refine hdistinct.map_on ?_
  rintro ⟨k, name⟩ - ⟨k', name'⟩ - heq
  obtain ⟨rfl, rfl⟩ := HostName.inner_inj heq
  rfl

/-- What is in the code of a method is brought by expressions that see what is
declared there. -/
theorem brings (h : run.Emitted script root checkpoints m rules o block body)
    (hclean : run.Clean library script root n) {spot : Spot} (hspot : spot ∈ m.spots) {e : HostExpr}
    (he : e ∈ spot.stmt.exprs) (hx : x ∈ e.parts) (hglue : x.isGlue = false) :
    ∃ visible s stmt id node, run.tree.Declared visible spot.before
      ∧ run.tree.stmt? s = some stmt ∧ run.tree.Becomes stmt.kind spot.stmt
      ∧ run.tree.Within id s ∧ run.tree.Sees rules o visible id ∧ run.tree.expr? id = some node
      ∧ run.tree.Brings false node x := by
  obtain ⟨roots, hshape⟩ := hclean.shaped
  rcases h.stands hshape hspot with hcheck | ⟨s, stmt, hstands⟩
  · rw [hcheck] at he
    cases he
  · obtain ⟨visible, hdeclared, hsees⟩ := hstands.sees
    rcases hstands.becomes.brings hshape hsees he hx with
      hx | ⟨c, hc, id, node, hin, hsees, hnode, hbrings⟩
    · simp [hx] at hglue
    · have hparent : run.tree.parent? c = some s := by
        refine hshape.links s c ?_
        rw [Tree.children_of_kind? (Tree.stmt?_eq_some.mp hstands.stmt)]
        exact StmtKind.terms_subset hc
      exact ⟨visible, s, stmt, id, node, hdeclared, hstands.stmt, hstands.becomes,
        hin.trans (.of_parent hparent), hsees, hnode, hbrings⟩

theorem localDefined (h : run.Emitted script root checkpoints m rules o block body)
    (hclean : run.Clean library script root n) {spot : Spot} (hspot : spot ∈ m.spots) {e : HostExpr}
    (he : e ∈ spot.stmt.exprs) (hx : x ∈ e.parts) (hlocal : x.isLocal = true)
    {above : List OutputLine} {depth : Nat} (habove : DeclaredBy spot.before above depth) :
    run.tree.LocalDefined spot above depth x := by
  obtain ⟨visible, s, stmt, id, node, hdeclared, hs, hbecomes, hin, hsees, hnode, hbrings⟩ :=
    h.brings hclean hspot he hx (by cases x <;> first | rfl | cases hlocal)
  obtain ⟨name, d, hk, hcode⟩ := hbrings.of_local hlocal
  have hmem : (name, d) ∈ visible := hsees.covers hnode hk
  obtain ⟨v, hv, hname, hbefore⟩ := hdeclared (name, d) hmem
  simp only at hname
  rw [hname] at hbefore
  obtain ⟨v', hv', hty⟩ := hclean.sound.names id node name _ d hnode hk rfl
  obtain rfl := Option.some.inj (hv.symm.trans hv')
  refine ⟨name, d, v, ⟨s, stmt, id, node, hs, hbecomes, hin, hnode, hk⟩, hv, hname, ?_⟩
  rcases hcode with ⟨hdead, hvoid, rfl⟩ | ⟨hlive, v'', hv'', rfl⟩
  · exact .inl ⟨hdead, by rw [hty], hty ▸ hvoid⟩
  · obtain rfl := Option.some.inj (hv.symm.trans hv'')
    obtain ⟨s', hs', hdecl⟩ := hbefore hlive
    exact .inr ⟨hlive, rfl, habove s' hs' _ _ hdecl⟩

theorem mem_params (h : run.Emitted script root checkpoints m rules o block body)
    (hclean : run.Clean library script root n) {spot : Spot} (hspot : spot ∈ m.spots) {e : HostExpr}
    (he : e ∈ spot.stmt.exprs) {name : String} (hx : .param name ∈ e.parts) :
    ∃ ty, (ty, name) ∈ m.params := by
  obtain ⟨_, _, _, id, node, -, -, -, -, hsees, hnode, hbrings⟩ := h.brings hclean hspot he hx rfl
  obtain ⟨d, hk⟩ := hbrings.of_param
  have hmem : (name, d) ∈ o.params := hsees.covers hnode hk
  exact h.params _ hmem

/-- A statement that is written below what is declared before it, has its variables
defined. -/
theorem definedAt (h : run.Emitted script root checkpoints m rules o block body)
    (hclean : run.Clean library script root n) {spot : Spot} (hspot : spot ∈ m.spots)
    {above : List OutputLine} {depth : Nat} (habove : DeclaredBy spot.before above depth)
    (call : String) : run.tree.DefinedAt call m spot above depth where
  shown e he x hx := by
    have hshown : ∃ line ∈ spot.stmt.layout call depth, line.Shows depth e :=
      HostStmt.shows_exprs he
    obtain ⟨line, hline, text, rfl, htext⟩ := hshown
    exact ⟨_, hline, text, rfl, htext.trans (HostExpr.holds_parts hx)⟩
  locals e he x hx hlocal := h.localDefined hclean hspot he hx hlocal habove
  params e he name hx := by
    obtain ⟨ty, hparam⟩ := h.mem_params hclean hspot he hx
    have hlisted := Text.Holds.intercalate ", " (List.mem_map_of_mem
      (f := fun p => Ty.hostName p.1 ++ " " ++ HostName.param p.2) hparam)
    exact ⟨rfl, ty, (hlisted.left _).right _⟩
  globals e he inContainer name hx := by
    obtain ⟨_, _, _, id, node, -, -, -, -, -, -, hbrings⟩ := h.brings hclean hspot he hx rfl
    obtain ⟨rfl, -⟩ := hbrings.of_global
    rfl
  declares k name hdecl := by
    rcases spot with ⟨stmt, before, blocks⟩
    cases stmt with
    | declare ty k' name' value =>
      cases hdecl
      exact ⟨ty, value.render, rfl⟩
    | _ => cases hdecl

end Run.Emitted

/-! ### What is written to -/

/-- The code of a name has no component. -/
theorem Tree.NameCode.bare {t : Tree} {inContainer : Bool} {name : String} {ty : Ty} {e : HostExpr}
    {binding : Binding} (h : t.NameCode inContainer name ty e binding)
    (hvar : binding.isConstant = false) : e.bare = e ∧ e.isName = true := by
  cases binding with
  | global d | param d =>
    obtain rfl := h
    exact ⟨rfl, rfl⟩
  | inner d =>
    rcases h with ⟨-, -, rfl⟩ | ⟨-, v, -, rfl⟩
    · exact ⟨rfl, rfl⟩
    · exact ⟨rfl, rfl⟩
  | constant k => cases hvar

theorem Tree.nameCode_of_isVariable {t : Tree} {inContainer : Bool} {depth : Nat} {pos : Position}
    {id : NodeId} {code : HostExpr} (h : t.IsVariable id)
    (hcode : (hostExprWithin t inContainer depth pos id).Gives code) :
    ∃ name binding ty k, t.expr? id = some ⟨.ref name binding, ty, k⟩
      ∧ binding.isConstant = false ∧ t.NameCode inContainer name ty code binding := by
  obtain ⟨name, binding, ty, k, he, hvar⟩ := h
  cases depth with
  | zero => exact absurd hcode not_gives_throw
  | succ depth =>
    rw [hostExprWithin, he] at hcode
    exact ⟨name, binding, ty, k, he, hvar, referenceCode_nameCode hcode⟩

theorem Tree.unparen_of_ref {t : Tree} {id : NodeId} {name : String} {binding : Binding} {ty : Ty}
    {k : Bool} (h : t.expr? id = some ⟨.ref name binding, ty, k⟩) : t.unparen id = id := by
  unfold unparen
  cases t.size with
  | zero => rfl
  | succ size => simp [stripParens, h]

/-- No component of a stand-in is written to: what is written is a variable, or a
component of one whose declaration is not dead. -/
theorem Tree.Sound.not_isAbsentComponent (h : t.Sound library) {inContainer : Bool} {id : NodeId}
    {e : ExprNode} (he : t.expr? id = some e) (hbrings : t.Brings inContainer e x)
    {target : HostExpr} (hx : x.written? = some target) : target.isAbsentComponent = false := by
  obtain ⟨depth, c, hc, hlive, hcode⟩ := hbrings.of_written hx
  rcases h.places id e he c hc with hvar | ⟨object, part, ty, k, hcomponent, hvar⟩
  · obtain ⟨name, binding, ty, k, -, hconstant, hname⟩ := nameCode_of_isVariable hvar hcode
    obtain ⟨hbare, hname⟩ := hname.bare hconstant
    rw [HostExpr.isAbsentComponent, hbare]
    cases target <;> first | rfl | cases hname
  · cases depth with
    | zero => exact absurd hcode not_gives_throw
    | succ depth =>
      rw [hostExprWithin, hcomponent] at hcode
      obtain ⟨n', hn', hcode⟩ := hcode.bind
      obtain rfl := Option.some.inj (hn'.expect)
      obtain ⟨code, hobject, hcode⟩ := hcode.bind
      obtain rfl := hcode.pure
      obtain ⟨name, binding, ty', k', hnode, hconstant, hname⟩ :=
        nameCode_of_isVariable hvar hobject
      -- a component is no integer, so the variable is not dead
      obtain ⟨rfl, -⟩ := h.typed c _ hcomponent
      have hlive : t.isDeadComponent c = false :=
        hlive.resolve_right (by simp [exprType, hcomponent])
      simp only [isDeadComponent, hcomponent, unparen_of_ref hnode, hnode] at hlive
      cases binding with
      | global d | param d =>
        obtain rfl := hname
        rfl
      | inner d =>
        rcases hname with ⟨hdead, -, rfl⟩ | ⟨-, v, -, rfl⟩
        · simp [hdead] at hlive
        · rfl
      | constant k => cases hconstant

/-! ### Functions and globals -/

theorem hostFunction_name {f : FunctionNode} (h : (hostFunction t checkpoints f).Gives m) :
    m.name = HostName.function f.name := by
  obtain ⟨params, -, h⟩ := h.bind
  split at h
  · exact absurd h not_gives_throw
  · obtain ⟨code, -, h⟩ := h.bind
    obtain rfl := h.pure
    rfl

theorem Tree.NotesUses.uses_of_ref (h : t.NotesUses) {id d : NodeId} {e : ExprNode} {name : String}
    (he : t.expr? id = some e) (hk : e.kind = .ref name (.global d)) : t.uses d ≠ [] := by
  rcases e with ⟨kind, ty, k⟩
  obtain rfl := hk
  exact List.ne_nil_of_mem ((h id d).mpr (StandsFor.target? ⟨name, _, ty, k, he, rfl⟩))

theorem Tree.NotesUses.uses_of_call (h : t.NotesUses) {id f : NodeId} {e : ExprNode} {name : String}
    {args : List NodeId} (he : t.expr? id = some e) (hk : e.kind = .call name args (.user f)) :
    t.uses f ≠ [] := by
  rcases e with ⟨kind, ty, k⟩
  obtain rfl := hk
  exact List.ne_nil_of_mem ((h id f).mpr (Calls.target? ⟨name, args, ty, k, he⟩))

/-- The fields of globals, one after the other: those of the globals that are
referred to. -/
inductive Tree.HasFields (t : Tree) : List NodeId → List HostField → Prop where
  | nil : HasFields t [] []
  | skip {id : NodeId} {ids : List NodeId} {v : Variable} {fields : List HostField}
    (hv : t.var? id = some v) (hunused : v.references = []) (hrest : HasFields t ids fields) :
    HasFields t (id :: ids) fields
  | keep {id : NodeId} {ids : List NodeId} {v : Variable} {f : HostField} {fields : List HostField}
    (hv : t.var? id = some v) (hf : (hostField t v).Gives f) (hrest : HasFields t ids fields) :
    HasFields t (id :: ids) (f :: fields)

theorem hostFields_hasFields {ids : List NodeId} {fields : List HostField}
    (h : (hostFields t ids).Gives fields) : t.HasFields ids fields := by
  obtain ⟨vars, hvars, hfields⟩ := h.bind
  replace hvars := hvars.mapM
  replace hfields := hfields.mapM
  clear h
  induction hvars generalizing fields with
  | nil =>
    cases hfields
    exact .nil
  | @cons id v ids vars hv _ ih =>
    by_cases href : v.references = []
    · rw [List.filter_cons_of_neg (by simp [href])] at hfields
      exact .skip hv.expect href (ih hfields)
    · rw [List.filter_cons_of_pos (by simp [href])] at hfields
      cases hfields with
      | cons hf hrest => exact .keep hv.expect hf (ih hrest)

theorem hostField_eq {v : Variable} {f : HostField} (h : (hostField t v).Gives f) :
    f.name = v.name ∧ (initialValue t true v).Gives f.value := by
  obtain ⟨value, hvalue, h⟩ := h.bind
  obtain rfl := h.pure
  exact ⟨rfl, hvalue⟩

theorem Tree.HasGlobal.name {d : VarDecl} {id : NodeId} {v : Variable}
    (h : t.HasGlobal rules o d id) (hv : t.var? id = some v) : v.name = d.name := by
  obtain ⟨v', hv', hname, -⟩ := h
  obtain rfl : v = v' := by simpa [var?, hv', NodeKind.var?] using hv.symm
  exact hname

/-- What is in the initial value of a global is brought by expressions in it. -/
theorem Tree.HasGlobal.brings {roots : List NodeId} (hshape : t.Shaped script library roots)
    {d : VarDecl} {id : NodeId} {v : Variable} {e : HostExpr} (h : t.HasGlobal rules o d id)
    (hv : t.var? id = some v) (he : (initialValue t true v).Gives e)
    (hx : x ∈ e.parts) (hglue : x.isGlue = false) :
    ∃ id' node, t.Sees rules o [] id' ∧ t.expr? id' = some node ∧ t.Brings true node x := by
  obtain ⟨v', hv', -, -, hsees, -⟩ := h
  obtain rfl : v = v' := by simpa [Tree.var?, hv', NodeKind.var?] using hv.symm
  unfold initialValue at he
  split at he
  · rename_i init hinit
    obtain ⟨id', node, -, hbrings⟩ := hostExprWithin_brings hshape _ (hsees init hinit) he hx
    exact ⟨id', node, hbrings⟩
  · simp [HostExpr.isGlue_of_isPlain (isPlain_defaultValue he hx)] at hglue

/-- A global starts from globals that it sees, and from no local variable. -/
theorem Tree.HasGlobal.startsFrom {roots : List NodeId} (hshape : t.Shaped script library roots)
    (hnotes : t.NotesUses) {d : VarDecl} {id : NodeId} {v : Variable}
    {f : HostField} (h : t.HasGlobal rules o d id) (hv : t.var? id = some v)
    (hf : (hostField t v).Gives f) :
    (∀ x ∈ f.value.parts, x.isLocal = false) ∧ ∀ inContainer name,
      .global inContainer name ∈ f.value.parts →
        inContainer = true ∧ ∃ d', (name, d') ∈ o.globals ∧ t.uses d' ≠ [] := by
  have hvalue := (hostField_eq hf).2
  refine ⟨fun x hx => ?_, fun inContainer name hx => ?_⟩
  · by_contra hlocal
    have hlocal : x.isLocal = true := by simpa using hlocal
    obtain ⟨id', node, hsees, hnode, hbrings⟩ := h.brings hshape hv hvalue hx
      (by cases x <;> first | rfl | cases hlocal)
    obtain ⟨name, d', hk, -⟩ := hbrings.of_local hlocal
    have hmem : (name, d') ∈ [] := hsees.covers hnode hk
    cases hmem
  · obtain ⟨id', node, hsees, hnode, hbrings⟩ := h.brings hshape hv hvalue hx rfl
    obtain ⟨hin, d', hk⟩ := hbrings.of_global
    exact ⟨hin, d', hsees.covers hnode hk, hnotes.uses_of_ref hnode hk⟩

/-- **A global starts from globals before it.** Those that are known already have
their fields. -/
theorem Tree.HasGlobals.fields_in_order {roots : List NodeId}
    (hshape : t.Shaped script library roots) (hnotes : t.NotesUses) {xs : List (VarDecl × NodeId)}
    {fields known : List HostField} (h : t.HasGlobals rules o xs)
    (hf : t.HasFields (xs.map (·.2)) fields)
    (hknown : ∀ x ∈ o.globals, t.uses x.2 ≠ [] → ∃ f ∈ known, f.name = x.1) :
    ∀ before f after, fields = before ++ f :: after →
      (∀ x ∈ f.value.parts, x.isLocal = false) ∧ ∀ inContainer name,
        .global inContainer name ∈ f.value.parts →
          inContainer = true ∧ ∃ f' ∈ known ++ before, f'.name = name := by
  induction xs generalizing o fields known with
  | nil =>
    cases hf
    intro before f after heq
    simp at heq
  | cons x rest ih =>
    obtain ⟨hglobal, hrest⟩ := h
    cases hf with
    | skip hv hunused hothers =>
      refine ih hrest hothers fun y hy huses => ?_
      rcases List.mem_append.mp hy with hy | hy
      · exact hknown y hy huses
      · obtain rfl := List.mem_singleton.mp hy
        exact absurd ((uses_of_var? hv).trans hunused) huses
    | @keep _ _ _ first _ hv hfirst hothers =>
      intro before f after heq
      rcases before with _ | ⟨_, before⟩
      · obtain ⟨rfl, rfl⟩ := List.cons.inj heq
        obtain ⟨hlocals, hglobals⟩ := hglobal.startsFrom hshape hnotes hv hfirst
        refine ⟨hlocals, fun inContainer name hx => ?_⟩
        obtain ⟨hin, d, hmem, huses⟩ := hglobals inContainer name hx
        rw [List.append_nil]
        exact ⟨hin, hknown _ hmem huses⟩
      · obtain ⟨rfl, rfl⟩ := List.cons.inj heq
        have hknown' : ∀ y ∈ (o.withGlobal x.1 x.2).globals, t.uses y.2 ≠ [] →
            ∃ f ∈ known ++ [first], f.name = y.1 := by
          intro y hy huses
          rcases List.mem_append.mp hy with hy | hy
          · obtain ⟨f', hf', hname⟩ := hknown y hy huses
            exact ⟨f', List.mem_append_left _ hf', hname⟩
          · obtain rfl := List.mem_singleton.mp hy
            exact ⟨first, by simp, (hostField_eq hfirst).1.trans (hglobal.name hv)⟩
        obtain ⟨hlocals, hglobals⟩ := ih hrest hothers hknown' before f after rfl
        refine ⟨hlocals, fun inContainer name hx => ?_⟩
        have hfound := hglobals inContainer name hx
        rwa [List.append_assoc, List.singleton_append] at hfound

/-- A global sees the functions of the script and some of its globals. -/
theorem Tree.HasGlobals.around {xs : List (VarDecl × NodeId)} (h : t.HasGlobals rules o xs)
    {x : VarDecl × NodeId} (hx : x ∈ xs) :
    ∃ o', t.HasGlobal rules o' x.1 x.2 ∧ o'.functions = o.functions
      ∧ o'.globals ⊆ o.globals ++ xs.map fun x => (x.1.name, x.2) := by
  induction xs generalizing o with
  | nil => cases hx
  | cons y rest ih =>
    rcases List.mem_cons.mp hx with rfl | hx
    · exact ⟨o, h.1, rfl, List.subset_append_left _ _⟩
    · obtain ⟨o', hglobal, hfunctions, hglobals⟩ := ih h.2 hx
      refine ⟨o', hglobal, hfunctions, ?_⟩
      rwa [Surroundings.withGlobal, List.append_assoc, List.singleton_append] at hglobals

namespace Run.Clean

/-- What is in the code of a unit is brought by expressions that see the functions
and globals of the script. -/
theorem brings (h : run.Clean library script root n)
    (hu : (hostUnit run.tree checkpoints n).Gives u) {e : HostExpr} (he : e ∈ u.exprs)
    (hx : x ∈ e.parts) (hglue : x.isGlue = false) :
    ∃ rules o visible inContainer id node, run.tree.Sees rules o visible id
      ∧ run.tree.expr? id = some node ∧ run.tree.Brings inContainer node x
      ∧ o.functions = script.aroundBodies.functions ∧ o.globals ⊆ script.aroundBodies.globals := by
  obtain ⟨roots, hshape⟩ := h.shaped
  rcases List.mem_append.mp he with he | he
  · obtain ⟨f, hf, rfl⟩ := List.mem_map.mp he
    obtain ⟨vars, hvars, hfields⟩ := (hostUnit_members hu).globals.bind
    obtain ⟨v, hv, hf⟩ := hfields.mem_mapM f hf
    obtain ⟨g, hg, hvar⟩ := hvars.mem_mapM v (List.mem_of_mem_filter hv)
    obtain ⟨y, hy, rfl⟩ := List.mem_map.mp (h.globalIds ▸ hg)
    obtain ⟨o, hglobal, hfunctions, hglobals⟩ := h.globals.around hy
    obtain ⟨id, node, hsees, hnode, hbrings⟩ :=
      hglobal.brings hshape hvar.expect (hostField_eq hf).2 hx hglue
    exact ⟨_, o, [], true, id, node, hsees, hnode, hbrings, hfunctions, hglobals⟩
  · obtain ⟨m, hm, he⟩ := List.mem_flatMap.mp he
    obtain ⟨spot, hspot, he⟩ := List.mem_flatMap.mp he
    obtain ⟨rules, o, block, body, hemitted⟩ := h.emitted hu hm
    obtain ⟨visible, _, _, id, node, -, -, -, -, hsees, hnode, hbrings⟩ :=
      hemitted.brings h hspot he hx hglue
    exact ⟨rules, o, visible, false, id, node, hsees, hnode, hbrings, hemitted.functions,
      fun y hy => hemitted.globals ▸ hy⟩

/-- A function that is called is emitted. -/
theorem function_emitted (h : run.Clean library script root n)
    (hu : (hostUnit run.tree checkpoints n).Gives u) {name : String} {f : NodeId}
    (hf : (name, f) ∈ script.aroundBodies.functions) (huses : run.tree.uses f ≠ []) :
    ∃ m ∈ u.functions, m.name = HostName.function name := by
  obtain ⟨x, hx, heq⟩ := List.mem_map.mp hf
  obtain ⟨rfl, rfl⟩ := Prod.mk.inj heq
  obtain ⟨decl, body, hdecl, hname, -⟩ := h.functions x hx
  have href : decl.references ≠ [] := by
    rwa [Tree.uses_of_kind? (Tree.function?_eq_some.mp hdecl)] at huses
  have hmem : decl ∈ (n.functions.filterMap run.tree.function?).filter (!·.references.isEmpty) := by
    refine List.mem_filter.mpr ⟨List.mem_filterMap.mpr ⟨x.2, ?_, hdecl⟩, by simpa using href⟩
    exact h.functionIds ▸ List.mem_map_of_mem hx
  obtain ⟨m, hm, hcode⟩ := exists_of_forall₂_left ((hostUnit_members hu).functions.mapM) hmem
  exact ⟨m, hm, (hostFunction_name hcode).trans (congrArg _ hname)⟩

/-- A global that is named has its field. -/
theorem field_emitted (h : run.Clean library script root n)
    (hu : (hostUnit run.tree checkpoints n).Gives u) {name : String} {d : NodeId}
    (hd : (name, d) ∈ script.aroundBodies.globals) (huses : run.tree.uses d ≠ []) :
    ∃ f ∈ u.globals, f.name = name := by
  obtain ⟨x, hx, heq⟩ := List.mem_map.mp hd
  obtain ⟨rfl, rfl⟩ := Prod.mk.inj heq
  obtain ⟨vars, hvars, hfields⟩ := (hostUnit_members hu).globals.bind
  obtain ⟨v, hv, hvar⟩ := exists_of_forall₂_left hvars.mapM
    (h.globalIds ▸ List.mem_map_of_mem hx)
  obtain ⟨o, hglobal, -⟩ := h.globals.around hx
  have href : v.references ≠ [] := by rwa [Tree.uses_of_var? hvar.expect] at huses
  obtain ⟨f, hf, hfield⟩ := exists_of_forall₂_left hfields.mapM
    (List.mem_filter.mpr ⟨hv, by simpa using href⟩)
  exact ⟨f, hf, (hostField_eq hfield).1.trans (hglobal.name hvar.expect)⟩

/-- **The lines of a script define what they use.** -/
theorem defines (h : run.Clean library script root n)
    (hu : (hostUnit run.tree checkpoints n).Gives u) {call : String} {depth : Nat}
    {lines : List OutputLine} (hstands : u.StandsIn call depth lines) :
    run.tree.Defines u call lines where
  methods m hm := by
    obtain ⟨rules, o, block, body, hemitted⟩ := h.emitted hu hm
    refine ⟨depth, _, hstands.methods m hm, fun spot hspot => ?_⟩
    have hnone : DeclaredBy [] [] (depth + 1) := fun _ hs => by cases hs
    obtain ⟨above, d, behind, hlines, habove⟩ := HostStmt.spots_written hnone spot hspot
    exact ⟨above, d, behind, hlines, hemitted.definedAt h hspot habove call⟩
  distinct m hm := by
    obtain ⟨rules, o, block, body, hemitted⟩ := h.emitted hu hm
    exact hemitted.locals_nodup h.right
  standIns ty hty := hstands.standIn hty
  targets e he x hx target htarget := by
    obtain ⟨rules, o, visible, inContainer, id, node, -, hnode, hbrings, -⟩ := h.brings hu he hx
      (by cases x <;> first | rfl | cases htarget)
    exact h.sound.not_isAbsentComponent hnode hbrings htarget
  functions e he name args hx := by
    obtain ⟨rules, o, visible, inContainer, id, node, hsees, hnode, hbrings, hfunctions, -⟩ :=
      h.brings hu he hx rfl
    obtain ⟨as, f, hk⟩ := hbrings.of_callFunction
    have hmem : (name, f) ∈ o.functions := hsees.covers hnode hk
    obtain ⟨m, hm, hname⟩ :=
      h.function_emitted hu (hfunctions ▸ hmem) (h.notesUses.uses_of_call hnode hk)
    have hmethod := hstands.methods m (List.mem_append_left _ (List.mem_append_left _ hm))
    rw [HostMethod.StandsIn, HostMethod.heading, hname] at hmethod
    refine ⟨⟨", ".intercalate (HostExpr.renderAll args) ++ ")", ?_⟩, _, _, _, _, hmethod⟩
    rw [← String.append_assoc]
    rfl
  container hglobals := ⟨depth, hstands.globals hglobals⟩
  fields e he inContainer name hx := by
    obtain ⟨rules, o, visible, _, id, node, hsees, hnode, hbrings, -, hglobals⟩ :=
      h.brings hu he hx rfl
    obtain ⟨-, d, hk⟩ := hbrings.of_global
    exact h.field_emitted hu (hglobals (hsees.covers hnode hk)) (h.notesUses.uses_of_ref hnode hk)
  order before f after heq := by
    obtain ⟨roots, hshape⟩ := h.shaped
    have hfields := hostFields_hasFields (hostUnit_members hu).globals
    rw [h.globalIds] at hfields
    have hknown : ∀ x ∈ script.outermost.globals, run.tree.uses x.2 ≠ [] →
        ∃ f ∈ ([] : List HostField), f.name = x.1 := fun x hx => by cases hx
    obtain ⟨hlocals, hglobals⟩ :=
      h.globals.fields_in_order hshape h.notesUses hfields hknown before f after heq
    refine ⟨hlocals, fun inContainer name hx => ?_⟩
    obtain ⟨rfl, hbefore⟩ := hglobals inContainer name hx
    exact ⟨rfl, hbefore⟩

end Run.Clean

/-! ### Scripts -/

/-- **Generated code defines what it uses.** The output is written line by line, and
its lines define the local variables at each place, the parameters of each method, the
functions and the globals. -/
theorem Script.generate_defines {options : CheckOptions} {c : CheckedScript} {settings : Settings}
    {text : String} (h : script.check library options = .ok c)
    (hg : c.generate settings = .ok text) :
    ∃ u, c.hostUnit settings = .ok u ∧ OutputLine.WrittenAs (u.layout settings) text
      ∧ c.tree.Defines u settings.coopCall (u.layout settings) := by
  obtain ⟨u, hu, rfl⟩ := CheckedScript.generate_eq_ok.mp hg
  refine ⟨u, hu, OutputLine.renderAll_writtenAs _, ?_⟩
  have hok := CheckedScript.hasErrors_of_hostUnit hu
  obtain ⟨run, n, hclean, htree⟩ := Script.check_clean h hok
  have hu := hclean.gives_hostUnit htree hu
  obtain ⟨depth, hstands⟩ := u.standsIn_layout settings
  exact htree ▸ hclean.defines hu hstands

section

open Build

/-- A script with a global that starts from another one, a function that is called
and one that is not, variables of one name in two blocks, and a variable whose
declaration is jumped over. -/
def Script.patchwork : Script :=
  { globals := [varDecl .vector "origin" (some (vector (int 0) (int 0) (int 0))),
      varDecl .list "places" (some (list [ident "origin"])), varDecl .integer "unused" none]
    functions := [function .integer "count" [param .list "items"]
        [ret (some (call "llGetListLength" [ident "items"]))],
      function .void "idle" [] []]
    defaultState := some (state defaultStateName [handler "state_entry" []
      [declare .integer "n" (some (call "count" [ident "places"])),
        Build.block [declare .integer "n" (some (int 1)), exprStmt (prefixed .increment (ident "n"))],
        jump "over",
        declare .vector "v" none,
        label "over",
        exprStmt (binary .addAssign (component (ident "v") .x) (ident "n")),
        exprStmt (assign "v" (ident "origin"))]]) }

theorem Script.patchwork_defines :
    ∃ c text, Script.patchwork.check .standard { sortNotices := false } = .ok c
      ∧ c.generate {} = .ok text
      ∧ ∃ u, c.hostUnit {} = .ok u ∧ OutputLine.WrittenAs (u.layout {}) text
        ∧ c.tree.Defines u ({} : Settings).coopCall (u.layout {}) := by
  have hcheck : (Script.patchwork.check .standard { sortNotices := false }).toOption.any
      (fun c => (c.hostUnit {}).toOption.any fun _ => true) = true := by decide +kernel
  obtain ⟨c, u, hc, -, hg, -⟩ := Script.exists_hostUnit hcheck
  exact ⟨c, _, hc, hg, Script.generate_defines hc hg⟩

end

end Lsl
