/- # Expressions without a value

What a function without a result gives back is of type `void`, and nothing of
this type takes part in anything: it is no operand, no argument, not stored, not
returned and not tested. In a script that declares nothing as `void` such an
expression is a call, and it stands where a statement uses no value, maybe in
parentheses.

Key definitions: `Script.Valued`, `Tree.Behind`, `Tree.StandsAlone`.
Key theorems: `Tree.Typed.operand_ne_void`, `Run.Clean.kind_of_void`, `Run.Clean.standsAlone`.
-/
import Lsl.Proofs.Library.Constructed
import Lsl.Proofs.Typing.Soundness

namespace Lsl

/-! ### What has no value fits nowhere -/

theorem assignable_void (ty : Ty) : assignable ty .void = false := by
  simp [assignable, Ty.isVoid]

theorem listResult_ne_void {op : BinaryOp} {left right ty : Ty}
    (h : listResult op left right = some ty) : ty ≠ .void := by
  rintro rfl
  unfold listResult at h
  split at h
  · cases h
  · cases op <;> simp_all

theorem scalarResult_ne_void {op : BinaryOp} {left right ty : Ty}
    (h : scalarResult op left right = some ty) : ty ≠ .void := by
  rintro rfl
  unfold scalarResult at h
  split at h
  all_goals first | cases h | (split at h <;> simp_all [assignable, Ty.isVoid])

theorem binaryResult_ne_void {op : BinaryOp} {left right ty : Ty}
    (h : binaryResult op left right = some ty) : left ≠ .void ∧ right ≠ .void ∧ ty ≠ .void := by
  unfold binaryResult at h
  split at h
  · cases h
  · rename_i hvoid
    refine ⟨fun hl => hvoid (by simp [hl, Ty.isVoid]), fun hr => hvoid (by simp [hr, Ty.isVoid]), ?_⟩
    rcases Option.or_eq_some_iff.mp h with h | ⟨-, h⟩
    · exact listResult_ne_void h
    · exact scalarResult_ne_void h

theorem prefixResult_ne_void {op : PrefixOp} {operand ty : Ty}
    (h : prefixResult op operand = some ty) : operand ≠ .void ∧ ty = operand := by
  unfold prefixResult at h
  split at h
  · rename_i happlies
    refine ⟨?_, (Option.some.inj h).symm⟩
    rintro rfl
    cases op <;> cases happlies
  · cases h

theorem postfixResult_ne_void {op : PostfixOp} {operand ty : Ty}
    (h : postfixResult op operand = some ty) : operand ≠ .void ∧ ty = operand := by
  unfold postfixResult at h
  split at h
  · rename_i hnumeric
    refine ⟨?_, (Option.some.inj h).symm⟩
    rintro rfl
    cases hnumeric
  · cases h

theorem castValid_ne_void {target source : Ty} (h : castValid target source = true) :
    source ≠ .void ∧ target ≠ .void := by
  constructor
  · rintro rfl
    cases h
  · rintro rfl
    cases source <;> cases h

namespace LibraryFunction

theorem argumentMismatch?_void (f : LibraryFunction) (index : Nat) :
    f.argumentMismatch? index (.typed .void) ≠ none := by
  simp only [argumentMismatch?]
  split
  · simp
  · split
    · simp [Ty.isVoid]
    · simp [assignable_void]

theorem void_not_mem_of_firstMismatch? {f : LibraryFunction} {args : List Argument} :
    ∀ {index : Nat}, f.firstMismatch? index args = none → .typed .void ∉ args := by
  induction args with
  | nil => simp
  | cons a rest ih =>
    intro index h hmem
    obtain ⟨ha, hrest⟩ := Option.or_eq_none_iff.mp h
    rcases List.mem_cons.mp hmem with rfl | hmem
    · exact f.argumentMismatch?_void index ha
    · exact ih hrest hmem

/-- No overload takes an argument without a value. -/
theorem void_not_mem_of_accepts {f : LibraryFunction} {args : List Argument}
    (h : f.accepts args = true) : .typed .void ∉ args := by
  have hnone : f.mismatch? args = none := by simpa [accepts] using h
  unfold mismatch? at hnone
  split at hnone
  · exact void_not_mem_of_firstMismatch? hnone
  · cases hnone

end LibraryFunction

namespace Tree

variable {t : Tree} {library : Catalog} {e : ExprNode} {c : NodeId}

/-- **Operands have values**, those of parentheses apart. -/
theorem Typed.operand_ne_void (h : t.Typed library e) (hparen : ∀ inner, e.kind ≠ .paren inner)
    (hc : c ∈ e.kind.children) : t.exprType c ≠ .void := by
  have hnumeric : (t.exprType c).isNumeric = true → t.exprType c ≠ .void := by
    intro hn hv
    simp [hv, Ty.isNumeric] at hn
  rcases e with ⟨kind, ty, k⟩
  cases kind with
  | integer | hex | float | string | ref => cases hc
  | vector => exact hnumeric (h.2 c hc)
  | rotation => exact hnumeric (h.2 c hc)
  | list => exact (h.2 c hc).2
  | component object part =>
    obtain rfl := List.mem_singleton.mp hc
    intro hv
    obtain ⟨-, hobject⟩ := h
    rw [hv] at hobject
    cases part <;> cases hobject
  | call name args target =>
    cases target with
    | user f =>
      obtain ⟨decl, -, -, hargs⟩ := h
      obtain ⟨p, -, hfit⟩ := exists_of_forall₂_left hargs hc
      intro hv
      simp [hv, assignable_void] at hfit
    | library modInvoke params =>
      obtain ⟨f, -, -, -, -, haccepts⟩ := h
      intro hv
      exact f.void_not_mem_of_accepts haccepts (List.mem_map.mpr ⟨c, hc, by rw [hv]⟩)
  | binary op left right =>
    obtain ⟨hl, hr, -⟩ := binaryResult_ne_void h
    rcases List.mem_cons.mp hc with rfl | hc
    · exact hl
    · exact List.mem_singleton.mp hc ▸ hr
  | prefixed op operand => exact List.mem_singleton.mp hc ▸ (prefixResult_ne_void h).1
  | postfixed op operand => exact List.mem_singleton.mp hc ▸ (postfixResult_ne_void h).1
  | cast target operand => exact List.mem_singleton.mp hc ▸ (castValid_ne_void h.2).1
  | paren inner => exact absurd rfl (hparen inner)

/-- What has no value is a name, a call, or either in parentheses. -/
theorem Typed.kind_of_void (h : t.Typed library e) (hv : e.ty = .void) :
    (∃ name binding, e.kind = .ref name binding) ∨ (∃ name args target, e.kind = .call name args target)
      ∨ ∃ inner, e.kind = .paren inner := by
  rcases e with ⟨kind, ty, k⟩
  obtain rfl : ty = .void := hv
  cases kind with
  | ref name binding => exact .inl ⟨name, binding, rfl⟩
  | call name args target => exact .inr (.inl ⟨name, args, target, rfl⟩)
  | paren inner => exact .inr (.inr ⟨inner, rfl⟩)
  | integer | hex | float | string => cases h
  | vector | rotation | list | component => cases h.1
  | binary => exact absurd rfl (binaryResult_ne_void h).2.2
  | prefixed =>
    obtain ⟨hne, hty⟩ := prefixResult_ne_void h
    exact absurd hty.symm hne
  | postfixed =>
    obtain ⟨hne, hty⟩ := postfixResult_ne_void h
    exact absurd hty.symm hne
  | cast target =>
    obtain ⟨hty, hvalid⟩ := h
    exact absurd hty.symm (castValid_ne_void hvalid).2

end Tree

/-! ### Where expressions without a value stand -/

/-- No variable and no parameter of the script is declared without a value. -/
structure Script.Valued (script : Script) : Prop where
  globals : ∀ d ∈ script.globals, d.ty ≠ .void
  locals : ∀ d ∈ script.locals, d.ty ≠ .void
  params : ∀ d ∈ script.params, d.ty ≠ .void

/-- The expression is another one, or stands in the parentheses that the other one is. -/
inductive Tree.Behind (t : Tree) (top : NodeId) : NodeId → Prop where
  | refl : Behind t top top
  | paren {id inner : NodeId} {e : ExprNode} (h : Behind t top id) (he : t.expr? id = some e)
    (hk : e.kind = .paren inner) : Behind t top inner

/-- The expression stands where a statement uses no value: it is evaluated by a
statement itself, or in parentheses that are. -/
def Tree.StandsAlone (t : Tree) (id : NodeId) : Prop :=
  ∃ s stmt top, t.stmt? s = some stmt ∧ top ∈ stmt.kind.clauses ∧ t.Behind top id

theorem Tree.Behind.eq_or_paren {t : Tree} {top id : NodeId} (h : t.Behind top id) :
    top = id ∨ ∃ e inner, t.expr? top = some e ∧ e.kind = .paren inner := by
  induction h with
  | refl => exact .inl rfl
  | paren _ he hk ih =>
    rcases ih with rfl | hparen
    · exact .inr ⟨_, _, he, hk⟩
    · exact .inr hparen

namespace Run.Clean

variable {script : Script} {library : Catalog} {run : Run} {root i : NodeId} {n : ScriptNode}
  {e : ExprNode}

/-- A name has a value. -/
theorem ref_ne_void (h : run.Clean library script root n) (hscript : script.Valued)
    (hlibrary : library.Valued) (he : run.tree.expr? i = some e) {name : String}
    {binding : Binding} (hk : e.kind = .ref name binding) : e.ty ≠ .void := by
  obtain ⟨roots, hshape⟩ := h.shaped
  obtain ⟨-, hbound⟩ := hshape.formed i _ (Tree.expr?_eq_some.mp he)
  have htyped := h.sound.typed i e he
  simp only [Tree.Bound, hk] at hbound
  simp only [Tree.Typed, hk] at htyped
  have hvar : ∀ {d v}, run.tree.var? d = some v → v.ty ≠ .void := by
    intro d v hv
    obtain ⟨k, hkind, hkv⟩ := Option.bind_eq_some_iff.mp hv
    have hformed := hshape.formed d k hkind
    cases k with
    | global v' =>
      obtain rfl := Option.some.inj hkv
      obtain ⟨⟨decl, hdecl, hty⟩, -⟩ := hformed
      exact hty ▸ hscript.globals decl hdecl
    | param v' =>
      obtain rfl := Option.some.inj hkv
      obtain ⟨⟨decl, hdecl, hty⟩, -⟩ := hformed
      exact hty ▸ hscript.params decl hdecl
    | stmt s =>
      rcases s with ⟨kind, info⟩
      cases kind with
      | declare v' =>
        obtain rfl := Option.some.inj hkv
        obtain ⟨⟨decl, hdecl, hty⟩, -⟩ := hformed
        exact hty ▸ hscript.locals decl hdecl
      | _ => cases hkv
    | _ => cases hkv
  cases binding with
  | constant k => exact htyped ▸ hlibrary k hbound
  | _ =>
    obtain ⟨-, v, hv, hty⟩ := hbound
    exact hty ▸ hvar hv

/-- What has no value is a call, or parentheses. -/
theorem kind_of_void (h : run.Clean library script root n) (hscript : script.Valued)
    (hlibrary : library.Valued) (he : run.tree.expr? i = some e) (hv : e.ty = .void) :
    (∃ name args target, e.kind = .call name args target) ∨ ∃ inner, e.kind = .paren inner := by
  rcases (h.sound.typed i e he).kind_of_void hv with ⟨name, binding, hk⟩ | hk
  · exact absurd hv (h.ref_ne_void hscript hlibrary he hk)
  · exact hk

/-- The scopes of a statement are scopes. -/
theorem sort?_arm (h : run.Clean library script root n) {s : StmtNode}
    (hs : run.tree.stmt? i = some s) {a : NodeId} (ha : a ∈ s.kind.arms) :
    run.tree.sort? a = some .scope := by
  obtain ⟨rules, o, hgoverned, -⟩ := h.governed (Tree.inBody_of_stmt? hs)
  obtain ⟨blocks, rest, hscoped⟩ := hgoverned.stmt s hs
  cases hscoped with
  | cons hs' _ harms _ _ _ =>
    obtain rfl := Option.some.inj (hs.symm.trans hs')
    obtain ⟨c, hc⟩ := harms a ha
    exact Tree.sort?_of_kind? (Tree.scope?_eq_some.mp hc)

/-- A statement uses no value that is none. -/
theorem value_ne_void (h : run.Clean library script root n) {s : StmtNode}
    (hs : run.tree.stmt? i = some s) {c : NodeId} (hc : c ∈ s.kind.values) :
    run.tree.exprType c ≠ .void := by
  rcases s with ⟨kind, info⟩
  have hassigned : ∀ {ty : Ty}, assignable ty (run.tree.exprType c) = true →
      run.tree.exprType c ≠ .void := by
    intro ty hfit hvoid
    simp [hvoid, assignable_void] at hfit
  cases kind with
  | declare v =>
    have hvar : run.tree.var? i = some v := by
      simp [Tree.var?, Tree.stmt?_eq_some.mp hs, NodeKind.var?]
    exact hassigned (h.assignable_init hvar (Option.mem_toList.mp hc))
  | ret value =>
    obtain rfl := Option.mem_toList.mp hc
    obtain ⟨f, decl, -, -, hfit⟩ := h.assignable_return hs rfl
    exact hassigned hfit
  | empty | expr | jump | label | stateChange | block => cases hc
  | _ => exact h.nonvoid_test hs hc

/-- The parent of what has no value is a statement that uses none, or parentheses. -/
theorem parent_of_void (h : run.Clean library script root n) (he : run.tree.expr? i = some e)
    (hv : e.ty = .void) {q : NodeId} (hq : run.tree.parent? i = some q) :
    (∃ stmt, run.tree.stmt? q = some stmt ∧ i ∈ stmt.kind.clauses)
      ∨ ∃ e', run.tree.expr? q = some e' ∧ e'.kind = .paren i ∧ e'.ty = .void := by
  obtain ⟨roots, hshape⟩ := h.shaped
  have hsort := Tree.sort?_of_kind? (Tree.expr?_eq_some.mp he)
  have hvoid : run.tree.exprType i = .void := by simpa [Tree.exprType, he] using hv
  obtain ⟨k, hk, ⟨sort, hs, hholds⟩, hmem⟩ := hshape.owned i q hq
  obtain rfl := Option.some.inj (hsort.symm.trans hs)
  cases k with
  | global v =>
    have hi := hmem (by simp [NodeKind.sort]) (by simp [NodeKind.sort])
    have hinit : i ∈ v.init := by simpa [NodeKind.children] using hi
    have hfit := h.assignable_init (i := q) (v := v) (by simp [Tree.var?, hk, NodeKind.var?]) hinit
    simp [hvoid, assignable_void] at hfit
  | stmt s =>
    have hstmt := Tree.stmt?_eq_some.mpr hk
    have hi : i ∈ s.kind.children := hmem (by simp [NodeKind.sort]) (by simp [NodeKind.sort])
    refine .inl ⟨s, hstmt, ?_⟩
    rcases StmtKind.term_or_arm hi with hi | hi
    · rcases StmtKind.mem_terms.mp hi with hi | hi
      · exact hi
      · exact absurd hvoid (h.value_ne_void hstmt hi)
    · cases hsort.symm.trans (h.sort?_arm hstmt hi)
  | expr e' =>
    have hi : i ∈ e'.kind.children := hmem (by simp [NodeKind.sort]) (by simp [NodeKind.sort])
    have htyped := h.sound.typed q e' (Tree.expr?_eq_some.mpr hk)
    by_cases hparen : ∃ inner, e'.kind = .paren inner
    · obtain ⟨inner, hinner⟩ := hparen
      rw [hinner] at hi
      obtain rfl := List.mem_singleton.mp hi
      refine .inr ⟨e', Tree.expr?_eq_some.mpr hk, hinner, ?_⟩
      simp only [Tree.Typed, hinner] at htyped
      exact htyped.trans hvoid
    · exact absurd hvoid (htyped.operand_ne_void (fun inner hk => hparen ⟨inner, hk⟩) hi)
  | _ => cases hholds

/-- **What has no value stands alone.** The induction goes up from the node, as
long as there are parentheses around it. -/
theorem standsAlone (h : run.Clean library script root n) (he : run.tree.expr? i = some e)
    (hv : e.ty = .void) : run.tree.StandsAlone i := by
  have hroot := h.within_root (Tree.has_of_kind? (Tree.expr?_eq_some.mp he))
  induction hroot using Relation.ReflTransGen.head_induction_on generalizing e with
  | refl => cases (Tree.expr?_eq_some.mp he).symm.trans h.kind
  | head hq _ ih =>
    rcases h.parent_of_void he hv hq with ⟨stmt, hstmt, hclause⟩ | ⟨e', he', hk, hv'⟩
    · exact ⟨_, stmt, _, hstmt, hclause, .refl⟩
    · obtain ⟨s, stmt, top, hstmt, htop, hbehind⟩ := ih he' hv'
      exact ⟨s, stmt, top, hstmt, htop, hbehind.paren he' hk⟩

end Run.Clean

end Lsl
