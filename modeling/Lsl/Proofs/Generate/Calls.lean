/- # Calls in generated code

A call without a result is no value for the host either. The code of an
expression is made of that of its operands, which have values; so a call without
one is the whole code of a statement. It is found inside other code only if the
script puts it into parentheses: then the statement is not seen to be a call, and
the host is made to drop a value that is not there.

Key definitions: `HostExpr.isCall`, `Tree.HasValue`, `Tree.CallsHaveValues`,
`Tree.VoidStandsAlone`.
Key theorems: `Tree.Sound.hasValue_or_bare`, `Run.Clean.callsHaveValues`,
`Script.void_standsAlone`.
-/
import Lsl.Proofs.Generate.Methods
import Lsl.Proofs.Generate.References
import Lsl.Proofs.Typing.Values

namespace Lsl

open Generator

/-! ### Calls in the code -/

namespace HostExpr

/-- A call of a function of the script or of the library. -/
def isCall : HostExpr → Bool
  | callFunction .. | callLibrary .. | callModule .. => true
  | _ => false

theorem bare_of_isCall {e : HostExpr} (h : e.isCall = true) : e.bare = e := by
  cases e <;> first | rfl | cases h

/-- A call in what is none is in something in it. -/
theorem exists_arg_of_isCall {e x : HostExpr} (hx : x ∈ e.parts) (hcall : x.isCall = true)
    (he : e.isCall = false) : ∃ a ∈ e.args, x ∈ a.parts := by
  rw [parts_eq] at hx
  rcases List.mem_cons.mp hx with rfl | hx
  · simp [he] at hcall
  · exact List.mem_flatMap.mp hx

theorem isCall_of_isName {e : HostExpr} (h : e.isName = true) : e.isCall = false := by
  cases e <;> first | rfl | cases h

theorem isCall_of_isPlain {e : HostExpr} (h : e.isPlain = true) : e.isCall = false := by
  cases e <;> first | rfl | cases h

end HostExpr

namespace Tree

variable {t : Tree} {library : Catalog} {inContainer : Bool}

/-- The call is the code of one that has a value. -/
def HasValue (t : Tree) (x : HostExpr) : Prop :=
  ∃ id e name args target, t.expr? id = some e ∧ e.kind = .call name args target ∧ e.ty ≠ .void
    ∧ ∃ inContainer depth pos, (hostExprWithin t inContainer depth pos id).Gives x

/-- The code of an expression is what its kind says. -/
theorem hostExpr_kind {t : Tree} {pos : Position} {id : NodeId} {e : ExprNode} {code : HostExpr}
    (he : t.expr? id = some e) (h : (hostExpr t inContainer pos id).Gives code) :
    (∀ name args target, e.kind = .call name args target → code.isCall = true)
      ∧ ∀ inner, e.kind = .paren inner → ∃ value, code = .paren value := by
  rw [hostExpr, hostExprWithin, he] at h
  obtain ⟨e', he', h⟩ := h.bind
  obtain rfl := Option.some.inj (he'.expect)
  constructor
  · intro name args target hk
    rw [hk] at h
    cases target with
    | user f =>
      obtain ⟨es, -, h⟩ := h.bind
      obtain rfl := h.pure
      rfl
    | library modInvoke params =>
      cases modInvoke
      all_goals
        obtain ⟨es, -, h⟩ := h.bind
        obtain rfl := h.pure
        rfl
  · intro inner hk
    rw [hk] at h
    obtain ⟨value, -, h⟩ := h.bind
    exact ⟨value, h.pure.symm⟩

theorem Adds.codesCall {operand : OperandCode} {n : ExprNode} {x : HostExpr}
    (h : t.Adds operand n x) (hx : x.isCall = true) : t.CodesCall operand n x := by
  cases x <;> first | exact h | cases hx

/-- The code of a call has that of the arguments in it, some of them copied. -/
theorem callCode_args {operand : OperandCode} {name : String} {args : List NodeId} {ty : Ty}
    {target : CallTarget} {e : HostExpr} (h : (callCode t operand name args ty target).Gives e) :
    ∀ a ∈ e.args, ∃ c ∈ args, ∃ pos code, (operand pos c).Gives code
      ∧ (a = code ∨ a = .copyList code) := by
  intro a ha
  cases target with
  | user f =>
    obtain ⟨es, hes, h⟩ := h.bind
    obtain rfl := h.pure
    obtain ⟨c, hc, hcode⟩ := hes.mem_mapM a ha
    obtain ⟨code, hcode, h⟩ := hcode.bind
    refine ⟨c, hc, .value, code, hcode, ?_⟩
    obtain rfl := h.pure
    split
    · exact .inr rfl
    · exact .inl rfl
  | library modInvoke params =>
    cases modInvoke
    all_goals
      obtain ⟨es, hes, h⟩ := h.bind
      obtain rfl := h.pure
      obtain ⟨c, hc, hcode⟩ := hes.mem_mapM a ha
      exact ⟨c, hc, _, a, hcode, .inl rfl⟩

/-- **The calls in the code of an expression have values**, except one that the whole
expression is, in parentheses or not. -/
theorem Sound.hasValue_or_bare (h : t.Sound library) : ∀ (depth : Nat) {pos : Position}
    {id : NodeId} {e x : HostExpr}, (hostExprWithin t inContainer depth pos id).Gives e →
      x ∈ e.parts → x.isCall = true → t.HasValue x ∨ t.exprType id = .void ∧ e.bare = x
  | 0, _, _, _, _, he, _, _ => absurd he not_gives_throw
  | depth + 1, pos, id, e, x, he, hx, hcall => by
    obtain ⟨n, hn, -⟩ := he.bind
    have hn := hn.expect
    have htyped := h.typed id n hn
    by_cases hparen : ∃ inner, n.kind = .paren inner
    · -- parentheses have the type of what is in them
      obtain ⟨inner, hinner⟩ := hparen
      rw [hostExprWithin, hn] at he
      obtain ⟨n', hn', he⟩ := he.bind
      obtain rfl := Option.some.inj (hn'.expect)
      rw [hinner] at he
      obtain ⟨code, hcode, he⟩ := he.bind
      obtain rfl := he.pure
      obtain ⟨a, ha, hin⟩ := HostExpr.exists_arg_of_isCall hx hcall rfl
      obtain rfl := List.mem_singleton.mp ha
      simp only [Typed, hinner] at htyped
      have hty : t.exprType id = t.exprType inner := by
        simpa [exprType, hn] using htyped
      have hinside := h.hasValue_or_bare depth hcode hin hcall
      rw [hty]
      exact hinside
    rcases hostExprWithin_madeOf hn he with ⟨name, binding, -, href⟩ | ⟨cs, es, hcs, hes, hframes⟩
    · rcases (referenceCode_nameCode href).parts hx with ⟨rfl, hname⟩ | hplain
      · simp [HostExpr.isCall_of_isName hname] at hcall
      · simp [HostExpr.isCall_of_isPlain hplain] at hcall
    -- an operand has a value
    have hinside : ∀ c ∈ n.kind.children, ∀ pos' code,
        (hostExprWithin t inContainer depth pos' c).Gives code → x ∈ code.parts → t.HasValue x :=
      fun c hc pos' code hcode hx => (h.hasValue_or_bare depth hcode hx hcall).resolve_right
        fun hbare => htyped.operand_ne_void (fun inner hk => hparen ⟨inner, hk⟩) hc hbare.1
    rcases hframes.new_or_given hx with hnew | ⟨e', he', hx⟩
    · -- the expression is the call, or an argument of the call has it
      obtain ⟨name, args, target, hkind, -⟩ := hnew.codesCall hcall
      have hself := he
      rw [hostExprWithin, hn] at he
      obtain ⟨n', hn', he⟩ := he.bind
      obtain rfl := Option.some.inj (hn'.expect)
      rw [hkind] at he
      rw [HostExpr.parts_eq] at hx
      rcases List.mem_cons.mp hx with rfl | hx
      · by_cases hvoid : n.ty = .void
        · exact .inr ⟨by simpa [exprType, hn] using hvoid, HostExpr.bare_of_isCall hcall⟩
        · exact .inl ⟨id, n, name, args, target, hn, hkind, hvoid, inContainer, depth + 1, pos,
            hself⟩
      · obtain ⟨a, ha, hx⟩ := List.mem_flatMap.mp hx
        obtain ⟨c, hc, pos', code, hcode, rfl | rfl⟩ := callCode_args he a ha
        · exact .inl (hinside c (hkind ▸ hc) pos' a hcode hx)
        · obtain ⟨a, ha, hin⟩ := HostExpr.exists_arg_of_isCall hx hcall rfl
          obtain rfl := List.mem_singleton.mp ha
          exact .inl (hinside c (hkind ▸ hc) pos' a hcode hin)
    · obtain ⟨c, hc, pos', hcode⟩ := exists_of_forall₂_right hes he'
      exact .inl (hinside c (hcs.subset hc) pos' e' hcode hx)

/-- What has a value has it from nothing but values. -/
theorem Sound.hasValue (h : t.Sound library) {pos : Position} {id : NodeId} {e x : HostExpr}
    (hv : t.exprType id ≠ .void) (he : (hostExpr t inContainer pos id).Gives e) (hx : x ∈ e.parts)
    (hcall : x.isCall = true) : t.HasValue x :=
  (h.hasValue_or_bare _ he hx hcall).resolve_right fun hbare => hv hbare.1

/-- In generated code calls have values, except those that are whole statements and
those that are in parentheses where a statement may be. -/
structure CallsHaveValues (t : Tree) (u : HostUnit) : Prop where
  fields : ∀ f ∈ u.globals, ∀ x ∈ f.value.parts, x.isCall = true → t.HasValue x
  values : ∀ m ∈ u.methods, ∀ spot ∈ m.spots, ∀ e ∈ spot.stmt.values, ∀ x ∈ e.parts,
    x.isCall = true → t.HasValue x
  clauses : ∀ m ∈ u.methods, ∀ spot ∈ m.spots, ∀ e ∈ spot.stmt.clauses, ∀ x ∈ e.parts,
    x.isCall = true → x = e ∨ t.HasValue x ∨ ∃ inner, e = .force (.paren inner) ∧ inner.bare = x

end Tree

namespace Run.Clean

variable {script : Script} {library : Catalog} {run : Run} {root i : NodeId} {n : ScriptNode}
  {e : ExprNode} {checkpoints : Bool} {u : HostUnit} {x : HostExpr}

theorem hasValue_of_yields (h : run.Clean library script root n) {c : NodeId} {code : HostExpr}
    (hv : run.tree.exprType c ≠ .void) (hcode : run.tree.Yields c code) (hx : x ∈ code.parts)
    (hcall : x.isCall = true) : run.tree.HasValue x := by
  obtain ⟨inner, hinner, hcode⟩ := hcode
  refine h.sound.hasValue hv hinner ?_ hcall
  rcases hcode with rfl | rfl | rfl
  · exact hx
  all_goals
    obtain ⟨a, ha, hx⟩ := HostExpr.exists_arg_of_isCall hx hcall rfl
    exact List.mem_singleton.mp ha ▸ hx

theorem hasValue_of_field (h : run.Clean library script root n)
    (hu : (hostUnit run.tree checkpoints n).Gives u) {f : HostField} (hf : f ∈ u.globals)
    (hx : x ∈ f.value.parts) (hcall : x.isCall = true) : run.tree.HasValue x := by
  obtain ⟨vars, hvars, hfields⟩ := (hostUnit_members hu).globals.bind
  obtain ⟨v, hv, hf⟩ := hfields.mem_mapM f hf
  obtain ⟨g, -, hg⟩ := hvars.mem_mapM v (List.mem_of_mem_filter hv)
  obtain ⟨value, hvalue, hf⟩ := hf.bind
  obtain rfl := hf.pure
  unfold initialValue at hvalue
  split at hvalue
  · rename_i init hinit
    refine h.sound.hasValue (fun hvoid => ?_) hvalue hx hcall
    have hfit := h.assignable_init hg.expect (c := init) hinit
    simp [hvoid, assignable_void] at hfit
  · simp [HostExpr.isCall_of_isPlain (isPlain_defaultValue hvalue hx)] at hcall

theorem hasValue_of_clause (h : run.Clean library script root n) (hscript : script.Valued)
    (hlibrary : library.Valued) {c : NodeId} {code : HostExpr}
    (hcode : (hostStatement run.tree c).Gives code) (hx : x ∈ code.parts) (hcall : x.isCall = true) :
    x = code ∨ run.tree.HasValue x ∨ ∃ inner, code = .force (.paren inner) ∧ inner.bare = x := by
  obtain ⟨e, he, ⟨hw, hcode⟩ | ⟨hw, value, hvalue, rfl⟩⟩ := code_of_hostStatement hcode
  · rcases h.sound.hasValue_or_bare _ hcode hx hcall with hvalue | ⟨hvoid, hbare⟩
    · exact .inr (.inl hvalue)
    · have hv : e.ty = .void := by simpa [Tree.exprType, he] using hvoid
      rcases h.kind_of_void hscript hlibrary he hv with ⟨name, args, target, hk⟩ | ⟨inner, hk⟩
      · have hself := (Tree.hostExpr_kind he hcode).1 name args target hk
        exact .inl (by rw [← hbare, HostExpr.bare_of_isCall hself])
      · simp [hk, ExprKind.writes] at hw
  · obtain ⟨a, ha, hin⟩ := HostExpr.exists_arg_of_isCall hx hcall rfl
    obtain rfl := List.mem_singleton.mp ha
    rcases h.sound.hasValue_or_bare _ hvalue hin hcall with hhas | ⟨hvoid, hbare⟩
    · exact .inr (.inl hhas)
    · have hv : e.ty = .void := by simpa [Tree.exprType, he] using hvoid
      rcases h.kind_of_void hscript hlibrary he hv with ⟨name, args, target, hk⟩ | ⟨_, hk⟩
      · simp [hk, ExprKind.writes] at hw
      · obtain ⟨inner, rfl⟩ := (Tree.hostExpr_kind he hvalue).2 _ hk
        exact .inr (.inr ⟨inner, rfl, hbare⟩)

/-- **Generated code computes with values.** -/
theorem callsHaveValues (h : run.Clean library script root n) (hscript : script.Valued)
    (hlibrary : library.Valued) (hu : (hostUnit run.tree checkpoints n).Gives u) :
    run.tree.CallsHaveValues u := by
  obtain ⟨roots, hshape⟩ := h.shaped
  have hstands : ∀ m ∈ u.methods, ∀ spot ∈ m.spots, spot.stmt = .checkpoint
      ∨ ∃ id s, run.tree.stmt? id = some s ∧ run.tree.Becomes s.kind spot.stmt := by
    intro m hm spot hspot
    obtain ⟨rules, o, block, body, hemitted⟩ := h.emitted hu hm
    rcases hemitted.stands hshape hspot with hcheck | ⟨id, s, hstands⟩
    · exact .inl hcheck
    · exact .inr ⟨id, s, hstands.stmt, hstands.becomes⟩
  refine ⟨fun f hf x hx hcall => h.hasValue_of_field hu hf hx hcall, ?_, ?_⟩
  · intro m hm spot hspot e he x hx hcall
    rcases hstands m hm spot hspot with hcheck | ⟨id, s, hs, hbecomes⟩
    · rw [hcheck] at he
      cases he
    rcases hbecomes.values with hvalues | ⟨-, ty, value, hvalue, heq⟩
    · obtain ⟨c, hc, hcode⟩ := exists_of_forall₂_right hvalues he
      exact h.hasValue_of_yields (h.value_ne_void hs hc) hcode hx hcall
    · rw [heq] at he
      obtain rfl := List.mem_singleton.mp he
      simp [HostExpr.isCall_of_isPlain (isPlain_defaultValue hvalue hx)] at hcall
  · intro m hm spot hspot e he x hx hcall
    rcases hstands m hm spot hspot with hcheck | ⟨id, s, hs, hbecomes⟩
    · rw [hcheck] at he
      cases he
    obtain ⟨c, hc, hcode⟩ := exists_of_forall₂_right hbecomes.clauses he
    exact h.hasValue_of_clause hscript hlibrary hcode hx hcall

end Run.Clean

/-! ### Scripts -/

/-- An expression of type `void` is a call that a statement evaluates, or it stands
in parentheses that a statement evaluates. -/
def Tree.VoidStandsAlone (t : Tree) : Prop :=
  ∀ id e, t.expr? id = some e → e.ty = .void →
    ∃ s stmt top n, t.stmt? s = some stmt ∧ top ∈ stmt.kind.clauses ∧ t.expr? top = some n
      ∧ (top = id ∧ e.kind.writes = true ∨ (∃ inner, n.kind = .paren inner) ∧ t.Behind top id)

/-- **What has no value is not computed with**, under any settings, in a script
without errors that declares nothing of type `void`, unless it is put into
parentheses and made a statement. -/
theorem Script.void_standsAlone {script : Script} {library : Catalog} {options : CheckOptions}
    {c : CheckedScript} (hlibrary : library.Constructed) (hscript : script.Valued)
    (h : script.check library options = .ok c) (hok : ∀ m ∈ c.notices, m.isFault = false) :
    c.tree.VoidStandsAlone
      ∧ ∀ settings u, c.hostUnit settings = .ok u → c.tree.CallsHaveValues u := by
  have hright := Script.hasErrors_eq_false h hok
  obtain ⟨run, n, hclean, htree⟩ := Script.check_clean h hright
  rw [← htree]
  constructor
  · intro id e he hv
    obtain ⟨s, stmt, top, hstmt, htop, hbehind⟩ := hclean.standsAlone he hv
    rcases hbehind.eq_or_paren with rfl | ⟨n, inner, hn, hk⟩
    · refine ⟨s, stmt, top, e, hstmt, htop, he, ?_⟩
      rcases hclean.kind_of_void hscript hlibrary.valued he hv with
        ⟨name, args, target, hk⟩ | ⟨inner, hk⟩
      · exact .inl ⟨rfl, by rw [hk]; rfl⟩
      · exact .inr ⟨⟨inner, hk⟩, .refl⟩
    · exact ⟨s, stmt, top, n, hstmt, htop, hn, .inr ⟨⟨inner, hk⟩, hbehind⟩⟩
  · intro settings u hu
    have hu := hclean.gives_hostUnit htree hu
    exact hclean.callsHaveValues hscript hlibrary.valued hu

section

open Build

/-- A script that calls functions for what they do and for their values. -/
def Script.reporting : Script :=
  { globals := [varDecl .integer "count" none]
    functions := [function .void "report" [param .string "text"]
        [exprStmt (call "llOwnerSay" [ident "text"])],
      function .integer "twice" [param .integer "n"]
        [ret (some (binary .mul (ident "n") (int 2)))]]
    defaultState := some (state defaultStateName [handler "state_entry" []
      [forLoop [call "report" [string "start"]]
          (some (binary .lt (ident "count") (call "twice" [int 4])))
          [prefixed .increment (ident "count"), call "llOwnerSay" [string "step"]] empty,
        exprStmt (call "report" [cast .string (ident "count")])]]) }

theorem Script.reporting_standsAlone : Script.reporting.Valued
    ∧ ∃ c, Script.reporting.check .standard { sortNotices := false } = .ok c
      ∧ (∀ m ∈ c.notices, m.isFault = false) ∧ c.tree.VoidStandsAlone
      ∧ ∀ settings u, c.hostUnit settings = .ok u → c.tree.CallsHaveValues u := by
  have hscript : Script.reporting.Valued := ⟨by decide, by decide, by decide⟩
  have hcheck : (Script.reporting.check .standard { sortNotices := false }).toOption.any
      (fun c => c.notices.all (!·.isFault)) = true := by decide +kernel
  obtain ⟨c, hc, hok⟩ := exists_ok_of_any hcheck
  have hok : ∀ m ∈ c.notices, m.isFault = false := by simpa using hok
  exact ⟨hscript, c, hc, hok, Script.void_standsAlone .standard hscript hc hok⟩

/-- A call in parentheses that is a statement. -/
def Script.callInParens : Script :=
  scriptWithEntry [exprStmt (paren (call "llOwnerSay" [string "x"]))]

/-- A call without a value is used as one if it is put into parentheses. -/
theorem Script.callInParens_forced : Script.callInParens.Valued
    ∧ ∃ c u, Script.callInParens.check .standard { sortNotices := false } = .ok c
      ∧ (∀ m ∈ c.notices, m.isFault = false) ∧ c.hostUnit {} = .ok u
      ∧ ∃ m ∈ u.methods, ∃ spot ∈ m.spots, ∃ e ∈ spot.stmt.clauses, ∃ x ∈ e.parts,
        x.isCall = true ∧ x ≠ e ∧ ¬ c.tree.HasValue x := by
  have hscript : Script.callInParens.Valued := ⟨by decide, by decide, by decide⟩
  have hcheck : (Script.callInParens.check .standard { sortNotices := false }).toOption.any
      (fun c => c.notices.all (!·.isFault)
        && (List.range c.tree.size).all (fun id =>
          (c.tree.expr? id).all fun e => !e.kind.writes || e.ty == .void)
        && (c.hostUnit {}).toOption.any fun u => u.methods.any fun m => m.spots.any fun spot =>
          spot.stmt.clauses.any fun e => !e.isCall && e.parts.any (·.isCall)) = true := by
    decide +kernel
  obtain ⟨c, hc, hP⟩ := exists_ok_of_any hcheck
  rw [Bool.and_eq_true] at hP
  obtain ⟨u, hu, hforced⟩ := exists_ok_of_any hP.2
  simp only [Bool.and_eq_true, List.all_eq_true, List.any_eq_true, Bool.not_eq_true',
    List.mem_range] at hP hforced
  obtain ⟨⟨hok, hcalls⟩, -⟩ := hP
  obtain ⟨m, hm, spot, hspot, e, he, hwhole, x, hx, hcall⟩ := hforced
  refine ⟨hscript, c, u, hc, hok, hu, m, hm, spot, hspot, e, he, x, hx, hcall, ?_, ?_⟩
  · rintro rfl
    simp [hwhole] at hcall
  · rintro ⟨id, n, name, args, target, hn, hk, hvalue, -⟩
    have hvoid := hcalls id (Tree.has_of_kind? (Tree.expr?_eq_some.mp hn))
    simp [hn, hk, ExprKind.writes, hvalue] at hvoid

end

end Lsl
