/- # What the code of an expression refers to

The code of an expression is made of the code of its operands, with something
around it: a call, an operation, a write, parentheses. So everything in it was
brought there by some node, a name for what it stands for and an operation for
itself, and what it refers to is what the expression refers to.

Key definitions: `HostExpr.Frames`, `Tree.Adds`, `Tree.Brings`.
Key theorems: `hostExprWithin_madeOf`, `hostExprWithin_brings`, `Tree.Becomes.brings`.
-/
import Lsl.Proofs.Check.Uses
import Lsl.Proofs.Generate.Emission
import Lsl.Proofs.Host.Operations
import Mathlib.Data.List.Perm.Subperm

namespace Lsl

open Generator

/-! ### What is in the code of an expression -/

namespace HostExpr

/-- A local variable, or what stands for one that is never declared. -/
def isLocal : HostExpr → Bool
  | inner .. | absent _ => true
  | _ => false

/-- A name of a variable, or what stands for one that is never declared. -/
def isName : HostExpr → Bool
  | global .. | param _ | inner .. | absent _ => true
  | _ => false

/-- A literal, or a value that is made of literals. -/
def isPlain : HostExpr → Bool
  | text _ | make .. => true
  | _ => false

/-- What an expression writes to. -/
def written? : HostExpr → Option HostExpr
  | assign _ target _ | assignRounded target _ | stepBefore _ target | stepAfter _ target =>
    some target
  | _ => none

/-- The expression inside all parentheses around it. -/
def bare : HostExpr → HostExpr
  | paren e => e.bare
  | e => e

/-- A component of what stands for a variable that is never declared. -/
def isAbsentComponent (e : HostExpr) : Bool :=
  match e.bare with
  | component object _ =>
    match object.bare with
    | absent _ => true
    | _ => false
  | _ => false

/-- The code is made of the given expressions, with something new around them. -/
def Frames (new : HostExpr → Prop) (es code : List HostExpr) : Prop :=
  ∃ around, (code.flatMap parts).Perm (around ++ es.flatMap parts) ∧ ∀ x ∈ around, new x

namespace Frames

variable {new : HostExpr → Prop} {e : HostExpr} {es es' code code' : List HostExpr}

theorem self (es : List HostExpr) : Frames new es es := ⟨[], .refl _, by simp⟩

/-- A new expression around others. -/
theorem wrap (he : new e) (h : Frames new es e.args) : Frames new es [e] := by
  obtain ⟨around, hperm, hnew⟩ := h
  refine ⟨e :: around, ?_, fun x hx => ?_⟩
  · rw [List.flatMap_singleton, parts_eq]
    exact hperm.cons e
  · rcases List.mem_cons.mp hx with rfl | hx
    · exact he
    · exact hnew x hx

theorem append (h : Frames new es code) (h' : Frames new es' code') :
    Frames new (es ++ es') (code ++ code') := by
  obtain ⟨around, hperm, hnew⟩ := h
  obtain ⟨around', hperm', hnew'⟩ := h'
  refine ⟨around ++ around', ?_, fun x hx => ?_⟩
  · rw [List.flatMap_append, List.flatMap_append]
    refine (hperm.append hperm').trans ?_
    rw [List.append_assoc, List.append_assoc]
    refine List.Perm.append_left _ ?_
    rw [← List.append_assoc, ← List.append_assoc]
    exact List.perm_append_comm.append_right _
  · exact (List.mem_append.mp hx).elim (hnew x) (hnew' x)

/-- Each expression with something around it. -/
theorem of_forall₂ (h : List.Forall₂ (fun e x => Frames new [e] [x]) es code) :
    Frames new es code := by
  induction h with
  | nil => exact self []
  | cons hone _ ih => exact hone.append ih

/-- A property of what is new and of what is given is one of the whole. -/
theorem forall_parts {Q : HostExpr → Prop} (h : Frames new es code) (hnew : ∀ x, new x → Q x)
    (hes : ∀ e ∈ es, ∀ x ∈ e.parts, Q x) : ∀ e ∈ code, ∀ x ∈ e.parts, Q x := by
  intro e he x hx
  obtain ⟨around, hperm, hnew'⟩ := h
  have hmem := hperm.mem_iff.mp (List.mem_flatMap.mpr ⟨e, he, hx⟩)
  rcases List.mem_append.mp hmem with hmem | hmem
  · exact hnew x (hnew' x hmem)
  · obtain ⟨e', he', hx'⟩ := List.mem_flatMap.mp hmem
    exact hes e' he' x hx'

/-- What is in the whole is new or was given. -/
theorem new_or_given {x : HostExpr} (h : Frames new es [e]) (hx : x ∈ e.parts) :
    new x ∨ ∃ e' ∈ es, x ∈ e'.parts :=
  h.forall_parts (Q := fun x => new x ∨ ∃ e' ∈ es, x ∈ e'.parts) (fun _ => .inl)
    (fun e' he' _ hx => .inr ⟨e', he', hx⟩) e List.mem_cons_self x hx

end Frames

end HostExpr

/-! ### Constants and names -/

theorem HostExpr.isPlain_make {ty : Ty} {args : List HostExpr} {x : HostExpr}
    (h : ∀ a ∈ args, ∀ y ∈ a.parts, y.isPlain = true) (hx : x ∈ (make ty args).parts) :
    x.isPlain = true := by
  rw [parts_eq] at hx
  rcases List.mem_cons.mp hx with rfl | hx
  · rfl
  · obtain ⟨a, ha, hx⟩ := List.mem_flatMap.mp hx
    exact h a ha x hx

theorem HostExpr.isPlain_text {code : String} {x : HostExpr} (hx : x ∈ (text code).parts) :
    x.isPlain = true := by
  obtain rfl := List.mem_singleton.mp hx
  rfl

namespace Constant

theorem isPlain_boxed {ty : Ty} {text : List Char} {x : HostExpr}
    (hx : x ∈ (boxed ty text).parts) : x.isPlain = true :=
  HostExpr.isPlain_make (fun a ha y hy => by
    obtain rfl := List.mem_singleton.mp ha
    exact HostExpr.isPlain_text hy) hx

theorem isPlain_element {text : List Char} {x : HostExpr} (hx : x ∈ (element text).parts) :
    x.isPlain = true := by
  unfold element at hx
  split at hx
  · exact isPlain_boxed hx
  · exact isPlain_boxed hx
  · split at hx <;> exact isPlain_boxed hx

end Constant

theorem LibraryConstant.isPlain_expanded {k : LibraryConstant} {e x : HostExpr}
    (h : k.expanded? = some e) (hx : x ∈ e.parts) : x.isPlain = true := by
  unfold expanded? at h
  split at h
  · cases h
  all_goals obtain rfl := Option.some.inj h
  -- lists are made of their elements, all else of one literal
  on_goal 7 =>
    refine HostExpr.isPlain_make (fun item hitem x hx => ?_) hx
    obtain ⟨text, -, rfl⟩ := List.mem_map.mp hitem
    exact Constant.isPlain_element hx
  all_goals exact Constant.isPlain_boxed hx

/-- What a variable starts with unless a script says so is plain. -/
theorem isPlain_defaultValue {ty : Ty} {e x : HostExpr} (h : (defaultValue ty).Gives e)
    (hx : x ∈ e.parts) : x.isPlain = true := by
  cases ty with
  | void => exact absurd h not_gives_throw
  | _ =>
    obtain rfl := h.pure
    simp only [HostExpr.parts, HostExpr.inside, HostExpr.insideAll, List.append_nil,
      List.mem_cons, List.not_mem_nil, or_false] at hx
    rcases hx with rfl | rfl <;> rfl

/-- What a name in a script becomes. -/
def Tree.NameCode (t : Tree) (inContainer : Bool) (name : String) (ty : Ty) (e : HostExpr) :
    Binding → Prop
  | .global _ => e = .global inContainer name
  | .param _ => e = .param name
  | .inner d => t.isDeadDeclaration d = true ∧ ty ≠ .void ∧ e = .absent ty
    ∨ t.isDeadDeclaration d = false ∧ ∃ v, t.var? d = some v ∧ e = .inner v.declaredIn name
  | .constant _ => ∀ x ∈ e.parts, x.isPlain = true

section

variable {t : Tree} {inContainer : Bool} {name : String} {ty : Ty} {binding : Binding}
  {e x : HostExpr}

theorem referenceCode_nameCode (h : (referenceCode t inContainer name ty binding).Gives e) :
    t.NameCode inContainer name ty e binding := by
  cases binding with
  | global d => exact h.pure.symm
  | param d => exact h.pure.symm
  | inner d =>
    simp only [referenceCode] at h
    split at h
    · rename_i hdead
      refine .inl ⟨hdead, ?_⟩
      cases ty <;> first | exact ⟨by simp, h.pure.symm⟩ | exact absurd h not_gives_throw
    · rename_i hlive
      obtain ⟨v, hv, h⟩ := h.bind
      exact .inr ⟨by simpa using hlive, v, hv.expect, h.pure.symm⟩
  | constant k =>
    intro x hx
    simp only [referenceCode] at h
    split at h
    · split at h
      · rename_i value hvalue
        obtain rfl := h.pure
        exact k.isPlain_expanded hvalue hx
      · exact absurd h not_gives_throw
    · obtain rfl := h.pure
      exact HostExpr.isPlain_text hx

/-- What is in the code of a name: the name itself, or plain values. -/
theorem Tree.NameCode.parts (h : t.NameCode inContainer name ty e binding) (hx : x ∈ e.parts) :
    x = e ∧ e.isName = true ∨ x.isPlain = true := by
  have hname : e.isName = true → e.inside = [] → x = e ∧ e.isName = true := by
    intro hname hnone
    refine ⟨?_, hname⟩
    rw [HostExpr.parts, hnone] at hx
    exact List.mem_singleton.mp hx
  cases binding with
  | global d | param d =>
    obtain rfl := h
    exact .inl (hname rfl rfl)
  | inner d =>
    rcases h with ⟨-, -, rfl⟩ | ⟨-, v, -, rfl⟩
    · exact .inl (hname rfl rfl)
    · exact .inl (hname rfl rfl)
  | constant k => exact .inr (h x hx)

end

/-! ### The code of an expression around that of its operands -/

variable {t : Tree} {inContainer : Bool} {depth : Nat} {pos : Position} {e : HostExpr} {id : NodeId}
  {operand : OperandCode}

/-- The expression is a call, and this is the code of it. -/
def Tree.CodesCall (t : Tree) (operand : OperandCode) (n : ExprNode) (e : HostExpr) : Prop :=
  ∃ name args target, n.kind = .call name args target
    ∧ (callCode t operand name args n.ty target).Gives e

/-- The expression writes, and this is the code of what it writes to. -/
def Tree.CodesTarget (t : Tree) (operand : OperandCode) (n : ExprNode) (e : HostExpr) : Prop :=
  ∃ c, n.kind.written? = some c ∧ (t.isDeadComponent c = false ∨ t.exprType c = .integer)
    ∧ (operand .value c).Gives e

/-- The expression is an operation on its two operands: the operator itself, or the
one that a compound assignment applies before it stores, where nothing is stored. -/
def Tree.CodesOperation (t : Tree) (n : ExprNode) (o : Operation) : Prop :=
  ∃ op left right, n.kind = .binary op left right
    ∧ o = ⟨t.exprType left, o.op, t.exprType right, n.ty⟩
    ∧ (op = o.op ∨ op.base? = some o.op ∧ t.isDeadComponent left = true)

/-- What the code of an expression may have besides that of its operands. -/
def Tree.Adds (t : Tree) (operand : OperandCode) (n : ExprNode) : HostExpr → Prop
  | .inner .. | .absent _ | .global .. | .param _ => False
  | .callFunction name args => t.CodesCall operand n (.callFunction name args)
  | .callLibrary name args => t.CodesCall operand n (.callLibrary name args)
  | .callModule ty name args => t.CodesCall operand n (.callModule ty name args)
  | .assign _ target _ | .assignRounded target _ | .stepBefore _ target | .stepAfter _ target =>
    t.CodesTarget operand n target
  | .operate o _ _ | .unstored o _ _ => t.CodesOperation n o
  | _ => True

/-- The code is made of that of some operands. -/
def Tree.MadeOf (t : Tree) (operand : OperandCode) (n : ExprNode) (e : HostExpr) : Prop :=
  ∃ cs es, cs.Subperm n.kind.children
    ∧ List.Forall₂ (fun c x => ∃ pos, (operand pos c).Gives x) cs es
    ∧ HostExpr.Frames (t.Adds operand n) es [e]

section

variable {n : ExprNode} {es : List HostExpr}

open HostExpr (Frames)

theorem Position.frames_enclose (pos : Position) (h : Frames (t.Adds operand n) es [e]) :
    Frames (t.Adds operand n) es [pos.enclose e] := by
  unfold enclose
  split
  · exact h
  · exact .wrap trivial h

theorem Position.frames_discardWrite (pos : Position) (h : Frames (t.Adds operand n) es [e]) :
    Frames (t.Adds operand n) es [pos.discardWrite e] := by
  unfold discardWrite
  split
  · exact .wrap trivial h
  · exact .wrap trivial h

theorem Position.frames_number (pos : Position) (ty : Ty) (text : String) :
    Frames (t.Adds operand n) [] [pos.number ty text] := by
  unfold number
  split
  · exact .wrap trivial (.self [])
  · exact .wrap trivial (.wrap trivial (.self []))

theorem castCode_frames (source ty : Ty) (e : HostExpr) :
    Frames (t.Adds operand n) [e] [castCode source ty e] := by
  unfold castCode
  split
  · exact .self [e]
  · exact .wrap trivial (.self [e])

/-- Code made of that of all operands, in their order. -/
theorem Tree.MadeOf.of_forall₂ {cs : List NodeId} (hcs : cs.Subperm n.kind.children)
    (hes : List.Forall₂ (fun c x => (operand pos c).Gives x) cs es)
    (h : Frames (t.Adds operand n) es [e]) : t.MadeOf operand n e :=
  ⟨cs, es, hcs, hes.imp fun _ _ hx => ⟨pos, hx⟩, h⟩

/-- A literal is made of nothing. -/
theorem Tree.MadeOf.of_nil (h : Frames (t.Adds operand n) [] [e]) : t.MadeOf operand n e :=
  ⟨[], [], List.nil_subperm, .nil, h⟩

/-- Code made of that of one operand. -/
theorem Tree.MadeOf.of_one {c : NodeId} {x : HostExpr} (hc : [c].Subperm n.kind.children)
    (hx : (operand pos c).Gives x) (h : Frames (t.Adds operand n) [x] [e]) : t.MadeOf operand n e :=
  .of_forall₂ hc (.cons hx .nil) h

/-- Code made of that of two operands. -/
theorem Tree.MadeOf.of_two {c c' : NodeId} {x x' : HostExpr} (hcs : [c, c'].Subperm n.kind.children)
    (hx : (operand pos c).Gives x) (hx' : (operand pos c').Gives x')
    (h : Frames (t.Adds operand n) [x, x'] [e]) : t.MadeOf operand n e :=
  .of_forall₂ hcs (.cons hx (.cons hx' .nil)) h

theorem prefixedCode_frames {op : PrefixOp} {inner : NodeId} (ty : Ty)
    (hn : n.kind = .prefixed op inner) (h : (operand .value inner).Gives e) :
    Frames (t.Adds operand n) [e]
      [prefixedCode op ty (t.isDeadComponent inner) pos e] := by
  have step : op.modifiesOperand = true → Frames (t.Adds operand n) [e]
      [if t.isDeadComponent inner then pos.discardWrite (.neighbour e (op == .increment))
        else pos.enclose (.stepBefore op e)] := fun hop => by
    split
    · exact pos.frames_discardWrite (.wrap trivial (.self [e]))
    · rename_i hlive
      refine pos.frames_enclose (.wrap ⟨inner, ?_, .inl (by simpa using hlive), h⟩ (.self [e]))
      simp [hn, ExprKind.written?, hop]
  cases op with
  | increment => exact step rfl
  | decrement => exact step rfl
  | negate =>
    simp only [prefixedCode]
    split <;> exact .wrap trivial (.self [e])
  | positive =>
    simp only [prefixedCode]
    split <;> exact .wrap trivial (.self [e])
  | not => exact .wrap trivial (.self [e])
  | bitNot => exact .wrap trivial (.self [e])

theorem postfixedCode_frames {op : PostfixOp} {inner : NodeId}
    (hn : n.kind = .postfixed op inner) (h : (operand .value inner).Gives e) :
    Frames (t.Adds operand n) [e]
      [postfixedCode op (t.isDeadComponent inner) pos e] := by
  unfold postfixedCode
  split
  · exact pos.frames_discardWrite (.self [e])
  · rename_i hlive
    exact pos.frames_enclose
      (.wrap ⟨inner, by rw [hn]; rfl, .inl (by simpa using hlive), h⟩ (.self [e]))

theorem callCode_madeOf {name : String} {args : List NodeId} {target : CallTarget}
    (hn : n.kind = .call name args target) (h : (callCode t operand name args n.ty target).Gives e) :
    t.MadeOf operand n e := by
  have hcall : t.CodesCall operand n e := ⟨name, args, target, hn, h⟩
  have hargs : args.Subperm n.kind.children := by
    rw [hn]
    exact .refl _
  cases target with
  | user f =>
    obtain ⟨es, hes, h⟩ := h.bind
    obtain rfl := h.pure
    -- an argument may be copied
    have hcopies : List.Forall₂ (fun a x => ∃ y, (operand .value a).Gives y
        ∧ Frames (t.Adds operand n) [y] [x]) args es := by
      refine hes.mapM.imp fun a x hx => ?_
      obtain ⟨y, hy, hx⟩ := hx.bind
      refine ⟨y, hy, ?_⟩
      obtain rfl := hx.pure
      split
      · exact .wrap trivial (.self [y])
      · exact .self [y]
    obtain ⟨ys, hys, hframes⟩ := exists_of_forall₂_comp hcopies
    exact .of_forall₂ hargs hys (.wrap hcall (.of_forall₂ hframes))
  | library modInvoke params =>
    cases modInvoke
    all_goals
      obtain ⟨es, hes, h⟩ := h.bind
      obtain rfl := h.pure
      exact .of_forall₂ hargs hes.mapM (.wrap hcall (.self es))

theorem deadAssignmentCode_madeOf {op : BinaryOp} {operation : BinaryOp → Operation}
    {left right : NodeId} (hn : n.kind = .binary op left right)
    (hop : ∀ base, op.base? = some base → t.CodesOperation n (operation base))
    (h : (deadAssignmentCode operand op operation left right pos).Gives e) :
    t.MadeOf operand n e := by
  have hright : [right].Subperm n.kind.children := by
    rw [hn]
    exact (List.sublist_cons_self left [right]).subperm
  have hswap : [right, left].Subperm n.kind.children := by
    rw [hn]
    exact (List.Perm.swap left right []).subperm
  obtain ⟨r, hr, h⟩ := h.bind
  split at h
  · rename_i base hbase
    split at h
    · obtain rfl := h.pure
      exact .of_one hright hr (pos.frames_discardWrite (.self [r]))
    · obtain ⟨-, -, h⟩ := h.bind
      obtain ⟨l, hl, h⟩ := h.bind
      obtain rfl := h.pure
      exact .of_two hswap hr hl
        (pos.frames_discardWrite (.wrap (hop base hbase) (.self [r, l])))
  · obtain rfl := h.pure
    exact .of_one hright hr (pos.frames_discardWrite (.self [r]))

theorem binaryCode_madeOf {op : BinaryOp} {left right : NodeId}
    (hn : n.kind = .binary op left right)
    (h : (binaryCode t operand op left right n.ty pos).Gives e) : t.MadeOf operand n e := by
  have hboth : [left, right].Subperm n.kind.children := by
    rw [hn]
    exact .refl _
  have hswap : [right, left].Subperm n.kind.children := by
    rw [hn]
    exact (List.Perm.swap left right []).subperm
  unfold binaryCode at h
  simp only at h
  split at h
  · obtain ⟨r, hr, h⟩ := h.bind
    obtain ⟨l, hl, h⟩ := h.bind
    obtain rfl := h.pure
    exact .of_two hswap hr hl (.wrap trivial (.self [r, l]))
  split at h
  · rename_i hround
    obtain ⟨l, hl, h⟩ := h.bind
    obtain ⟨r, hr, h⟩ := h.bind
    obtain rfl := h.pure
    simp only [Bool.and_eq_true, decide_eq_true_eq] at hround
    obtain ⟨⟨rfl, hint⟩, -⟩ := hround
    exact .of_two hboth hl hr
      (pos.frames_enclose (.wrap ⟨left, by rw [hn]; rfl, .inr hint, hl⟩ (.self [l, r])))
  split at h
  · rename_i hassign
    split at h
    · rename_i hdead
      exact deadAssignmentCode_madeOf hn
        (fun base hbase => ⟨op, left, right, hn, rfl, .inr ⟨hbase, hdead⟩⟩) h
    · rename_i hlive
      obtain ⟨l, hl, h⟩ := h.bind
      obtain ⟨r, hr, h⟩ := h.bind
      obtain rfl := h.pure
      refine .of_two hboth hl hr
        (pos.frames_enclose (.wrap ⟨left, ?_, .inl ?_, hl⟩ (.self [l, r])))
      · simp [hn, ExprKind.written?, hassign]
      · simpa using hlive
  · obtain ⟨-, -, h⟩ := h.bind
    obtain ⟨r, hr, h⟩ := h.bind
    obtain ⟨l, hl, h⟩ := h.bind
    obtain rfl := h.pure
    exact .of_two hswap hr hl (.wrap ⟨op, left, right, hn, rfl, .inl rfl⟩ (.self [r, l]))

end

/-- **The code of an expression** is that of a name, or is made of the code of its
operands. -/
theorem hostExprWithin_madeOf {n : ExprNode} (hn : t.expr? id = some n)
    (h : (hostExprWithin t inContainer (depth + 1) pos id).Gives e) :
    (∃ name binding, n.kind = .ref name binding
        ∧ (referenceCode t inContainer name n.ty binding).Gives e)
      ∨ t.MadeOf (hostExprWithin t inContainer depth) n e := by
  rw [hostExprWithin, hn] at h
  obtain ⟨n', hn', h⟩ := h.bind
  obtain rfl := Option.some.inj (hn'.expect)
  rcases n with ⟨kind, ty, constant⟩
  cases kind with
  | integer text | float text =>
    obtain rfl := h.pure
    exact .inr (.of_nil (pos.frames_number _ _))
  | hex text =>
    obtain rfl := h.pure
    exact .inr (.of_nil (.wrap trivial (.wrap trivial (.self []))))
  | string text =>
    obtain rfl := h.pure
    refine .inr (.of_nil ?_)
    split
    · exact .wrap trivial (.self [])
    · exact .wrap trivial (.wrap trivial (.self []))
  | vector | rotation | list =>
    obtain ⟨es, hes, h⟩ := h.bind
    obtain rfl := h.pure
    exact .inr (.of_forall₂ (.refl _) hes.mapM (.wrap trivial (.wrap trivial (.self es))))
  | ref name binding => exact .inl ⟨name, binding, rfl, h⟩
  | call name args target => exact .inr (callCode_madeOf rfl h)
  | binary op left right => exact .inr (binaryCode_madeOf rfl h)
  | prefixed op inner =>
    obtain ⟨code, hcode, h⟩ := h.bind
    obtain rfl := h.pure
    exact .inr (.of_one (.refl _) hcode (prefixedCode_frames _ rfl hcode))
  | postfixed op inner =>
    obtain ⟨code, hcode, h⟩ := h.bind
    obtain rfl := h.pure
    exact .inr (.of_one (.refl _) hcode (postfixedCode_frames rfl hcode))
  | cast ty inner =>
    obtain ⟨code, hcode, h⟩ := h.bind
    obtain rfl := h.pure
    exact .inr (.of_one (.refl _) hcode (castCode_frames _ _ code))
  | component inner | paren inner =>
    obtain ⟨code, hcode, h⟩ := h.bind
    obtain rfl := h.pure
    exact .inr (.of_one (.refl _) hcode (.wrap trivial (.self [code])))

/-! ### What brings what -/

namespace HostExpr

/-- What may be in the code of a statement though no expression brings it. -/
def isGlue : HostExpr → Bool
  | text _ | make .. | force _ | toBool _ | keyToBool _ => true
  | _ => false

theorem isGlue_of_isPlain {e : HostExpr} (h : e.isPlain = true) : e.isGlue = true := by
  cases e <;> first | rfl | cases h

/-- What is in glue around an expression. -/
theorem glue_or_mem {e code x : HostExpr} (he : e.isGlue = true) (hargs : e.args = [code])
    (hx : x ∈ e.parts) : x.isGlue = true ∨ x ∈ code.parts := by
  rw [parts_eq, hargs] at hx
  rcases List.mem_cons.mp hx with rfl | hx
  · exact .inl he
  · exact .inr (by simpa using hx)

end HostExpr

/-- The code is there because of this expression: the expression is a name that
became it, or an operation that puts it around its operands. -/
def Tree.Brings (t : Tree) (inContainer : Bool) (n : ExprNode) (x : HostExpr) : Prop :=
  (∃ name binding e, n.kind = .ref name binding
      ∧ (referenceCode t inContainer name n.ty binding).Gives e ∧ x ∈ e.parts)
    ∨ ∃ depth, t.Adds (hostExprWithin t inContainer depth) n x

variable {script : Script} {library : Catalog} {roots : List NodeId} {rules : Rules}
  {o : Surroundings} {visible : List (String × NodeId)} {x : HostExpr}

/-- Something in the code of an expression is brought by the expression or a part of
it, which sees the same. -/
theorem hostExprWithin_brings (hshape : t.Shaped script library roots) :
    ∀ (depth : Nat) {pos : Position} {id : NodeId} {e : HostExpr}, t.Sees rules o visible id →
      (hostExprWithin t inContainer depth pos id).Gives e → x ∈ e.parts →
      ∃ id' n, t.Within id' id ∧ t.Sees rules o visible id' ∧ t.expr? id' = some n
        ∧ t.Brings inContainer n x
  | 0, _, _, _, _, he, _ => absurd he not_gives_throw
  | depth + 1, pos, id, e, hsees, he, hx => by
    obtain ⟨n, hn, -⟩ := he.bind
    have hn := hn.expect
    rcases hostExprWithin_madeOf hn he with ⟨name, binding, hk, href⟩ | ⟨cs, es, hcs, hes, hframes⟩
    · exact ⟨id, n, .refl id, hsees, hn, .inl ⟨name, binding, e, hk, href, hx⟩⟩
    rcases hframes.new_or_given hx with hnew | ⟨e', he', hx⟩
    · exact ⟨id, n, .refl id, hsees, hn, .inr ⟨depth, hnew⟩⟩
    · obtain ⟨c, hc, pos', hcode⟩ := exists_of_forall₂_right hes he'
      have hpart := hcs.subset hc
      have hparent : t.parent? c = some id := by
        refine hshape.links id c ?_
        rw [Tree.children_of_kind? (Tree.expr?_eq_some.mp hn)]
        exact hpart
      have hsees' : t.Sees rules o visible c := by
        cases hsees with
        | error h => simp [Tree.expr?, h, NodeKind.expr?] at hn
        | expr n' hn' _ _ hparts =>
          obtain rfl := Option.some.inj (hn.symm.trans hn')
          exact hparts c hpart
      obtain ⟨id', n', hin, hbrings⟩ := hostExprWithin_brings hshape depth hsees' hcode hx
      exact ⟨id', n', hin.trans (.of_parent hparent), hbrings⟩

namespace Tree

/-- **Everything in the code of a statement is brought by an expression in it**, glue
apart. -/
theorem Becomes.brings (hshape : t.Shaped script library roots) {k : StmtKind} {s : HostStmt}
    {e : HostExpr} (h : t.Becomes k s) (hsees : ∀ c ∈ k.terms, t.Sees rules o visible c)
    (he : e ∈ s.exprs) (hx : x ∈ e.parts) :
    x.isGlue = true ∨ ∃ c ∈ k.terms, ∃ id n, t.Within id c ∧ t.Sees rules o visible id
      ∧ t.expr? id = some n ∧ t.Brings false n x := by
  have hterm : ∀ {c : NodeId} {pos : Position} {code : HostExpr}, c ∈ k.terms →
      (hostExpr t false pos c).Gives code → x ∈ code.parts → ∃ c ∈ k.terms, ∃ id n, t.Within id c
        ∧ t.Sees rules o visible id ∧ t.expr? id = some n ∧ t.Brings false n x :=
    fun hc hcode hx => ⟨_, hc, hostExprWithin_brings hshape _ (hsees _ hc) hcode hx⟩
  rcases List.mem_append.mp he with he | he
  · obtain ⟨c, hc, hcode⟩ := exists_of_forall₂_right h.clauses he
    have hc := StmtKind.mem_terms.mpr (.inl hc)
    obtain ⟨n, -, ⟨-, hwhole⟩ | ⟨-, code, hvalue, rfl⟩⟩ := code_of_hostStatement hcode
    · exact .inr (hterm hc hwhole hx)
    · exact (HostExpr.glue_or_mem rfl rfl hx).imp_right (hterm hc hvalue)
  · rcases h.values with hvalues | ⟨-, ty, value, hvalue, heq⟩
    · obtain ⟨c, hc, code, hcode, hform⟩ := exists_of_forall₂_right hvalues he
      have hin : x.isGlue = true ∨ x ∈ code.parts := by
        rcases hform with rfl | rfl | rfl
        · exact .inr hx
        · exact HostExpr.glue_or_mem rfl rfl hx
        · exact HostExpr.glue_or_mem rfl rfl hx
      exact hin.imp_right (hterm (StmtKind.mem_terms.mpr (.inr hc)) hcode)
    · rw [heq] at he
      obtain rfl := List.mem_singleton.mp he
      exact .inl (HostExpr.isGlue_of_isPlain (isPlain_defaultValue hvalue hx))

namespace Brings

variable {n : ExprNode}

/-- A name is brought by a name. -/
theorem of_name (h : t.Brings inContainer n x) (hx : x.isName = true) :
    ∃ name binding, n.kind = .ref name binding ∧ binding.isConstant = false
      ∧ t.NameCode inContainer name n.ty x binding := by
  have hother : x.isPlain = false := by cases x <;> first | rfl | cases hx
  rcases h with ⟨name, binding, e, hk, href, hmem⟩ | ⟨depth, hadds⟩
  · have hcode := referenceCode_nameCode href
    rcases hcode.parts hmem with ⟨rfl, -⟩ | hplain
    · refine ⟨name, binding, hk, ?_, hcode⟩
      cases binding with
      | constant k => simp [hcode x List.mem_cons_self] at hother
      | _ => rfl
    · simp [hplain] at hother
  · cases x with
    | global | inner | param | absent => exact hadds.elim
    | _ => cases hx

/-- A local variable is brought by a name of one. -/
theorem of_local (h : t.Brings inContainer n x) (hx : x.isLocal = true) :
    ∃ name d, n.kind = .ref name (.inner d)
      ∧ t.NameCode inContainer name n.ty x (.inner d) := by
  obtain ⟨name, binding, hk, hvar, hcode⟩ := h.of_name (by cases x <;> first | rfl | cases hx)
  cases binding with
  | inner d => exact ⟨name, d, hk, hcode⟩
  | global d | param d =>
    obtain rfl := hcode
    cases hx
  | constant => cases hvar

theorem of_global {c : Bool} {name : String} (h : t.Brings inContainer n (.global c name)) :
    c = inContainer ∧ ∃ d, n.kind = .ref name (.global d) := by
  obtain ⟨name', binding, hk, hvar, hcode⟩ := h.of_name rfl
  cases binding with
  | global d =>
    cases hcode
    exact ⟨rfl, d, hk⟩
  | param d => cases hcode
  | inner d => rcases hcode with ⟨-, -, h⟩ | ⟨-, v, -, h⟩ <;> cases h
  | constant => cases hvar

theorem of_param {name : String} (h : t.Brings inContainer n (.param name)) :
    ∃ d, n.kind = .ref name (.param d) := by
  obtain ⟨name', binding, hk, hvar, hcode⟩ := h.of_name rfl
  cases binding with
  | param d =>
    cases hcode
    exact ⟨d, hk⟩
  | global d => cases hcode
  | inner d => rcases hcode with ⟨-, -, h⟩ | ⟨-, v, -, h⟩ <;> cases h
  | constant => cases hvar

/-- What is neither a name nor plain is brought by an operation. -/
theorem of_other (h : t.Brings inContainer n x) (hname : x.isName = false)
    (hplain : x.isPlain = false) : ∃ depth, t.Adds (hostExprWithin t inContainer depth) n x := by
  rcases h with ⟨name, binding, e, -, href, hmem⟩ | hadds
  · rcases (referenceCode_nameCode href).parts hmem with ⟨rfl, hx⟩ | hx
    · simp [hx] at hname
    · simp [hx] at hplain
  · exact hadds

theorem of_callFunction {name : String} {args : List HostExpr}
    (h : t.Brings inContainer n (.callFunction name args)) :
    ∃ as f, n.kind = .call name as (.user f) := by
  obtain ⟨depth, name', as, target, hk, hcode⟩ := h.of_other rfl rfl
  cases target with
  | user f =>
    obtain ⟨es, -, hcode⟩ := hcode.bind
    cases hcode.pure
    exact ⟨as, f, hk⟩
  | library modInvoke params =>
    cases modInvoke
    all_goals
      obtain ⟨es, -, hcode⟩ := hcode.bind
      cases hcode.pure

theorem of_operation {o : Operation} (h : t.Brings inContainer n x)
    (hx : x.operation? = some o) : t.CodesOperation n o := by
  obtain ⟨depth, hadds⟩ := h.of_other (by cases x <;> first | rfl | cases hx)
    (by cases x <;> first | rfl | cases hx)
  cases x with
  | operate | unstored =>
    obtain rfl := Option.some.inj hx
    exact hadds
  | _ => cases hx

theorem of_written {target : HostExpr} (h : t.Brings inContainer n x)
    (hx : x.written? = some target) :
    ∃ depth, t.CodesTarget (hostExprWithin t inContainer depth) n target := by
  obtain ⟨depth, hadds⟩ := h.of_other (by cases x <;> first | rfl | cases hx)
    (by cases x <;> first | rfl | cases hx)
  refine ⟨depth, ?_⟩
  cases x with
  | assign | assignRounded | stepBefore | stepAfter =>
    obtain rfl := Option.some.inj hx
    exact hadds
  | _ => cases hx

end Brings

end Tree

end Lsl
