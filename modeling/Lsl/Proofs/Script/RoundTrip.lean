/- # Scripts are read back as they were written

Every written form of a script is read as that script, and what is written of a
script is one of its written forms. So writing a script and reading it again
changes nothing.

The readers of expressions and statements bound the nesting by the height of the
value that they start from. Each level of an expression takes up at least two levels of
JSON, so the bound is never met.

Key theorems: `Expr.decode_of_writtenAs`, `Stmt.decode_of_writtenAs`,
`Script.ofJson_of_writtenAs`, `Script.readBack`.
-/
import Lsl.Proofs.Script.Written
import Lsl.Script.Build

namespace Lsl

open Json (IsTag Items OrNull required_of_shows defaulted_of_mayShow optional_of_mayShow
  nullable_of_orNull asList_of_items asTag_of_isTag)

/-! ### Leaves -/

theorem Json.asOffset_nat {n : Nat} (h : n ≤ Json.offsetLimit) : Json.asOffset (.nat n) = .ok n :=
  if_pos h

theorem Span.ofJson_of_writtenAs {s : Span} {v : Json} (h : s.WrittenAs v) :
    Span.ofJson v = .ok s := by
  obtain ⟨⟨hstart, hstop⟩, h1, h2⟩ := h
  have hread1 : v.required "start" Json.asOffset = .ok s.start :=
    required_of_shows h1 fun w _ hw => hw ▸ Json.asOffset_nat hstart
  have hread2 : v.required "end" Json.asOffset = .ok s.stop :=
    required_of_shows h2 fun w _ hw => hw ▸ Json.asOffset_nat hstop
  rw [Span.ofJson, hread1, hread2]
  rfl

theorem readSpan_of_showsSpan {s : Span} {v : Json} (h : v.ShowsSpan s) : readSpan v = .ok s :=
  defaulted_of_mayShow h fun _ _ hw => Span.ofJson_of_writtenAs hw

theorem readTy_of_shows {ty : Ty} {v : Json} {name : String} (h : v.Shows name (IsTag ty.name)) :
    readTy v name = .ok ty := Json.required_tag h ty.ofTag?_name

/-- The payload of a kind stands two levels lower than the object around it. -/
theorem Json.Tagged.height_lt {v p : Json} {s : Span} {tag : String} (h : v.Tagged s tag p) :
    p.height + 1 < v.height := by
  obtain ⟨⟨kind, hkind, rfl⟩, -⟩ := h
  have hlt := Json.height_lt_of_field? hkind
  simpa [tagged, Json.height, Json.heightFields] using hlt

theorem Json.Tagged.ne_null {v p : Json} {s : Span} {tag : String} (h : v.Tagged s tag p) :
    v ≠ .null := h.1.ne_null

theorem Json.Tagged.variant {v p : Json} {s : Span} {tag : String} (h : v.Tagged s tag p) :
    v.required "kind" Json.variant = .ok (tag, some p) :=
  required_of_shows h.1 fun _ _ hw => hw ▸ rfl

/-! ### Expressions -/

namespace Expr

theorem ne_null_of_writtenAs {e : Expr} {v : Json} (h : e.WrittenAs v) : v ≠ .null := by
  cases e with
  | integer | hex | float | string | ident => exact Json.Tagged.ne_null h
  | _ =>
    obtain ⟨p, hp, -⟩ := h
    exact hp.ne_null

/-- One level of reading: what is left is to read the payload. -/
theorem decode_of_tagged {v p : Json} {s : Span} {tag : String} {n : Nat} (h : v.Tagged s tag p)
    (hn : v.height ≤ n) :
    ∃ m, p.height ≤ m ∧ decode n v = ofVariant (decode m) s tag p := by
  have hlt := h.height_lt
  obtain ⟨m, rfl⟩ : ∃ m, n = m + 1 := ⟨n - 1, by omega⟩
  refine ⟨m, by omega, ?_⟩
  rw [decode, h.variant, readSpan_of_showsSpan h.2]
  rfl

mutual

/-- A written form of an expression is read as the expression. -/
theorem decode_of_writtenAs : ∀ {e : Expr} {v : Json} {n : Nat}, e.WrittenAs v → v.height ≤ n →
    decode n v = .ok e
  | integer _ _, _, _, h, hn | hex _ _, _, _, h, hn | float _ _, _, _, h, hn
  | string _ _, _, _, h, hn | ident _ _, _, _, h, hn => by
    obtain ⟨m, -, hm⟩ := decode_of_tagged h hn
    rw [hm]
    rfl
  | vector x y z s, v, n, h, hn => by
    obtain ⟨p, hp, hx, hy, hz⟩ := h
    obtain ⟨m, hle, hm⟩ := decode_of_tagged hp hn
    rw [hm, ofVariant, required_of_shows hx fun w hw h => decode_of_writtenAs h (by omega),
      required_of_shows hy fun w hw h => decode_of_writtenAs h (by omega),
      required_of_shows hz fun w hw h => decode_of_writtenAs h (by omega)]
    rfl
  | rotation x y z w s, v, n, h, hn => by
    obtain ⟨p, hp, hx, hy, hz, hw⟩ := h
    obtain ⟨m, hle, hm⟩ := decode_of_tagged hp hn
    rw [hm, ofVariant, required_of_shows hx fun w hw h => decode_of_writtenAs h (by omega),
      required_of_shows hy fun w hw h => decode_of_writtenAs h (by omega),
      required_of_shows hz fun w hw h => decode_of_writtenAs h (by omega),
      required_of_shows hw fun w hw h => decode_of_writtenAs h (by omega)]
    rfl
  | list items s, v, n, h, hn => by
    obtain ⟨p, hp, hitems⟩ := h
    obtain ⟨m, hle, hm⟩ := decode_of_tagged hp hn
    rw [hm, ofVariant, asList_of_allWrittenAs hitems hle]
    rfl
  | component object c s, v, n, h, hn => by
    obtain ⟨p, hp, hobject, hc⟩ := h
    obtain ⟨m, hle, hm⟩ := decode_of_tagged hp hn
    rw [hm, ofVariant, required_of_shows hobject fun w hw h => decode_of_writtenAs h (by omega),
      Json.required_tag hc c.ofTag?_name]
    rfl
  | call name args s, v, n, h, hn => by
    obtain ⟨p, hp, hname, hargs⟩ := h
    obtain ⟨m, hle, hm⟩ := decode_of_tagged hp hn
    rw [hm, ofVariant, Json.required_text hname,
      required_of_shows hargs fun w hw h => asList_of_allWrittenAs h (by omega)]
    rfl
  | binary op left right s, v, n, h, hn => by
    obtain ⟨p, hp, hop, hleft, hright⟩ := h
    obtain ⟨m, hle, hm⟩ := decode_of_tagged hp hn
    rw [hm, ofVariant, Json.required_tag hop op.ofTag?_tag,
      required_of_shows hleft fun w hw h => decode_of_writtenAs h (by omega),
      required_of_shows hright fun w hw h => decode_of_writtenAs h (by omega)]
    rfl
  | prefixed op operand s, v, n, h, hn | postfixed op operand s, v, n, h, hn => by
    obtain ⟨p, hp, hop, hoperand⟩ := h
    obtain ⟨m, hle, hm⟩ := decode_of_tagged hp hn
    rw [hm, ofVariant, Json.required_tag hop op.ofTag?_tag,
      required_of_shows hoperand fun w hw h => decode_of_writtenAs h (by omega)]
    rfl
  | cast ty operand s, v, n, h, hn => by
    obtain ⟨p, hp, hty, hoperand⟩ := h
    obtain ⟨m, hle, hm⟩ := decode_of_tagged hp hn
    rw [hm, ofVariant, readTy_of_shows hty,
      required_of_shows hoperand fun w hw h => decode_of_writtenAs h (by omega)]
    rfl
  | paren inner s, v, n, h, hn => by
    obtain ⟨p, hp, hinner⟩ := h
    obtain ⟨m, hle, hm⟩ := decode_of_tagged hp hn
    rw [hm, ofVariant, decode_of_writtenAs hinner hle]
    rfl

theorem asList_of_allWrittenAs : ∀ {es : List Expr} {v : Json} {n : Nat}, AllWrittenAs es v →
    v.height ≤ n → Json.asList (decode n) v = .ok es
  | [], _, _, h, _ => by
    rw [h]
    rfl
  | e :: rest, v, n, h, hn => by
    obtain ⟨w, items, rfl, he, hrest⟩ := h
    simp only [Json.height, Json.heightItems] at hn
    have hread : Json.decodeAll (decode n) items = .ok rest :=
      asList_of_allWrittenAs hrest (by simp only [Json.height]; omega)
    rw [Json.asList, Json.decodeAll, decode_of_writtenAs he (by omega), hread]
    rfl

end

theorem ofJson_of_writtenAs {e : Expr} {v : Json} (h : e.WrittenAs v) : Expr.ofJson v = .ok e :=
  decode_of_writtenAs h (Nat.le_refl _)

theorem asList_ofJson_of_allWrittenAs {es : List Expr} {v : Json} (h : AllWrittenAs es v) :
    Json.asList Expr.ofJson v = .ok es :=
  asList_of_items (allWrittenAs_iff.mp h) fun _ _ _ he => ofJson_of_writtenAs he

theorem nullable_ofJson {e : Option Expr} {v : Json} (h : OrNull WrittenAs e v) :
    Json.nullable Expr.ofJson v = .ok e :=
  nullable_of_orNull h (fun _ he => ne_null_of_writtenAs he) fun _ he => ofJson_of_writtenAs he

end Expr

/-! ### Declarations of variables -/

theorem VarDecl.ofJson_of_writtenAs {d : VarDecl} {v : Json} (h : d.WrittenAs v) :
    VarDecl.ofJson v = .ok d := by
  obtain ⟨hname, hty, hinit, hspan⟩ := h
  have hread : v.optional "init" Expr.ofJson = .ok d.init :=
    defaulted_of_mayShow hinit fun _ _ hw => Expr.nullable_ofJson hw
  rw [VarDecl.ofJson, Json.required_text hname, readTy_of_shows hty, hread,
    readSpan_of_showsSpan hspan]
  rfl

theorem Param.ofJson_of_writtenAs {p : Param} {v : Json} (h : p.WrittenAs v) :
    Param.ofJson v = .ok p := by
  obtain ⟨hname, hty, hspan⟩ := h
  rw [Param.ofJson, Json.required_text hname, readTy_of_shows hty, readSpan_of_showsSpan hspan]
  rfl

/-! ### Statements -/

namespace Stmt

theorem ne_null_of_writtenAs {stmt : Stmt} {v : Json} (h : stmt.WrittenAs v) : v ≠ .null := by
  cases stmt with
  | block =>
    obtain ⟨p, hp, -⟩ := h
    exact hp.ne_null
  | plain stmt =>
    cases stmt with
    | empty => exact h.1.ne_null
    | _ =>
      obtain ⟨p, hp, -⟩ := h
      exact hp.ne_null

/-- One level of reading: what is left is to read the payload. -/
theorem decode_of_tagged {v p : Json} {s : Span} {tag : String} {n : Nat} (h : v.Tagged s tag p)
    (hn : v.height ≤ n) :
    ∃ m, p.height ≤ m ∧ decode n v = ofVariant (decode m) s tag p := by
  have hlt := h.height_lt
  obtain ⟨m, rfl⟩ : ∃ m, n = m + 1 := ⟨n - 1, by omega⟩
  refine ⟨m, by omega, ?_⟩
  rw [decode, h.variant, readSpan_of_showsSpan h.2]
  rfl

theorem decode_empty {v : Json} {s : Span} {n : Nat} (hkind : v.Shows "kind" (IsTag "empty"))
    (hspan : v.ShowsSpan s) (hn : v.height ≤ n) : decode n v = .ok (.plain (.empty s)) := by
  obtain ⟨kind, hfield, htag⟩ := hkind
  have hlt := Json.height_lt_of_field? hfield
  obtain ⟨m, rfl⟩ : ∃ m, n = m + 1 := ⟨n - 1, by omega⟩
  rcases htag with rfl | rfl
  · have hvariant : v.required "kind" Json.variant = .ok ("empty", none) :=
      required_of_shows ⟨_, hfield, rfl⟩ fun w _ hw => hw ▸ rfl
    rw [decode, hvariant, readSpan_of_showsSpan hspan]
    rfl
  · have hvariant : v.required "kind" Json.variant = .ok ("empty", some .null) :=
      required_of_shows ⟨_, hfield, rfl⟩ fun w _ hw => hw ▸ rfl
    rw [decode, hvariant, readSpan_of_showsSpan hspan]
    rfl

end Stmt

mutual

/-- A written form of a statement is read as the statement. -/
theorem Stmt.decode_of_writtenAs : ∀ {stmt : Stmt} {v : Json} {n : Nat}, stmt.WrittenAs v →
    v.height ≤ n → Stmt.decode n v = .ok stmt
  | .block body s, v, n, h, hn => by
    obtain ⟨p, hp, hbody⟩ := h
    obtain ⟨m, hle, hm⟩ := Stmt.decode_of_tagged hp hn
    rw [hm, Stmt.ofVariant, Block.ofFields_of_writtenAs hbody hle]
    rfl
  | .plain stmt, v, n, h, hn => PlainStmt.decode_of_writtenAs h hn

theorem PlainStmt.decode_of_writtenAs : ∀ {stmt : PlainStmt} {v : Json} {n : Nat},
    stmt.WrittenAs v → v.height ≤ n → Stmt.decode n v = .ok (.plain stmt)
  | .empty s, v, n, h, hn => Stmt.decode_empty h.1 h.2 hn
  | .expr e s, v, n, h, hn => by
    obtain ⟨p, hp, he⟩ := h
    obtain ⟨m, -, hm⟩ := Stmt.decode_of_tagged hp hn
    rw [hm, Stmt.ofVariant, Expr.ofJson_of_writtenAs he]
    rfl
  | .declare d s, v, n, h, hn => by
    obtain ⟨p, hp, hd⟩ := h
    obtain ⟨m, -, hm⟩ := Stmt.decode_of_tagged hp hn
    rw [hm, Stmt.ofVariant, VarDecl.ofJson_of_writtenAs hd]
    rfl
  | .ret value s, v, n, h, hn => by
    obtain ⟨p, hp, hvalue⟩ := h
    obtain ⟨m, -, hm⟩ := Stmt.decode_of_tagged hp hn
    rw [hm, Stmt.ofVariant, Expr.nullable_ofJson hvalue]
    rfl
  | .jump name s, v, n, h, hn | .label name s, v, n, h, hn | .stateChange name s, v, n, h, hn => by
    obtain ⟨p, hp, hname⟩ := h
    obtain ⟨m, -, hm⟩ := Stmt.decode_of_tagged hp hn
    rw [hm, Stmt.ofVariant, Json.required_text hname]
    rfl
  | .branch cond t es e s, v, n, h, hn => by
    obtain ⟨p, hp, hcond, ht, hes, he⟩ := h
    obtain ⟨m, hle, hm⟩ := Stmt.decode_of_tagged hp hn
    have helse : p.optional "else_branch" (Stmt.decode m) = .ok e :=
      defaulted_of_mayShow he fun w hw h => Stmt.nullable_of_optionWrittenAs h (by omega)
    rw [hm, Stmt.ofVariant, required_of_shows hcond fun _ _ h => Expr.ofJson_of_writtenAs h,
      required_of_shows ht fun w hw h => Stmt.decode_of_writtenAs h (by omega),
      defaulted_of_mayShow hes fun w hw h => ElseIf.asList_of_allWrittenAs h (by omega), helse]
    rfl
  | .whileLoop cond body s, v, n, h, hn => by
    obtain ⟨p, hp, hcond, hbody⟩ := h
    obtain ⟨m, hle, hm⟩ := Stmt.decode_of_tagged hp hn
    rw [hm, Stmt.ofVariant, required_of_shows hcond fun _ _ h => Expr.ofJson_of_writtenAs h,
      required_of_shows hbody fun w hw h => Stmt.decode_of_writtenAs h (by omega)]
    rfl
  | .doWhile body cond s, v, n, h, hn => by
    obtain ⟨p, hp, hbody, hcond⟩ := h
    obtain ⟨m, hle, hm⟩ := Stmt.decode_of_tagged hp hn
    rw [hm, Stmt.ofVariant, required_of_shows hcond fun _ _ h => Expr.ofJson_of_writtenAs h,
      required_of_shows hbody fun w hw h => Stmt.decode_of_writtenAs h (by omega)]
    rfl
  | .forLoop init cond step body s, v, n, h, hn => by
    obtain ⟨p, hp, hinit, hcond, hstep, hbody⟩ := h
    obtain ⟨m, hle, hm⟩ := Stmt.decode_of_tagged hp hn
    have hcond' : p.optional "cond" Expr.ofJson = .ok cond :=
      defaulted_of_mayShow hcond fun _ _ h => Expr.nullable_ofJson h
    rw [hm, Stmt.ofVariant,
      defaulted_of_mayShow hinit fun _ _ h => Expr.asList_ofJson_of_allWrittenAs h, hcond',
      defaulted_of_mayShow hstep fun _ _ h => Expr.asList_ofJson_of_allWrittenAs h,
      required_of_shows hbody fun w hw h => Stmt.decode_of_writtenAs h (by omega)]
    rfl

theorem ElseIf.ofFields_of_writtenAs : ∀ {e : ElseIf} {v : Json} {n : Nat}, e.WrittenAs v →
    v.height ≤ n → ElseIf.ofFields (Stmt.decode n) v = .ok e
  | .mk cond body s, v, n, h, hn => by
    obtain ⟨hcond, hbody, hspan⟩ := h
    rw [ElseIf.ofFields, required_of_shows hcond fun _ _ h => Expr.ofJson_of_writtenAs h,
      required_of_shows hbody fun w hw h => Stmt.decode_of_writtenAs h (by omega),
      readSpan_of_showsSpan hspan]
    rfl

theorem Block.ofFields_of_writtenAs : ∀ {b : Block} {v : Json} {n : Nat}, b.WrittenAs v →
    v.height ≤ n → Block.ofFields (Stmt.decode n) v = .ok b
  | .mk stmts s, v, n, h, hn => by
    obtain ⟨hstmts, hspan⟩ := h
    rw [Block.ofFields, required_of_shows hstmts fun w hw h => Stmt.asList_of_allWrittenAs h (by omega),
      readSpan_of_showsSpan hspan]
    rfl

theorem Stmt.nullable_of_optionWrittenAs : ∀ {s : Option Stmt} {v : Json} {n : Nat},
    Stmt.OptionWrittenAs s v → v.height ≤ n → Json.nullable (Stmt.decode n) v = .ok s
  | none, _, _, h, _ => by
    rw [h]
    rfl
  | some s, v, n, h, hn => by
    have hread := Stmt.decode_of_writtenAs h hn
    exact nullable_of_orNull (P := fun a w => a = s ∧ w = v) ⟨rfl, rfl⟩
      (fun _ _ => Stmt.ne_null_of_writtenAs h) fun _ ha => ha.1 ▸ hread

theorem ElseIf.asList_of_allWrittenAs : ∀ {es : List ElseIf} {v : Json} {n : Nat},
    ElseIf.AllWrittenAs es v → v.height ≤ n →
    Json.asList (ElseIf.ofFields (Stmt.decode n)) v = .ok es
  | [], _, _, h, _ => by
    rw [h]
    rfl
  | e :: rest, v, n, h, hn => by
    obtain ⟨w, items, rfl, he, hrest⟩ := h
    simp only [Json.height, Json.heightItems] at hn
    have hread : Json.decodeAll (ElseIf.ofFields (Stmt.decode n)) items = .ok rest :=
      ElseIf.asList_of_allWrittenAs hrest (by simp only [Json.height]; omega)
    rw [Json.asList, Json.decodeAll, ElseIf.ofFields_of_writtenAs he (by omega), hread]
    rfl

theorem Stmt.asList_of_allWrittenAs : ∀ {stmts : List Stmt} {v : Json} {n : Nat},
    Stmt.AllWrittenAs stmts v → v.height ≤ n → Json.asList (Stmt.decode n) v = .ok stmts
  | [], _, _, h, _ => by
    rw [h]
    rfl
  | s :: rest, v, n, h, hn => by
    obtain ⟨w, items, rfl, hs, hrest⟩ := h
    simp only [Json.height, Json.heightItems] at hn
    have hread : Json.decodeAll (Stmt.decode n) items = .ok rest :=
      Stmt.asList_of_allWrittenAs hrest (by simp only [Json.height]; omega)
    rw [Json.asList, Json.decodeAll, Stmt.decode_of_writtenAs hs (by omega), hread]
    rfl

end

/-! ### Scripts -/

theorem Block.ofJson_of_writtenAs {b : Block} {v : Json} (h : b.WrittenAs v) :
    Block.ofJson v = .ok b := by
  cases b with
  | mk stmts s =>
    obtain ⟨hstmts, hspan⟩ := h
    have hread : v.required "stmts" (Json.asList Stmt.ofJson) = .ok stmts :=
      required_of_shows hstmts fun w _ hw => asList_of_items (Stmt.allWrittenAs_iff.mp hw)
        fun _ _ _ hs => Stmt.decode_of_writtenAs hs (Nat.le_refl _)
    rw [Block.ofJson, Block.ofFields, hread, readSpan_of_showsSpan hspan]
    rfl

theorem Param.asList_of_items {ps : List Param} {v : Json} (h : Items Param.WrittenAs ps v) :
    Json.asList Param.ofJson v = .ok ps :=
  Json.asList_of_items h fun _ _ _ hp => Param.ofJson_of_writtenAs hp

theorem FunctionDecl.ofJson_of_writtenAs {d : FunctionDecl} {v : Json} (h : d.WrittenAs v) :
    FunctionDecl.ofJson v = .ok d := by
  obtain ⟨hname, hty, hparams, hbody, hspan⟩ := h
  rw [FunctionDecl.ofJson, Json.required_text hname,
    defaulted_of_mayShow hty fun _ _ h => asTag_of_isTag h d.returnType.ofTag?_name,
    defaulted_of_mayShow hparams fun _ _ h => Param.asList_of_items h,
    required_of_shows hbody fun _ _ h => Block.ofJson_of_writtenAs h, readSpan_of_showsSpan hspan]
  rfl

theorem HandlerDecl.ofJson_of_writtenAs {d : HandlerDecl} {v : Json} (h : d.WrittenAs v) :
    HandlerDecl.ofJson v = .ok d := by
  obtain ⟨hname, hparams, hbody, hspan⟩ := h
  rw [HandlerDecl.ofJson, Json.required_text hname,
    defaulted_of_mayShow hparams fun _ _ h => Param.asList_of_items h,
    required_of_shows hbody fun _ _ h => Block.ofJson_of_writtenAs h, readSpan_of_showsSpan hspan]
  rfl

theorem StateDecl.ofJson_of_writtenAs {d : StateDecl} {v : Json} (h : d.WrittenAs v) :
    StateDecl.ofJson v = .ok d := by
  obtain ⟨hname, hhandlers, hspan⟩ := h
  rw [StateDecl.ofJson, Json.required_text hname,
    defaulted_of_mayShow hhandlers fun _ _ h =>
      asList_of_items h fun _ _ _ hx => HandlerDecl.ofJson_of_writtenAs hx,
    readSpan_of_showsSpan hspan]
  rfl

/-- **A written form of a script is read as the script.** -/
theorem Script.ofJson_of_writtenAs {script : Script} {v : Json} (h : script.WrittenAs v) :
    Script.ofJson v = .ok script := by
  obtain ⟨hglobals, hfunctions, hdefault, hstates, hspan⟩ := h
  have hstate : v.optional "default_state" StateDecl.ofJson = .ok script.defaultState :=
    optional_of_mayShow hdefault (fun _ _ hd => hd.1.ne_null)
      fun _ _ _ hd => StateDecl.ofJson_of_writtenAs hd
  rw [Script.ofJson,
    defaulted_of_mayShow hglobals fun _ _ h =>
      asList_of_items h fun _ _ _ hd => VarDecl.ofJson_of_writtenAs hd,
    defaulted_of_mayShow hfunctions fun _ _ h =>
      asList_of_items h fun _ _ _ hd => FunctionDecl.ofJson_of_writtenAs hd, hstate,
    defaulted_of_mayShow hstates fun _ _ h =>
      asList_of_items h fun _ _ _ hd => StateDecl.ofJson_of_writtenAs hd,
    readSpan_of_showsSpan hspan]
  rfl

/-- **Writing a script and reading it back changes nothing.** What is written has
the form of the script, and whatever has that form is read as the script. -/
theorem Script.readBack (script : Script) (h : ∀ s ∈ script.spans, s.Fits) :
    Script.ofJson script.toJson = .ok script
      ∧ script.WrittenAs script.toJson
      ∧ ∀ v, script.WrittenAs v → Script.ofJson v = .ok script :=
  ⟨Script.ofJson_of_writtenAs (Script.writtenAs_toJson h), Script.writtenAs_toJson h,
    fun _ hv => Script.ofJson_of_writtenAs hv⟩

open Build in
/-- The empty statement, an endless loop, both kinds of return and a branch with
everything, with spans that end before they start or at the last offset. -/
def Script.corners : Script where
  globals := [varDecl .vector "v" (some (vector (int 1) (float "2.") (hex "0xF")))]
  functions := [function .integer "f" [param .rotation "r"] [
    empty, forLoop [] none [] (block [ret (some (component (ident "r") .s))]),
    branch (ident "v") (jump "end") [(paren (ident "v"), stateChange "other")] (some (ret none)),
    (label "end").withSpan ⟨Json.offsetLimit, Json.offsetLimit⟩]]
  states := [{ name := "other", span := ⟨Json.offsetLimit, 0⟩ }]

theorem Script.readBack_corners :
    (∀ s ∈ corners.spans, s.Fits)
      ∧ Script.ofJson corners.toJson = .ok corners
      ∧ corners.WrittenAs corners.toJson
      ∧ ∀ v, corners.WrittenAs v → Script.ofJson v = .ok corners := by
  have h : ∀ s ∈ corners.spans, s.start ≤ Json.offsetLimit ∧ s.stop ≤ Json.offsetLimit := by
    decide
  exact ⟨h, corners.readBack h⟩

end Lsl
