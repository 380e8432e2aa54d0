/- # Written forms of scripts

What a JSON value has to look like to stand for a script, said field by field:
each kind of expression and statement has its tag, the empty statement is a tag
that carries nothing, a missing value is `null`, and a field may be left out
where it holds an empty list, no value, the type `void` of a function or the
span at zero. The order of the fields does not matter, nor do fields of other
names.

`Script.toJson` writes one of these forms, if every span of the script is one of
64-bit offsets.

Key definitions: `Script.WrittenAs`, `Expr.WrittenAs`, `Stmt.WrittenAs`,
`Script.spans`.
Key theorems: `Script.writtenAs_toJson`.
-/
import Lsl.Proofs.Json.Fields
import Lsl.Script.Json

namespace Lsl

open Json (IsTag Items OrNull)

/-! ### Spans -/

/-- Both offsets are offsets of 64 bits. -/
def Span.Fits (s : Span) : Prop := s.start ≤ Json.offsetLimit ∧ s.stop ≤ Json.offsetLimit

def Span.WrittenAs (s : Span) (v : Json) : Prop :=
  s.Fits ∧ v.Shows "start" (· = .nat s.start) ∧ v.Shows "end" (· = .nat s.stop)

/-- The object says where its source stands; the span at zero may be left out. -/
def Json.ShowsSpan (v : Json) (s : Span) : Prop := v.MayShow "span" s.WrittenAs (s = {})

/-- The object has a kind with its tag and payload, and the span of its source. -/
def Json.Tagged (v : Json) (s : Span) (tag : String) (payload : Json) : Prop :=
  v.Shows "kind" (· = tagged tag payload) ∧ v.ShowsSpan s

theorem Span.writtenAs_toJson {s : Span} (h : s.Fits) : s.WrittenAs s.toJson :=
  ⟨h, ⟨_, rfl, rfl⟩, ⟨_, rfl, rfl⟩⟩

theorem Json.tagged_spanned {s : Span} (h : s.Fits) (tag : String) (payload : Json) :
    (spanned (Lsl.tagged tag payload) s).Tagged s tag payload :=
  ⟨⟨_, rfl, rfl⟩, .inl ⟨_, rfl, Span.writtenAs_toJson h⟩⟩

/-! ### Expressions -/

namespace Expr

mutual

/-- The value is a written form of the expression. -/
def WrittenAs : Expr → Json → Prop
  | integer text s, v => v.Tagged s "integer" (.str text)
  | hex text s, v => v.Tagged s "hex" (.str text)
  | float text s, v => v.Tagged s "float" (.str text)
  | string text s, v => v.Tagged s "string" (.str text)
  | vector x y z s, v => ∃ p, v.Tagged s "vector" p
    ∧ p.Shows "x" (WrittenAs x) ∧ p.Shows "y" (WrittenAs y) ∧ p.Shows "z" (WrittenAs z)
  | rotation x y z w s, v => ∃ p, v.Tagged s "rotation" p
    ∧ p.Shows "x" (WrittenAs x) ∧ p.Shows "y" (WrittenAs y) ∧ p.Shows "z" (WrittenAs z)
    ∧ p.Shows "s" (WrittenAs w)
  | list items s, v => ∃ p, v.Tagged s "list" p ∧ AllWrittenAs items p
  | ident name s, v => v.Tagged s "ident" (.str name)
  | component object c s, v => ∃ p, v.Tagged s "component" p
    ∧ p.Shows "object" (WrittenAs object) ∧ p.Shows "component" (IsTag c.name)
  | call name args s, v => ∃ p, v.Tagged s "call" p
    ∧ p.Shows "name" (· = .str name) ∧ p.Shows "args" (AllWrittenAs args)
  | binary op left right s, v => ∃ p, v.Tagged s "binary" p ∧ p.Shows "op" (IsTag op.tag)
    ∧ p.Shows "left" (WrittenAs left) ∧ p.Shows "right" (WrittenAs right)
  | prefixed op operand s, v => ∃ p, v.Tagged s "prefix" p
    ∧ p.Shows "op" (IsTag op.tag) ∧ p.Shows "operand" (WrittenAs operand)
  | postfixed op operand s, v => ∃ p, v.Tagged s "postfix" p
    ∧ p.Shows "op" (IsTag op.tag) ∧ p.Shows "operand" (WrittenAs operand)
  | cast ty operand s, v => ∃ p, v.Tagged s "cast" p
    ∧ p.Shows "ty" (IsTag ty.name) ∧ p.Shows "operand" (WrittenAs operand)
  | paren inner s, v => ∃ p, v.Tagged s "paren" p ∧ WrittenAs inner p

/-- The value is an array of written forms, one for each expression. -/
def AllWrittenAs : List Expr → Json → Prop
  | [], v => v = .arr []
  | e :: rest, v => ∃ w items, v = .arr (w :: items) ∧ WrittenAs e w ∧ AllWrittenAs rest (.arr items)

end

mutual

/-- The spans of the expression and of everything in it. -/
def spans : Expr → List Span
  | integer _ s | hex _ s | float _ s | string _ s | ident _ s => [s]
  | vector x y z s => s :: (spans x ++ spans y ++ spans z)
  | rotation x y z w s => s :: (spans x ++ spans y ++ spans z ++ spans w)
  | list items s | call _ items s => s :: spansOfAll items
  | component e _ s | prefixed _ e s | postfixed _ e s | cast _ e s | paren e s => s :: spans e
  | binary _ left right s => s :: (spans left ++ spans right)

def spansOfAll : List Expr → List Span
  | [] => []
  | e :: rest => spans e ++ spansOfAll rest

end

theorem allWrittenAs_iff {es : List Expr} {v : Json} :
    AllWrittenAs es v ↔ Items WrittenAs es v := by
  induction es generalizing v with
  | nil => simp [AllWrittenAs, Items]
  | cons e rest ih => simp [AllWrittenAs, ih, Items, List.forall₂_cons_left_iff]

mutual

theorem writtenAs_toJson : ∀ {e : Expr}, (∀ s ∈ e.spans, s.Fits) → e.WrittenAs e.toJson
  | integer _ _, h | hex _ _, h | float _ _, h | string _ _, h | ident _ _, h =>
    Json.tagged_spanned (h _ List.mem_cons_self) _ _
  | vector x y z s, h => by
    simp only [spans, List.forall_mem_cons, List.forall_mem_append] at h
    obtain ⟨hs, ⟨hx, hy⟩, hz⟩ := h
    exact ⟨_, Json.tagged_spanned hs _ _, ⟨_, rfl, writtenAs_toJson hx⟩,
      ⟨_, rfl, writtenAs_toJson hy⟩, ⟨_, rfl, writtenAs_toJson hz⟩⟩
  | rotation x y z w s, h => by
    simp only [spans, List.forall_mem_cons, List.forall_mem_append] at h
    obtain ⟨hs, ⟨⟨hx, hy⟩, hz⟩, hw⟩ := h
    exact ⟨_, Json.tagged_spanned hs _ _, ⟨_, rfl, writtenAs_toJson hx⟩,
      ⟨_, rfl, writtenAs_toJson hy⟩, ⟨_, rfl, writtenAs_toJson hz⟩, ⟨_, rfl, writtenAs_toJson hw⟩⟩
  | list items s, h => by
    simp only [spans, List.forall_mem_cons] at h
    exact ⟨_, Json.tagged_spanned h.1 _ _, allWrittenAs_listToJson h.2⟩
  | component object c s, h => by
    simp only [spans, List.forall_mem_cons] at h
    exact ⟨_, Json.tagged_spanned h.1 _ _, ⟨_, rfl, writtenAs_toJson h.2⟩, ⟨_, rfl, .inl rfl⟩⟩
  | call name args s, h => by
    simp only [spans, List.forall_mem_cons] at h
    exact ⟨_, Json.tagged_spanned h.1 _ _, ⟨_, rfl, rfl⟩, ⟨_, rfl, allWrittenAs_listToJson h.2⟩⟩
  | binary op left right s, h => by
    simp only [spans, List.forall_mem_cons, List.forall_mem_append] at h
    obtain ⟨hs, hleft, hright⟩ := h
    exact ⟨_, Json.tagged_spanned hs _ _, ⟨_, rfl, .inl rfl⟩, ⟨_, rfl, writtenAs_toJson hleft⟩,
      ⟨_, rfl, writtenAs_toJson hright⟩⟩
  | prefixed op operand s, h | postfixed op operand s, h | cast ty operand s, h => by
    simp only [spans, List.forall_mem_cons] at h
    exact ⟨_, Json.tagged_spanned h.1 _ _, ⟨_, rfl, .inl rfl⟩, ⟨_, rfl, writtenAs_toJson h.2⟩⟩
  | paren inner s, h => by
    simp only [spans, List.forall_mem_cons] at h
    exact ⟨_, Json.tagged_spanned h.1 _ _, writtenAs_toJson h.2⟩

theorem allWrittenAs_listToJson : ∀ {es : List Expr}, (∀ s ∈ spansOfAll es, s.Fits) →
    AllWrittenAs es (.arr (listToJson es))
  | [], _ => rfl
  | e :: rest, h => by
    simp only [spansOfAll, List.forall_mem_append] at h
    exact ⟨_, _, rfl, writtenAs_toJson h.1, allWrittenAs_listToJson h.2⟩

end

end Expr

/-! ### Declarations of variables -/

def VarDecl.WrittenAs (d : VarDecl) (v : Json) : Prop :=
  v.Shows "name" (· = .str d.name) ∧ v.Shows "ty" (IsTag d.ty.name)
    ∧ v.MayShow "init" (OrNull Expr.WrittenAs d.init) (d.init = none) ∧ v.ShowsSpan d.span

def Param.WrittenAs (p : Param) (v : Json) : Prop :=
  v.Shows "name" (· = .str p.name) ∧ v.Shows "ty" (IsTag p.ty.name) ∧ v.ShowsSpan p.span

def VarDecl.spans (d : VarDecl) : List Span := d.span :: d.init.toList.flatMap Expr.spans

theorem Expr.orNull_optionToJson {e : Option Expr}
    (h : ∀ s ∈ e.toList.flatMap Expr.spans, s.Fits) :
    OrNull Expr.WrittenAs e (Expr.optionToJson e) := by
  cases e with
  | none => rfl
  | some e => exact Expr.writtenAs_toJson fun s hs => h s (by simpa using hs)

theorem VarDecl.writtenAs_toJson {d : VarDecl} (h : ∀ s ∈ d.spans, s.Fits) :
    d.WrittenAs d.toJson := by
  simp only [spans, List.forall_mem_cons] at h
  exact ⟨⟨_, rfl, rfl⟩, ⟨_, rfl, .inl rfl⟩, .inl ⟨_, rfl, Expr.orNull_optionToJson h.2⟩,
    .inl ⟨_, rfl, Span.writtenAs_toJson h.1⟩⟩

theorem Param.writtenAs_toJson {p : Param} (h : p.span.Fits) : p.WrittenAs p.toJson :=
  ⟨⟨_, rfl, rfl⟩, ⟨_, rfl, .inl rfl⟩, .inl ⟨_, rfl, Span.writtenAs_toJson h⟩⟩

/-! ### Statements -/

mutual

/-- The value is a written form of the statement. -/
def Stmt.WrittenAs : Stmt → Json → Prop
  | .block body s, v => ∃ p, v.Tagged s "block" p ∧ body.WrittenAs p
  | .plain stmt, v => stmt.WrittenAs v

def PlainStmt.WrittenAs : PlainStmt → Json → Prop
  | .empty s, v => v.Shows "kind" (IsTag "empty") ∧ v.ShowsSpan s
  | .expr e s, v => ∃ p, v.Tagged s "expr" p ∧ e.WrittenAs p
  | .declare d s, v => ∃ p, v.Tagged s "local" p ∧ d.WrittenAs p
  | .ret value s, v => ∃ p, v.Tagged s "return" p ∧ OrNull Expr.WrittenAs value p
  | .jump name s, v => ∃ p, v.Tagged s "jump" p ∧ p.Shows "label" (· = .str name)
  | .label name s, v => ∃ p, v.Tagged s "label" p ∧ p.Shows "name" (· = .str name)
  | .stateChange target s, v =>
    ∃ p, v.Tagged s "state_change" p ∧ p.Shows "target" (· = .str target)
  | .branch cond t es e s, v => ∃ p, v.Tagged s "if" p
    ∧ p.Shows "cond" cond.WrittenAs ∧ p.Shows "then_branch" t.WrittenAs
    ∧ p.MayShow "else_ifs" (ElseIf.AllWrittenAs es) (es = [])
    ∧ p.MayShow "else_branch" (Stmt.OptionWrittenAs e) (e = none)
  | .whileLoop cond body s, v => ∃ p, v.Tagged s "while" p
    ∧ p.Shows "cond" cond.WrittenAs ∧ p.Shows "body" body.WrittenAs
  | .doWhile body cond s, v => ∃ p, v.Tagged s "do_while" p
    ∧ p.Shows "body" body.WrittenAs ∧ p.Shows "cond" cond.WrittenAs
  | .forLoop init cond step body s, v => ∃ p, v.Tagged s "for" p
    ∧ p.MayShow "init" (Expr.AllWrittenAs init) (init = [])
    ∧ p.MayShow "cond" (OrNull Expr.WrittenAs cond) (cond = none)
    ∧ p.MayShow "step" (Expr.AllWrittenAs step) (step = [])
    ∧ p.Shows "body" body.WrittenAs

def ElseIf.WrittenAs : ElseIf → Json → Prop
  | .mk cond body s, v =>
    v.Shows "cond" cond.WrittenAs ∧ v.Shows "body" body.WrittenAs ∧ v.ShowsSpan s

def Block.WrittenAs : Block → Json → Prop
  | .mk stmts s, v => v.Shows "stmts" (Stmt.AllWrittenAs stmts) ∧ v.ShowsSpan s

def Stmt.OptionWrittenAs : Option Stmt → Json → Prop
  | none, v => v = .null
  | some s, v => s.WrittenAs v

def ElseIf.AllWrittenAs : List ElseIf → Json → Prop
  | [], v => v = .arr []
  | e :: rest, v =>
    ∃ w items, v = .arr (w :: items) ∧ e.WrittenAs w ∧ ElseIf.AllWrittenAs rest (.arr items)

def Stmt.AllWrittenAs : List Stmt → Json → Prop
  | [], v => v = .arr []
  | s :: rest, v =>
    ∃ w items, v = .arr (w :: items) ∧ s.WrittenAs w ∧ Stmt.AllWrittenAs rest (.arr items)

end

mutual

/-- The spans of the statement and of everything in it. -/
def Stmt.spans : Stmt → List Span
  | .block body s => s :: body.spans
  | .plain stmt => stmt.spans

def PlainStmt.spans : PlainStmt → List Span
  | .empty s | .jump _ s | .label _ s | .stateChange _ s => [s]
  | .expr e s => s :: e.spans
  | .declare d s => s :: d.spans
  | .ret value s => s :: value.toList.flatMap Expr.spans
  | .branch cond t es e s =>
    s :: (cond.spans ++ t.spans ++ ElseIf.spansOfAll es ++ Stmt.spansOfOption e)
  | .whileLoop cond body s | .doWhile body cond s => s :: (cond.spans ++ body.spans)
  | .forLoop init cond step body s =>
    s :: (Expr.spansOfAll init ++ cond.toList.flatMap Expr.spans ++ Expr.spansOfAll step
      ++ body.spans)

def ElseIf.spans : ElseIf → List Span
  | .mk cond body s => s :: (cond.spans ++ body.spans)

def Block.spans : Block → List Span
  | .mk stmts s => s :: Stmt.spansOfAll stmts

def Stmt.spansOfOption : Option Stmt → List Span
  | none => []
  | some s => s.spans

def ElseIf.spansOfAll : List ElseIf → List Span
  | [] => []
  | e :: rest => e.spans ++ ElseIf.spansOfAll rest

def Stmt.spansOfAll : List Stmt → List Span
  | [] => []
  | s :: rest => s.spans ++ Stmt.spansOfAll rest

end

theorem Stmt.allWrittenAs_iff {stmts : List Stmt} {v : Json} :
    Stmt.AllWrittenAs stmts v ↔ Items Stmt.WrittenAs stmts v := by
  induction stmts generalizing v with
  | nil => simp [Stmt.AllWrittenAs, Items]
  | cons s rest ih => simp [Stmt.AllWrittenAs, ih, Items, List.forall₂_cons_left_iff]

mutual

theorem Stmt.writtenAs_toJson : ∀ {stmt : Stmt}, (∀ s ∈ stmt.spans, s.Fits) →
    stmt.WrittenAs stmt.toJson
  | .block body s, h => by
    simp only [Stmt.spans, List.forall_mem_cons] at h
    exact ⟨_, Json.tagged_spanned h.1 _ _, Block.writtenAs_toJson h.2⟩
  | .plain stmt, h => PlainStmt.writtenAs_toJson h

theorem PlainStmt.writtenAs_toJson : ∀ {stmt : PlainStmt}, (∀ s ∈ stmt.spans, s.Fits) →
    stmt.WrittenAs stmt.toJson
  | .empty s, h =>
    ⟨⟨_, rfl, .inl rfl⟩, .inl ⟨_, rfl, Span.writtenAs_toJson (h s List.mem_cons_self)⟩⟩
  | .expr e s, h => by
    simp only [PlainStmt.spans, List.forall_mem_cons] at h
    exact ⟨_, Json.tagged_spanned h.1 _ _, Expr.writtenAs_toJson h.2⟩
  | .declare d s, h => by
    simp only [PlainStmt.spans, List.forall_mem_cons] at h
    exact ⟨_, Json.tagged_spanned h.1 _ _, VarDecl.writtenAs_toJson h.2⟩
  | .ret value s, h => by
    simp only [PlainStmt.spans, List.forall_mem_cons] at h
    exact ⟨_, Json.tagged_spanned h.1 _ _, Expr.orNull_optionToJson h.2⟩
  | .jump _ s, h | .label _ s, h | .stateChange _ s, h =>
    ⟨_, Json.tagged_spanned (h s List.mem_cons_self) _ _, ⟨_, rfl, rfl⟩⟩
  | .branch cond t es e s, h => by
    simp only [PlainStmt.spans, List.forall_mem_cons, List.forall_mem_append] at h
    obtain ⟨hs, ⟨⟨hcond, ht⟩, hes⟩, he⟩ := h
    exact ⟨_, Json.tagged_spanned hs _ _, ⟨_, rfl, Expr.writtenAs_toJson hcond⟩,
      ⟨_, rfl, Stmt.writtenAs_toJson ht⟩, .inl ⟨_, rfl, ElseIf.allWrittenAs_listToJson hes⟩,
      .inl ⟨_, rfl, Stmt.optionWrittenAs_optionToJson he⟩⟩
  | .whileLoop cond body s, h => by
    simp only [PlainStmt.spans, List.forall_mem_cons, List.forall_mem_append] at h
    obtain ⟨hs, hcond, hbody⟩ := h
    exact ⟨_, Json.tagged_spanned hs _ _, ⟨_, rfl, Expr.writtenAs_toJson hcond⟩,
      ⟨_, rfl, Stmt.writtenAs_toJson hbody⟩⟩
  | .doWhile body cond s, h => by
    simp only [PlainStmt.spans, List.forall_mem_cons, List.forall_mem_append] at h
    obtain ⟨hs, hcond, hbody⟩ := h
    exact ⟨_, Json.tagged_spanned hs _ _, ⟨_, rfl, Stmt.writtenAs_toJson hbody⟩,
      ⟨_, rfl, Expr.writtenAs_toJson hcond⟩⟩
  | .forLoop init cond step body s, h => by
    simp only [PlainStmt.spans, List.forall_mem_cons, List.forall_mem_append] at h
    obtain ⟨hs, ⟨⟨hinit, hcond⟩, hstep⟩, hbody⟩ := h
    exact ⟨_, Json.tagged_spanned hs _ _, .inl ⟨_, rfl, Expr.allWrittenAs_listToJson hinit⟩,
      .inl ⟨_, rfl, Expr.orNull_optionToJson hcond⟩,
      .inl ⟨_, rfl, Expr.allWrittenAs_listToJson hstep⟩, ⟨_, rfl, Stmt.writtenAs_toJson hbody⟩⟩

theorem ElseIf.writtenAs_toJson : ∀ {e : ElseIf}, (∀ s ∈ e.spans, s.Fits) → e.WrittenAs e.toJson
  | .mk cond body s, h => by
    simp only [ElseIf.spans, List.forall_mem_cons, List.forall_mem_append] at h
    obtain ⟨hs, hcond, hbody⟩ := h
    exact ⟨⟨_, rfl, Expr.writtenAs_toJson hcond⟩, ⟨_, rfl, Stmt.writtenAs_toJson hbody⟩,
      .inl ⟨_, rfl, Span.writtenAs_toJson hs⟩⟩

theorem Block.writtenAs_toJson : ∀ {b : Block}, (∀ s ∈ b.spans, s.Fits) → b.WrittenAs b.toJson
  | .mk stmts s, h => by
    simp only [Block.spans, List.forall_mem_cons] at h
    exact ⟨⟨_, rfl, Stmt.allWrittenAs_listToJson h.2⟩, .inl ⟨_, rfl, Span.writtenAs_toJson h.1⟩⟩

theorem Stmt.optionWrittenAs_optionToJson : ∀ {s : Option Stmt},
    (∀ p ∈ Stmt.spansOfOption s, p.Fits) → Stmt.OptionWrittenAs s (Stmt.optionToJson s)
  | none, _ => rfl
  | some _, h => Stmt.writtenAs_toJson h

theorem ElseIf.allWrittenAs_listToJson : ∀ {es : List ElseIf},
    (∀ s ∈ ElseIf.spansOfAll es, s.Fits) → ElseIf.AllWrittenAs es (.arr (ElseIf.listToJson es))
  | [], _ => rfl
  | e :: rest, h => by
    simp only [ElseIf.spansOfAll, List.forall_mem_append] at h
    exact ⟨_, _, rfl, ElseIf.writtenAs_toJson h.1, ElseIf.allWrittenAs_listToJson h.2⟩

theorem Stmt.allWrittenAs_listToJson : ∀ {stmts : List Stmt},
    (∀ s ∈ Stmt.spansOfAll stmts, s.Fits) → Stmt.AllWrittenAs stmts (.arr (Stmt.listToJson stmts))
  | [], _ => rfl
  | s :: rest, h => by
    simp only [Stmt.spansOfAll, List.forall_mem_append] at h
    exact ⟨_, _, rfl, Stmt.writtenAs_toJson h.1, Stmt.allWrittenAs_listToJson h.2⟩

end

/-! ### Scripts -/

def FunctionDecl.WrittenAs (d : FunctionDecl) (v : Json) : Prop :=
  v.Shows "name" (· = .str d.name)
    ∧ v.MayShow "return_type" (IsTag d.returnType.name) (d.returnType = .void)
    ∧ v.MayShow "params" (Items Param.WrittenAs d.params) (d.params = [])
    ∧ v.Shows "body" d.body.WrittenAs ∧ v.ShowsSpan d.span

def HandlerDecl.WrittenAs (d : HandlerDecl) (v : Json) : Prop :=
  v.Shows "name" (· = .str d.name)
    ∧ v.MayShow "params" (Items Param.WrittenAs d.params) (d.params = [])
    ∧ v.Shows "body" d.body.WrittenAs ∧ v.ShowsSpan d.span

def StateDecl.WrittenAs (d : StateDecl) (v : Json) : Prop :=
  v.Shows "name" (· = .str d.name)
    ∧ v.MayShow "handlers" (Items HandlerDecl.WrittenAs d.handlers) (d.handlers = [])
    ∧ v.ShowsSpan d.span

/-- The value is a written form of the script. -/
def Script.WrittenAs (script : Script) (v : Json) : Prop :=
  v.MayShow "globals" (Items VarDecl.WrittenAs script.globals) (script.globals = [])
    ∧ v.MayShow "functions" (Items FunctionDecl.WrittenAs script.functions) (script.functions = [])
    ∧ v.MayShow "default_state" (OrNull StateDecl.WrittenAs script.defaultState)
      (script.defaultState = none)
    ∧ v.MayShow "states" (Items StateDecl.WrittenAs script.states) (script.states = [])
    ∧ v.ShowsSpan script.span

def FunctionDecl.spans (d : FunctionDecl) : List Span :=
  d.span :: (d.params.map (·.span) ++ d.body.spans)

def HandlerDecl.spans (d : HandlerDecl) : List Span :=
  d.span :: (d.params.map (·.span) ++ d.body.spans)

def StateDecl.spans (d : StateDecl) : List Span := d.span :: d.handlers.flatMap HandlerDecl.spans

/-- Every span that the script holds. -/
def Script.spans (script : Script) : List Span :=
  script.span :: (script.globals.flatMap VarDecl.spans ++ script.functions.flatMap FunctionDecl.spans
    ++ script.defaultState.toList.flatMap StateDecl.spans ++ script.states.flatMap StateDecl.spans)

theorem Param.items_toJson {ps : List Param} (h : ∀ s ∈ ps.map (·.span), s.Fits) :
    Items Param.WrittenAs ps (.list Param.toJson ps) :=
  Json.items_list fun _ hp => Param.writtenAs_toJson (h _ (List.mem_map_of_mem hp))

theorem FunctionDecl.writtenAs_toJson {d : FunctionDecl} (h : ∀ s ∈ d.spans, s.Fits) :
    d.WrittenAs d.toJson := by
  simp only [spans, List.forall_mem_cons, List.forall_mem_append] at h
  obtain ⟨hs, hparams, hbody⟩ := h
  exact ⟨⟨_, rfl, rfl⟩, .inl ⟨_, rfl, .inl rfl⟩, .inl ⟨_, rfl, Param.items_toJson hparams⟩,
    ⟨_, rfl, Block.writtenAs_toJson hbody⟩, .inl ⟨_, rfl, Span.writtenAs_toJson hs⟩⟩

theorem HandlerDecl.writtenAs_toJson {d : HandlerDecl} (h : ∀ s ∈ d.spans, s.Fits) :
    d.WrittenAs d.toJson := by
  simp only [spans, List.forall_mem_cons, List.forall_mem_append] at h
  obtain ⟨hs, hparams, hbody⟩ := h
  exact ⟨⟨_, rfl, rfl⟩, .inl ⟨_, rfl, Param.items_toJson hparams⟩,
    ⟨_, rfl, Block.writtenAs_toJson hbody⟩, .inl ⟨_, rfl, Span.writtenAs_toJson hs⟩⟩

theorem StateDecl.writtenAs_toJson {d : StateDecl} (h : ∀ s ∈ d.spans, s.Fits) :
    d.WrittenAs d.toJson := by
  simp only [spans, List.forall_mem_cons] at h
  have hhandlers : ∀ x ∈ d.handlers, x.WrittenAs x.toJson := fun x hx =>
    HandlerDecl.writtenAs_toJson fun s hs => h.2 s (List.mem_flatMap.mpr ⟨x, hx, hs⟩)
  exact ⟨⟨_, rfl, rfl⟩, .inl ⟨_, rfl, Json.items_list hhandlers⟩,
    .inl ⟨_, rfl, Span.writtenAs_toJson h.1⟩⟩

/-- **What is written of a script is a written form of it.** -/
theorem Script.writtenAs_toJson {script : Script} (h : ∀ s ∈ script.spans, s.Fits) :
    script.WrittenAs script.toJson := by
  simp only [spans, List.forall_mem_cons, List.forall_mem_append] at h
  obtain ⟨hs, ⟨⟨hglobals, hfunctions⟩, hdefault⟩, hstates⟩ := h
  have hstate : OrNull StateDecl.WrittenAs script.defaultState
      (.orNull StateDecl.toJson script.defaultState) := by
    cases hd : script.defaultState with
    | none => rfl
    | some d => exact StateDecl.writtenAs_toJson fun s hmem => hdefault s (by simpa [hd] using hmem)
  exact ⟨.inl ⟨_, rfl, Json.items_list fun d hd => VarDecl.writtenAs_toJson fun s hmem =>
      hglobals s (List.mem_flatMap.mpr ⟨d, hd, hmem⟩)⟩,
    .inl ⟨_, rfl, Json.items_list fun d hd => FunctionDecl.writtenAs_toJson fun s hmem =>
      hfunctions s (List.mem_flatMap.mpr ⟨d, hd, hmem⟩)⟩,
    .inl ⟨_, rfl, hstate⟩,
    .inl ⟨_, rfl, Json.items_list fun d hd => StateDecl.writtenAs_toJson fun s hmem =>
      hstates s (List.mem_flatMap.mpr ⟨d, hd, hmem⟩)⟩,
    .inl ⟨_, rfl, Span.writtenAs_toJson hs⟩⟩

end Lsl
