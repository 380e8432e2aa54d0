/- # Names in place of expressions

A script may be given another one that has the name `n` in place of some of its
expressions, where nothing that the script declares is called `n`. Everything else
is the same but for where it stands in the source. Each of these names is a
mistake. There is one more where an assignment or a step writes to a component of
such a name.

Key definitions: `Expr.Replaced`, `Expr.lostPart`, `Stmt.Replaced`, `Script.Replaced`.
Key theorems: `Block.Replaced.labelSites`.
-/
import Lsl.Labels
import Lsl.Notice
import Lsl.Script.Basic
import Mathlib.Data.List.Forall2

namespace Lsl

variable {α φ : Type} {n : String} {fs : List (Fault × Span)}

/-! ### Parts one by one -/

/-- Lists that belong together element by element, with what all elements add. -/
inductive Piecewise (R : α → α → List φ → Prop) : List α → List α → List φ → Prop where
  | nil : Piecewise R [] [] []
  | cons {a a' : α} {as as' : List α} {fs gs : List φ} (head : R a a' fs)
    (tail : Piecewise R as as' gs) : Piecewise R (a :: as) (a' :: as') (fs ++ gs)

/-- Parts that may be missing and belong together, with what they add. -/
inductive Optionally (R : α → α → List φ → Prop) : Option α → Option α → List φ → Prop where
  | none : Optionally R none none []
  | some {a a' : α} {fs : List φ} (part : R a a' fs) : Optionally R (some a) (some a') fs

/-! ### Expressions -/

/-- The fault of writing to an expression that is a component of the name `n`. -/
def Expr.lostPart (n : String) : Expr → List (Fault × Span)
  | .component (.ident name _) _ span => if name = n then [(.notAssignable, span)] else []
  | _ => []

theorem Expr.lostPart_component {object : Expr} {c : Component} {span : Span}
    (h : ∀ s, object ≠ .ident n s) : Expr.lostPart n (.component object c span) = [] := by
  cases object with
  | ident name s =>
    rw [Expr.lostPart, if_neg]
    rintro rfl
    exact h s rfl
  | _ => rfl

/-- The second expression is the first with the name `n` in place of some parts,
which makes these mistakes. -/
inductive Expr.Replaced (n : String) : Expr → Expr → List (Fault × Span) → Prop where
  | name {e : Expr} {s : Span} : Replaced n e (.ident n s) [(.undefinedVariable n, s)]
  | integer {text : String} {s s' : Span} : Replaced n (.integer text s) (.integer text s') []
  | hex {text : String} {s s' : Span} : Replaced n (.hex text s) (.hex text s') []
  | float {text : String} {s s' : Span} : Replaced n (.float text s) (.float text s') []
  | string {text : String} {s s' : Span} : Replaced n (.string text s) (.string text s') []
  | ident {name : String} {s s' : Span} (h : name ≠ n) :
    Replaced n (.ident name s) (.ident name s') []
  | vector {x x' y y' z z' : Expr} {s s' : Span} {fx fy fz : List (Fault × Span)}
    (hx : Replaced n x x' fx) (hy : Replaced n y y' fy) (hz : Replaced n z z' fz) :
    Replaced n (.vector x y z s) (.vector x' y' z' s') (fx ++ fy ++ fz)
  | rotation {x x' y y' z z' w w' : Expr} {s s' : Span} {fx fy fz fw : List (Fault × Span)}
    (hx : Replaced n x x' fx) (hy : Replaced n y y' fy) (hz : Replaced n z z' fz)
    (hw : Replaced n w w' fw) :
    Replaced n (.rotation x y z w s) (.rotation x' y' z' w' s') (fx ++ fy ++ fz ++ fw)
  | list {items items' : List Expr} {s s' : Span} {fs : List (Fault × Span)}
    (h : Piecewise (Replaced n) items items' fs) : Replaced n (.list items s) (.list items' s') fs
  | component {object object' : Expr} {c : Component} {s s' : Span} {fs : List (Fault × Span)}
    (h : Replaced n object object' fs) :
    Replaced n (.component object c s) (.component object' c s') fs
  | call {name : String} {args args' : List Expr} {s s' : Span} {fs : List (Fault × Span)}
    (h : Piecewise (Replaced n) args args' fs) :
    Replaced n (.call name args s) (.call name args' s') fs
  | binary {op : BinaryOp} {left left' right right' : Expr} {s s' : Span}
    {fs gs : List (Fault × Span)} (hl : Replaced n left left' fs) (hr : Replaced n right right' gs) :
    Replaced n (.binary op left right s) (.binary op left' right' s')
      (fs ++ gs ++ if op.isAssignment then left'.lostPart n else [])
  | prefixed {op : PrefixOp} {operand operand' : Expr} {s s' : Span} {fs : List (Fault × Span)}
    (h : Replaced n operand operand' fs) :
    Replaced n (.prefixed op operand s) (.prefixed op operand' s')
      (fs ++ if op.modifiesOperand then operand'.lostPart n else [])
  | postfixed {op : PostfixOp} {operand operand' : Expr} {s s' : Span} {fs : List (Fault × Span)}
    (h : Replaced n operand operand' fs) :
    Replaced n (.postfixed op operand s) (.postfixed op operand' s') (fs ++ operand'.lostPart n)
  | cast {ty : Ty} {operand operand' : Expr} {s s' : Span} {fs : List (Fault × Span)}
    (h : Replaced n operand operand' fs) :
    Replaced n (.cast ty operand s) (.cast ty operand' s') fs
  | paren {inner inner' : Expr} {s s' : Span} {fs : List (Fault × Span)}
    (h : Replaced n inner inner' fs) : Replaced n (.paren inner s) (.paren inner' s') fs

/-! ### Statements -/

/-- The same declaration, not of `n`, with another initial value. -/
structure VarDecl.Replaced (n : String) (d d' : VarDecl) (fs : List (Fault × Span)) : Prop where
  name : d'.name = d.name
  fresh : d.name ≠ n
  ty : d'.ty = d.ty
  init : Optionally (Expr.Replaced n) d.init d'.init fs

mutual

/-- The second statement is the first with the name `n` in place of some expressions. -/
inductive Stmt.Replaced (n : String) : Stmt → Stmt → List (Fault × Span) → Prop where
  | block {stmts stmts' : List Stmt} {i i' s s' : Span} {fs : List (Fault × Span)}
    (h : Piecewise (Stmt.Replaced n) stmts stmts' fs) :
    Stmt.Replaced n (.block (.mk stmts i) s) (.block (.mk stmts' i') s') fs
  | plain {stmt stmt' : PlainStmt} {fs : List (Fault × Span)}
    (h : PlainStmt.Replaced n stmt stmt' fs) : Stmt.Replaced n (.plain stmt) (.plain stmt') fs

inductive PlainStmt.Replaced (n : String) :
    PlainStmt → PlainStmt → List (Fault × Span) → Prop where
  | empty {s s' : Span} : PlainStmt.Replaced n (.empty s) (.empty s') []
  | expr {e e' : Expr} {s s' : Span} {fs : List (Fault × Span)} (h : e.Replaced n e' fs) :
    PlainStmt.Replaced n (.expr e s) (.expr e' s') fs
  | declare {d d' : VarDecl} {s s' : Span} {fs : List (Fault × Span)} (h : d.Replaced n d' fs) :
    PlainStmt.Replaced n (.declare d s) (.declare d' s') fs
  | ret {value value' : Option Expr} {s s' : Span} {fs : List (Fault × Span)}
    (h : Optionally (Expr.Replaced n) value value' fs) :
    PlainStmt.Replaced n (.ret value s) (.ret value' s') fs
  | jump {name : String} {s s' : Span} : PlainStmt.Replaced n (.jump name s) (.jump name s') []
  | label {name : String} {s s' : Span} : PlainStmt.Replaced n (.label name s) (.label name s') []
  | stateChange {target : String} {s s' : Span} :
    PlainStmt.Replaced n (.stateChange target s) (.stateChange target s') []
  | branch {cond cond' : Expr} {first first' : Stmt} {elseIfs elseIfs' : List ElseIf}
    {last last' : Option Stmt} {s s' : Span} {fc ff fe fl : List (Fault × Span)}
    (hcond : cond.Replaced n cond' fc) (hfirst : Stmt.Replaced n first first' ff)
    (helseIfs : Piecewise (ElseIf.Replaced n) elseIfs elseIfs' fe)
    (hlast : Optionally (Stmt.Replaced n) last last' fl) :
    PlainStmt.Replaced n (.branch cond first elseIfs last s)
      (.branch cond' first' elseIfs' last' s') (fc ++ ff ++ fe ++ fl)
  | whileLoop {cond cond' : Expr} {body body' : Stmt} {s s' : Span} {fc fb : List (Fault × Span)}
    (hcond : cond.Replaced n cond' fc) (hbody : Stmt.Replaced n body body' fb) :
    PlainStmt.Replaced n (.whileLoop cond body s) (.whileLoop cond' body' s') (fc ++ fb)
  | doWhile {cond cond' : Expr} {body body' : Stmt} {s s' : Span} {fc fb : List (Fault × Span)}
    (hbody : Stmt.Replaced n body body' fb) (hcond : cond.Replaced n cond' fc) :
    PlainStmt.Replaced n (.doWhile body cond s) (.doWhile body' cond' s') (fb ++ fc)
  | forLoop {init init' step step' : List Expr} {cond cond' : Option Expr} {body body' : Stmt}
    {s s' : Span} {fi fc ft fb : List (Fault × Span)}
    (hinit : Piecewise (Expr.Replaced n) init init' fi)
    (hcond : Optionally (Expr.Replaced n) cond cond' fc)
    (hstep : Piecewise (Expr.Replaced n) step step' ft) (hbody : Stmt.Replaced n body body' fb) :
    PlainStmt.Replaced n (.forLoop init cond step body s) (.forLoop init' cond' step' body' s')
      (fi ++ fc ++ ft ++ fb)

inductive ElseIf.Replaced (n : String) : ElseIf → ElseIf → List (Fault × Span) → Prop where
  | mk {cond cond' : Expr} {body body' : Stmt} {s s' : Span} {fc fb : List (Fault × Span)}
    (hcond : cond.Replaced n cond' fc) (hbody : Stmt.Replaced n body body' fb) :
    ElseIf.Replaced n (.mk cond body s) (.mk cond' body' s') (fc ++ fb)

end

def Block.Replaced (n : String) (b b' : Block) (fs : List (Fault × Span)) : Prop :=
  Piecewise (Stmt.Replaced n) b.stmts b'.stmts fs

/-! ### Scripts -/

/-- The same parameters, none of them called `n`. -/
structure Param.Kept (n : String) (p p' : Param) : Prop where
  name : p'.name = p.name
  fresh : p.name ≠ n
  ty : p'.ty = p.ty

structure FunctionDecl.Replaced (n : String) (d d' : FunctionDecl) (fs : List (Fault × Span)) :
    Prop where
  name : d'.name = d.name
  returnType : d'.returnType = d.returnType
  params : List.Forall₂ (Param.Kept n) d.params d'.params
  body : d.body.Replaced n d'.body fs

structure HandlerDecl.Replaced (n : String) (d d' : HandlerDecl) (fs : List (Fault × Span)) :
    Prop where
  name : d'.name = d.name
  params : List.Forall₂ (Param.Kept n) d.params d'.params
  body : d.body.Replaced n d'.body fs

structure StateDecl.Replaced (n : String) (d d' : StateDecl) (fs : List (Fault × Span)) :
    Prop where
  name : d'.name = d.name
  handlers : Piecewise (HandlerDecl.Replaced n) d.handlers d'.handlers fs

/-- The second script is the first with the name `n` in place of some expressions,
which makes these mistakes. No variable is called `n`. -/
inductive Script.Replaced (n : String) : Script → Script → List (Fault × Span) → Prop where
  | mk {s s' : Script} {fg ff fd fs : List (Fault × Span)}
    (globals : Piecewise (VarDecl.Replaced n) s.globals s'.globals fg)
    (functions : Piecewise (FunctionDecl.Replaced n) s.functions s'.functions ff)
    (defaultState : Optionally (StateDecl.Replaced n) s.defaultState s'.defaultState fd)
    (states : Piecewise (StateDecl.Replaced n) s.states s'.states fs) :
    Script.Replaced n s s' (fg ++ ff ++ fd ++ fs)

/-! ### Labels -/

/-- A label site without where it is written. -/
def LabelSite.place (site : LabelSite) : String × Nat × Nat := (site.name, site.scopeId, site.index)

/-- The same labels, but for where they are written. -/
def SameLabels (x x' : Nat × List LabelSite) : Prop :=
  x'.1 = x.1 ∧ x'.2.map (·.place) = x.2.map (·.place)

mutual

theorem labelsOfStmts_replaced (scope index last : Nat) : (stmts : List Stmt) →
    ∀ {stmts' fs}, Piecewise (Stmt.Replaced n) stmts stmts' fs →
      SameLabels (labelsOfStmts scope index last stmts) (labelsOfStmts scope index last stmts')
  | [], _, _, h => by
    cases h
    exact ⟨rfl, rfl⟩
  | s :: rest, _, _, h => by
    cases h with
    | cons head tail =>
      obtain ⟨hlast, hsites⟩ := labelsOfStmt_replaced scope index last s head
      obtain ⟨hlast', hsites'⟩ := labelsOfStmts_replaced scope (index + 1)
        (labelsOfStmt scope index last s).1 rest tail
      simp only [SameLabels, labelsOfStmts, hlast, List.map_append, hsites, hsites', hlast', and_self]
termination_by structural part => part

theorem labelsOfStmt_replaced (scope index last : Nat) : (s : Stmt) →
    ∀ {s' fs}, s.Replaced n s' fs →
      SameLabels (labelsOfStmt scope index last s) (labelsOfStmt scope index last s')
  | .block (.mk stmts _) _, _, _, h => by
    cases h with
    | block h =>
      simp only [labelsOfStmt]
      exact labelsOfStmts_replaced _ _ _ stmts h
  | .plain stmt, _, _, h => by
    cases h with
    | plain h =>
      simp only [labelsOfStmt]
      exact labelsOfPlain_replaced _ _ _ stmt h
termination_by structural part => part

theorem labelsOfPlain_replaced (scope index last : Nat) : (stmt : PlainStmt) →
    ∀ {stmt' fs}, stmt.Replaced n stmt' fs →
      SameLabels (labelsOfPlain scope index last stmt) (labelsOfPlain scope index last stmt')
  | .empty _, _, _, h | .expr .., _, _, h | .declare .., _, _, h | .ret .., _, _, h
  | .jump .., _, _, h | .stateChange .., _, _, h | .label .., _, _, h => by
    cases h
    exact ⟨rfl, rfl⟩
  | .branch _ first elseIfs last' _, _, _, h => by
    cases h with
    | branch _ hfirst helseIfs hlast =>
      obtain ⟨h₁, hsites₁⟩ := labelsOfBody_replaced last first hfirst
      obtain ⟨h₂, hsites₂⟩ := labelsOfElseIfs_replaced (labelsOfBody last first).1 elseIfs helseIfs
      obtain ⟨h₃, hsites₃⟩ := labelsOfElse_replaced
        (labelsOfElseIfs (labelsOfBody last first).1 elseIfs).1 last' hlast
      simp only [SameLabels, labelsOfPlain, h₁, h₂, h₃, List.map_append, hsites₁, hsites₂, hsites₃,
        and_self]
  | .whileLoop _ body _, _, _, h | .doWhile body _ _, _, _, h | .forLoop _ _ _ body _, _, _, h => by
    cases h
    simp only [labelsOfPlain]
    exact labelsOfBody_replaced last body ‹_›
termination_by structural part => part

theorem labelsOfBody_replaced (last : Nat) : (body : Stmt) → ∀ {body' fs}, body.Replaced n body' fs →
    SameLabels (labelsOfBody last body) (labelsOfBody last body')
  | .block (.mk stmts _) _, _, _, h => by
    cases h with
    | block h =>
      simp only [labelsOfBody]
      exact labelsOfStmts_replaced _ _ _ stmts h
  | .plain stmt, _, _, h => by
    cases h with
    | plain h =>
      simp only [labelsOfBody]
      exact labelsOfPlain_replaced _ _ _ stmt h
termination_by structural part => part

theorem labelsOfElseIfs_replaced (last : Nat) : (elseIfs : List ElseIf) →
    ∀ {elseIfs' fs}, Piecewise (ElseIf.Replaced n) elseIfs elseIfs' fs →
      SameLabels (labelsOfElseIfs last elseIfs) (labelsOfElseIfs last elseIfs')
  | [], _, _, h => by
    cases h
    exact ⟨rfl, rfl⟩
  | .mk _ body _ :: rest, _, _, h => by
    cases h with
    | cons head tail =>
      cases head with
      | mk _ hbody =>
        obtain ⟨h₁, hsites₁⟩ := labelsOfBody_replaced last body hbody
        obtain ⟨h₂, hsites₂⟩ := labelsOfElseIfs_replaced (labelsOfBody last body).1 rest tail
        simp only [SameLabels, labelsOfElseIfs, h₁, h₂, List.map_append, hsites₁, hsites₂, and_self]
termination_by structural part => part

theorem labelsOfElse_replaced (last : Nat) : (body : Option Stmt) →
    ∀ {body' fs}, Optionally (Stmt.Replaced n) body body' fs →
      SameLabels (labelsOfElse last body) (labelsOfElse last body')
  | none, _, _, h => by
    cases h
    exact ⟨rfl, rfl⟩
  | some body, _, _, h => by
    cases h with
    | some h =>
      simp only [labelsOfElse]
      exact labelsOfBody_replaced last body h
termination_by structural part => part

end

/-- The labels of a body are the same but for where they are written. -/
theorem Block.Replaced.labelSites {b b' : Block} (h : b.Replaced n b' fs) :
    b'.labelSites.map (·.place) = b.labelSites.map (·.place) :=
  (labelsOfStmts_replaced 1 0 1 b.stmts h).2

end Lsl
