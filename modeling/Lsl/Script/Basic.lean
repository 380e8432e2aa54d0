/- # Scripts

The parsed form of a script: plain data without any resolved names. Literals
keep the text they were written with. Every part carries the span it was read
from.

A statement is a braced block or a plain statement. The distinction matters
for the bodies of branches and loops: a block is a scope with its statements, a
plain statement is a scope on its own.

Key definitions: `Expr`, `Stmt`, `PlainStmt`, `Block`, `Script`.
-/
import Lsl.Span
import Lsl.Ty
import Lsl.Operator

namespace Lsl

/-- An expression of a script. -/
inductive Expr where
  /-- A decimal integer literal. -/
  | integer (text : String) (span : Span)
  /-- A hexadecimal integer literal with its leading `0x`. -/
  | hex (text : String) (span : Span)
  | float (text : String) (span : Span)
  /-- A string literal with its quotes. -/
  | string (text : String) (span : Span)
  | vector (x y z : Expr) (span : Span)
  | rotation (x y z s : Expr) (span : Span)
  | list (items : List Expr) (span : Span)
  /-- A reference to a variable or to a constant of the library. -/
  | ident (name : String) (span : Span)
  | component (object : Expr) (component : Component) (span : Span)
  | call (name : String) (args : List Expr) (span : Span)
  | binary (op : BinaryOp) (left right : Expr) (span : Span)
  | prefixed (op : PrefixOp) (operand : Expr) (span : Span)
  | postfixed (op : PostfixOp) (operand : Expr) (span : Span)
  | cast (ty : Ty) (operand : Expr) (span : Span)
  | paren (inner : Expr) (span : Span)
deriving Repr, Inhabited

namespace Expr

def span : Expr → Span
  | integer _ s | hex _ s | float _ s | string _ s | vector _ _ _ s | rotation _ _ _ _ s
  | list _ s | ident _ s | component _ _ s | call _ _ s | binary _ _ _ s | prefixed _ _ s
  | postfixed _ _ s | cast _ _ s | paren _ s => s

/-- The same expression at another span. -/
def withSpan (e : Expr) (span : Span) : Expr :=
  match e with
  | integer text _ => integer text span
  | hex text _ => hex text span
  | float text _ => float text span
  | string text _ => string text span
  | vector x y z _ => vector x y z span
  | rotation x y z s _ => rotation x y z s span
  | list items _ => list items span
  | ident name _ => ident name span
  | component object c _ => component object c span
  | call name args _ => call name args span
  | binary op left right _ => binary op left right span
  | prefixed op operand _ => prefixed op operand span
  | postfixed op operand _ => postfixed op operand span
  | cast ty operand _ => cast ty operand span
  | paren inner _ => paren inner span

/-- The expression inside all enclosing parentheses. -/
def unparen : Expr → Expr
  | paren inner _ => unparen inner
  | e => e

/-- A number or a string. -/
def isLiteral : Expr → Bool
  | integer .. | hex .. | float .. | string .. => true
  | _ => false

/-- Whether the expression, used as a statement, can do anything. -/
def hasEffect (e : Expr) : Bool :=
  match e.unparen with
  | call .. | postfixed .. => true
  | binary op .. => op.isAssignment
  | prefixed op .. => op.modifiesOperand
  | _ => false

end Expr

/-- The declaration of a global or local variable. -/
structure VarDecl where
  name : String
  ty : Ty
  init : Option Expr := none
  span : Span := {}
deriving Repr, Inhabited

/-- A parameter of a function or of an event handler. -/
structure Param where
  name : String
  ty : Ty
  span : Span := {}
deriving Repr, Inhabited

mutual

/-- A statement: a braced block, or a plain statement. -/
inductive Stmt where
  | block (body : Block) (span : Span)
  | plain (stmt : PlainStmt)

/-- A statement that is no block. -/
inductive PlainStmt where
  | empty (span : Span)
  | expr (value : Expr) (span : Span)
  | declare (decl : VarDecl) (span : Span)
  | ret (value : Option Expr) (span : Span)
  | jump (label : String) (span : Span)
  | label (name : String) (span : Span)
  | stateChange (target : String) (span : Span)
  | branch (cond : Expr) (thenBranch : Stmt) (elseIfs : List ElseIf) (elseBranch : Option Stmt)
      (span : Span)
  | whileLoop (cond : Expr) (body : Stmt) (span : Span)
  | doWhile (body : Stmt) (cond : Expr) (span : Span)
  | forLoop (init : List Expr) (cond : Option Expr) (step : List Expr) (body : Stmt)
      (span : Span)

/-- A further condition of a branch, with its body. -/
inductive ElseIf where
  | mk (cond : Expr) (body : Stmt) (span : Span)

/-- A braced list of statements. -/
inductive Block where
  | mk (stmts : List Stmt) (span : Span)

end

instance : Inhabited Block := ⟨.mk [] {}⟩

namespace Block

def stmts : Block → List Stmt
  | mk stmts _ => stmts

def span : Block → Span
  | mk _ span => span

end Block

namespace PlainStmt

def span : PlainStmt → Span
  | empty s | expr _ s | declare _ s | ret _ s | jump _ s | label _ s | stateChange _ s
  | branch _ _ _ _ s | whileLoop _ _ s | doWhile _ _ s | forLoop _ _ _ _ s => s

/-- The same statement at another span. -/
def withSpan (stmt : PlainStmt) (span : Span) : PlainStmt :=
  match stmt with
  | empty _ => empty span
  | expr e _ => expr e span
  | declare decl _ => declare decl span
  | ret value _ => ret value span
  | jump name _ => jump name span
  | label name _ => label name span
  | stateChange target _ => stateChange target span
  | branch cond t es e _ => branch cond t es e span
  | whileLoop cond body _ => whileLoop cond body span
  | doWhile body cond _ => doWhile body cond span
  | forLoop init cond step body _ => forLoop init cond step body span

end PlainStmt

namespace Stmt

def span : Stmt → Span
  | block _ s => s
  | plain stmt => stmt.span

/-- The same statement at another span; the span of a block's braces stays. -/
def withSpan (stmt : Stmt) (span : Span) : Stmt :=
  match stmt with
  | block body _ => block body span
  | plain stmt => plain (stmt.withSpan span)

def isBlock : Stmt → Bool
  | block .. => true
  | plain _ => false

end Stmt

/-- A function of the script; its type is `void` when it returns nothing. -/
structure FunctionDecl where
  name : String
  returnType : Ty := .void
  params : List Param := []
  body : Block
  span : Span := {}

/-- An event handler of a state. -/
structure HandlerDecl where
  name : String
  params : List Param := []
  body : Block
  span : Span := {}

/-- A state with its event handlers. -/
structure StateDecl where
  name : String
  handlers : List HandlerDecl := []
  span : Span := {}

/-- A script. The default state stands apart from the named ones; a second
default state is one of `states` and is reported there. -/
structure Script where
  globals : List VarDecl := []
  functions : List FunctionDecl := []
  defaultState : Option StateDecl := none
  states : List StateDecl := []
  span : Span := {}
deriving Inhabited

/-- The name of the state that every script has to declare. -/
def defaultStateName : String := "default"

end Lsl
