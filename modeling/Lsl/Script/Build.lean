/- # Building scripts by hand

Short constructors for the parts of a script. What they build has the empty
span at offset 0 unless `withSpan` gives it another; an expression statement
takes the span of its expression.

Key definitions: `Build.int`, `Build.exprStmt`, `Build.scriptWithEntry`.
-/
import Lsl.Script.Basic

namespace Lsl

namespace Build

/-! ### Expressions -/

def int (value : Int) : Expr := .integer value.repr {}

def hex (text : String) : Expr := .hex text {}

/-- A float literal from its text, such as `1.5` or `2.`. -/
def float (text : String) : Expr := .float text {}

/-- A string literal from the text between its quotes. -/
def string (text : String) : Expr := .string ("\"" ++ text ++ "\"") {}

def ident (name : String) : Expr := .ident name {}

def vector (x y z : Expr) : Expr := .vector x y z {}

def rotation (x y z s : Expr) : Expr := .rotation x y z s {}

def list (items : List Expr) : Expr := .list items {}

def component (object : Expr) (c : Component) : Expr := .component object c {}

def call (name : String) (args : List Expr) : Expr := .call name args {}

def binary (op : BinaryOp) (left right : Expr) : Expr := .binary op left right {}

def assign (target : String) (value : Expr) : Expr := binary .assign (ident target) value

def prefixed (op : PrefixOp) (operand : Expr) : Expr := .prefixed op operand {}

def postfixed (op : PostfixOp) (operand : Expr) : Expr := .postfixed op operand {}

def cast (ty : Ty) (operand : Expr) : Expr := .cast ty operand {}

def paren (inner : Expr) : Expr := .paren inner {}

/-! ### Statements -/

def empty : Stmt := .plain (.empty {})

def exprStmt (e : Expr) : Stmt := .plain (.expr e e.span)

def varDecl (ty : Ty) (name : String) (init : Option Expr) : VarDecl :=
  { name, ty, init }

def declare (ty : Ty) (name : String) (init : Option Expr) : Stmt :=
  .plain (.declare (varDecl ty name init) {})

def ret (value : Option Expr) : Stmt := .plain (.ret value {})

def jump (label : String) : Stmt := .plain (.jump label {})

def label (name : String) : Stmt := .plain (.label name {})

def stateChange (target : String) : Stmt := .plain (.stateChange target {})

/-- A branch with any number of further conditions. -/
def branch (cond : Expr) (thenBranch : Stmt) (elseIfs : List (Expr × Stmt))
    (elseBranch : Option Stmt) : Stmt :=
  .plain (.branch cond thenBranch (elseIfs.map fun (c, s) => .mk c s {}) elseBranch {})

def whileLoop (cond : Expr) (body : Stmt) : Stmt := .plain (.whileLoop cond body {})

def doWhile (body : Stmt) (cond : Expr) : Stmt := .plain (.doWhile body cond {})

def forLoop (init : List Expr) (cond : Option Expr) (step : List Expr) (body : Stmt) : Stmt :=
  .plain (.forLoop init cond step body {})

def block (stmts : List Stmt) : Stmt := .block (.mk stmts {}) {}

/-! ### Declarations -/

def param (ty : Ty) (name : String) : Param := { name, ty }

def function (returnType : Ty) (name : String) (params : List Param) (body : List Stmt) :
    FunctionDecl :=
  { name, returnType, params, body := .mk body {} }

def handler (name : String) (params : List Param) (body : List Stmt) : HandlerDecl :=
  { name, params, body := .mk body {} }

def state (name : String) (handlers : List HandlerDecl) : StateDecl :=
  { name, handlers }

/-- A script whose default state runs these statements when it is entered. -/
def scriptWithEntry (body : List Stmt) : Script :=
  { defaultState := some (state defaultStateName [handler "state_entry" [] body]) }

end Build

end Lsl
