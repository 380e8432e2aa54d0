/- # Nodes of a resolved script

The parts of a script after its names are resolved. Nodes refer to each other
by number: a variable to the expressions that use it, an expression to its
operands and to the declaration it is bound to, a label to the jumps that lead
to it. Statements carry what is known about their reachability.

Key definitions: `NodeId`, `Node`, `NodeKind`, `NodeKind.children`, `Reach`.
-/
import Lsl.Span
import Lsl.Ty
import Lsl.Operator
import Lsl.Library.Signature

namespace Lsl

/-- The number of a node: its place in the order of creation. -/
abbrev NodeId := Nat

/-! ### Declarations -/

/-- What kind of declaration introduces a variable. -/
inductive VarScope where
  | global
  | inner
  | parameter
deriving DecidableEq, Repr, Inhabited

/-- A declared variable. -/
structure Variable where
  name : String
  ty : Ty
  scope : VarScope
  init : Option NodeId := none
  /-- The expressions that read or write the variable. -/
  references : List NodeId := []
  /-- The scope that declares a local variable; 0 for all others. -/
  declaredIn : Nat := 0
deriving DecidableEq, Repr, Inhabited

/-- The script as a whole. -/
structure ScriptNode where
  globals : List NodeId := []
  functions : List NodeId := []
  defaultState : Option NodeId := none
  states : List NodeId := []
deriving DecidableEq, Repr, Inhabited

structure FunctionNode where
  name : String
  returnType : Ty := .void
  params : List NodeId := []
  /-- Known once the body is resolved. -/
  body : Option NodeId := none
  /-- The calls of the function. -/
  references : List NodeId := []
deriving DecidableEq, Repr, Inhabited

structure StateNode where
  name : String
  isDefault : Bool := false
  handlers : List NodeId := []
deriving DecidableEq, Repr, Inhabited

structure HandlerNode where
  name : String
  params : List NodeId := []
  body : NodeId
deriving DecidableEq, Repr, Inhabited

/-! ### Scopes and statements -/

/-- Where a scope stands. -/
inductive ScopeKind where
  | functionBody
  | eventBody
  | ifBranch
  | elseIfBranch
  | elseBranch
  | whileBody
  | doWhileBody
  | forBody
  | anonymousBlock
deriving DecidableEq, Repr, Inhabited

namespace ScopeKind

def isLoopBody : ScopeKind → Bool
  | whileBody | doWhileBody | forBody => true
  | _ => false

/-- The body of a function or of an event handler. -/
def isCallableBody : ScopeKind → Bool
  | functionBody | eventBody => true
  | _ => false

end ScopeKind

/-- Whether a statement can run, and if not, why. -/
inductive Reach where
  | live
  | afterJumpOut
  | afterJumpBack
  | jumpedOver
  | afterReturn
deriving DecidableEq, Repr, Inhabited

namespace Reach

def isDead (r : Reach) : Bool := r != live

def describe : Reach → String
  | live => "live code"
  | afterJumpOut => "code after a jump out of its scope"
  | afterJumpBack => "code after a jump that loops forever"
  | jumpedOver => "code that is always jumped over"
  | afterReturn => "code after a return path"

end Reach

/-- A jump that is always taken once its statement runs. -/
structure ConstantJump where
  /-- The jump, or the statement around it that always performs it. -/
  jump : NodeId
  jumpIndex : Nat
  label : NodeId
  targetScope : Nat
  targetIndex : Nat
deriving DecidableEq, Repr, Inhabited

/-- A run of dead statements of one scope. -/
structure DeadSegment where
  reason : Reach
  statements : List NodeId
  span : Span
deriving DecidableEq, Repr, Inhabited

structure CodeScope where
  scopeId : Nat := 0
  kind : ScopeKind := .eventBody
  /-- A body without braces, which holds one statement. -/
  singleStatement : Bool := false
  statements : List NodeId := []
  deadSegments : List DeadSegment := []
  constantJumps : List ConstantJump := []
  /-- The statement that makes every way through the scope return, if one does. -/
  returnPath : Option NodeId := none
deriving DecidableEq, Repr, Inhabited

def CodeScope.hasReturnPath (s : CodeScope) : Bool := s.returnPath.isSome

/-- What is known about a statement from its place in its scope. -/
structure StmtInfo where
  index : Nat := 0
  isLast : Bool := false
  scopeId : Nat := 0
  dead : Reach := .live
  /-- The statement itself, if every way through it returns. -/
  returnPath : Option NodeId := none
deriving DecidableEq, Repr, Inhabited

def StmtInfo.hasReturnPath (i : StmtInfo) : Bool := i.returnPath.isSome

inductive StmtKind where
  | empty
  | expr (value : NodeId)
  | declare (var : Variable)
  | ret (value : Option NodeId)
  /-- `constant` is set once the jump is known to be always taken. -/
  | jump (label : String) (target : Option NodeId) (constant : Bool)
  | label (name : String) (jumps : List NodeId)
  | stateChange (target : String) (state : Option NodeId)
  | branch (cond thenScope : NodeId) (elseIfs : List (NodeId × NodeId)) (elseScope : Option NodeId)
  | whileLoop (cond body : NodeId)
  | doWhile (body cond : NodeId)
  | forLoop (init : List NodeId) (cond : Option NodeId) (step : List NodeId) (body : NodeId)
  | block (scope : NodeId)
deriving DecidableEq, Repr, Inhabited

structure StmtNode where
  kind : StmtKind
  info : StmtInfo := {}
deriving DecidableEq, Repr, Inhabited

/-! ### Expressions -/

/-- The declaration that a name stands for. -/
inductive Binding where
  | global (decl : NodeId)
  | inner (decl : NodeId)
  | param (decl : NodeId)
  | constant (entry : LibraryConstant)
deriving DecidableEq, Repr, Inhabited

/-- The declaration in the script, if the name stands for one. -/
def Binding.decl? : Binding → Option NodeId
  | global d | inner d | param d => some d
  | constant _ => none

/-- The function that a call runs. -/
inductive CallTarget where
  | user (function : NodeId)
  | library (modInvoke : Bool) (params : List Ty)
deriving DecidableEq, Repr, Inhabited

inductive ExprKind where
  | integer (text : String)
  | hex (text : String)
  | float (text : String)
  | string (text : String)
  | vector (x y z : NodeId)
  | rotation (x y z s : NodeId)
  | list (items : List NodeId)
  | ref (name : String) (binding : Binding)
  | component (object : NodeId) (component : Component)
  | call (name : String) (args : List NodeId) (target : CallTarget)
  | binary (op : BinaryOp) (left right : NodeId)
  | prefixed (op : PrefixOp) (operand : NodeId)
  | postfixed (op : PostfixOp) (operand : NodeId)
  | cast (ty : Ty) (operand : NodeId)
  | paren (inner : NodeId)
deriving DecidableEq, Repr, Inhabited

structure ExprNode where
  kind : ExprKind
  ty : Ty
  /-- Made of literals and library constants only. -/
  constant : Bool
deriving DecidableEq, Repr, Inhabited

/-! ### Nodes -/

inductive NodeKind where
  | script (node : ScriptNode)
  | global (var : Variable)
  | function (node : FunctionNode)
  | param (var : Variable)
  | state (node : StateNode)
  | handler (node : HandlerNode)
  | scope (node : CodeScope)
  | stmt (node : StmtNode)
  | expr (node : ExprNode)
  /-- Stands for what could not be resolved. -/
  | error
deriving DecidableEq, Repr, Inhabited

structure Node where
  kind : NodeKind
  span : Span := {}
  parent : Option NodeId := none
  hasErrors : Bool := false
deriving DecidableEq, Repr, Inhabited

namespace StmtKind

/-- The parts of a statement, in the order they are written. -/
def children : StmtKind → List NodeId
  | empty | jump .. | label .. | stateChange .. => []
  | expr value => [value]
  | declare v => v.init.toList
  | ret value => value.toList
  | branch cond thenScope elseIfs elseScope =>
    cond :: thenScope :: (elseIfs.flatMap fun (c, b) => [c, b]) ++ elseScope.toList
  | whileLoop cond body => [cond, body]
  | doWhile body cond => [body, cond]
  | forLoop init cond step body => init ++ cond.toList ++ step ++ [body]
  | block scope => [scope]

def isDeclaration : StmtKind → Bool
  | declare _ => true
  | _ => false

def isLabel : StmtKind → Bool
  | label .. => true
  | _ => false

end StmtKind

namespace ExprKind

/-- The parts of an expression, in the order they are written. -/
def children : ExprKind → List NodeId
  | integer _ | hex _ | float _ | string _ | ref .. => []
  | vector x y z => [x, y, z]
  | rotation x y z s => [x, y, z, s]
  | list items => items
  | component object _ => [object]
  | call _ args _ => args
  | binary _ left right => [left, right]
  | prefixed _ operand | postfixed _ operand | cast _ operand | paren operand => [operand]

/-- Whether the operation itself writes a variable or calls a function. -/
def writes : ExprKind → Bool
  | call .. | postfixed .. => true
  | binary op .. => op.isAssignment
  | prefixed op _ => op.modifiesOperand
  | _ => false

end ExprKind

namespace NodeKind

/-- The nodes directly below a node, in the order they are written. -/
def children : NodeKind → List NodeId
  | script n => n.globals ++ n.functions ++ n.defaultState.toList ++ n.states
  | global v | param v => v.init.toList
  | function n => n.params ++ n.body.toList
  | state n => n.handlers
  | handler n => n.params ++ [n.body]
  | scope n => n.statements
  | stmt n => n.kind.children
  | expr n => n.kind.children
  | error => []

def expr? : NodeKind → Option ExprNode
  | expr n => some n
  | _ => none

def stmt? : NodeKind → Option StmtNode
  | stmt n => some n
  | _ => none

def scope? : NodeKind → Option CodeScope
  | scope n => some n
  | _ => none

def function? : NodeKind → Option FunctionNode
  | function n => some n
  | _ => none

/-- The variable that a declaration introduces. -/
def var? : NodeKind → Option Variable
  | global v | param v => some v
  | stmt n =>
    match n.kind with
    | .declare v => some v
    | _ => none
  | _ => none

def mapStmt (f : StmtNode → StmtNode) : NodeKind → NodeKind
  | stmt n => stmt (f n)
  | k => k

def mapFunction (f : FunctionNode → FunctionNode) : NodeKind → NodeKind
  | function n => function (f n)
  | k => k

def mapVariable (f : Variable → Variable) : NodeKind → NodeKind
  | global v => global (f v)
  | param v => param (f v)
  | stmt n =>
    match n.kind with
    | .declare v => stmt { n with kind := .declare (f v) }
    | _ => stmt n
  | k => k

end NodeKind

end Lsl
