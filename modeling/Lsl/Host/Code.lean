/- # Code of the host

The generated code as data: expressions, statements and methods of the host
language, in the forms the generator uses. The text of a piece of code is
computed from it (`HostExpr.render`), so that statements about what is emitted
can be made on the code and not on its text.

Binary operators are calls of operator methods that the generated class
defines for itself. Which ones it has to define is collected while the code is
made, and becomes a part of the unit.

Key definitions: `Operation`, `HostExpr`, `HostStmt`, `HostMethod`, `HostUnit`.
-/
import Lsl.Operator
import Lsl.Ty

namespace Lsl

/-- A binary operator on operands of given types. -/
structure Operation where
  left : Ty
  op : BinaryOp
  right : Ty
  result : Ty
deriving DecidableEq, Repr, Inhabited

/-- The method that performs an operation. -/
def Operation.name (o : Operation) : String :=
  "_op_" ++ o.left.title ++ "_" ++ o.op.name ++ "_" ++ o.right.title

/-- Operations with one more, unless it is among them. -/
def Operation.takeUp (called : List Operation) (o : Operation) : List Operation :=
  if o ∈ called then called else called ++ [o]

/-- An expression of the host. -/
inductive HostExpr where
  /-- Text that stands as it is: a literal, or the name of a constant. -/
  | text (code : String)
  /-- A new value of a boxed type. -/
  | make (ty : Ty) (args : List HostExpr)
  /-- A global; inside their container globals are reached directly. -/
  | global (inContainer : Bool) (name : String)
  /-- A local variable, named after its scope. -/
  | inner (scopeId : Nat) (name : String)
  | param (name : String)
  /-- The value of a local variable whose declaration never runs. -/
  | absent (ty : Ty)
  | component (object : HostExpr) (component : Component)
  | callFunction (name : String) (args : List HostExpr)
  | callLibrary (name : String) (args : List HostExpr)
  /-- A library function that is called through the generic entry points. -/
  | callModule (result : Ty) (name : String) (args : List HostExpr)
  | copyList (value : HostExpr)
  /-- An operation; the right operand stands first, since it is evaluated first. -/
  | operate (op : Operation) (right left : HostExpr)
  /-- The value of a compound assignment that stores nothing. -/
  | unstored (op : Operation) (right left : HostExpr)
  /-- A logical operator, which evaluates both operands, the right one first. -/
  | logical (conjunction : Bool) (right left : HostExpr)
  | assign (op : BinaryOp) (target value : HostExpr)
  /-- A product with a float that is stored as an integer. -/
  | assignRounded (target value : HostExpr)
  | stepBefore (op : PrefixOp) (target : HostExpr)
  | stepAfter (op : PostfixOp) (target : HostExpr)
  /-- One more or one less than a value. -/
  | neighbour (value : HostExpr) (up : Bool)
  | negate (value : HostExpr)
  | unary (op : PrefixOp) (value : HostExpr)
  | cast (ty : Ty) (value : HostExpr)
  | paren (value : HostExpr)
  /-- A value that is computed and dropped. -/
  | force (value : HostExpr)
  | toBool (value : HostExpr)
  | keyToBool (value : HostExpr)
deriving Repr, Inhabited

mutual

/-- A statement of the host. -/
inductive HostStmt where
  /-- The call that lets the runtime end the script. -/
  | checkpoint
  | eval (value : HostExpr)
  | declare (ty : Ty) (scopeId : Nat) (name : String) (value : HostExpr)
  | ret (value : Option HostExpr)
  | goto (label : String)
  /-- A label, which may hold a checkpoint of its own. -/
  | label (name : String) (checkpoint : Bool)
  | changeState (target : String)
  | branch (cond : HostExpr) (body : List HostStmt) (arms : List HostArm)
      (otherwise : Option (List HostStmt))
  | whileLoop (cond : HostExpr) (body : List HostStmt)
  | doWhile (body : List HostStmt) (cond : HostExpr)
  | forLoop (init : List HostExpr) (cond : Option HostExpr) (step : List HostExpr)
      (body : List HostStmt)
  | block (body : List HostStmt)

/-- A further condition of a branch, with its body. -/
inductive HostArm where
  | mk (cond : HostExpr) (body : List HostStmt)

end

/-- A method: a function of the script or an event handler. -/
structure HostMethod where
  name : String
  result : Ty
  params : List (Ty × String)
  body : List HostStmt

/-- The field of a global, and the value it starts with. -/
structure HostField where
  ty : Ty
  name : String
  value : HostExpr
deriving Repr, Inhabited

/-- Everything that is emitted for a script, the frame around it apart. -/
structure HostUnit where
  globals : List HostField
  functions : List HostMethod
  /-- The handlers of each named state. -/
  states : List (List HostMethod)
  defaultState : List HostMethod
  /-- The operations that the members call, in the order of their first call. -/
  operations : List Operation

/-- The methods of a unit, in the order they are emitted. -/
def HostUnit.methods (u : HostUnit) : List HostMethod :=
  u.functions ++ u.states.flatten ++ u.defaultState

end Lsl
