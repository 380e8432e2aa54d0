/- # Host code for expressions

The operands of a binary operator are evaluated from right to left, logical
operators evaluate both operands, and a list is copied on its way into a user
function unless it is the plain value of a variable. Operators are calls of
methods that the generated class defines for itself.

A local variable whose declaration never runs has no counterpart in the host.
References to it read a default value; what would write a component of it only
computes the value.

Key definitions: `Position`, `hostExpr`, `hostStatement`, `hostCondition`.
-/
import Lsl.Generate.Error
import Lsl.Host.Constant
import Lsl.Tree.Basic

namespace Lsl

/-- Where an expression stands, which decides on boxes and parentheses. -/
inductive Position where
  /-- It is a whole statement. -/
  | statement
  | value
  /-- It is an argument of a library function that takes plain values. -/
  | nativeArgument
  /-- It is a component of a vector or rotation literal. -/
  | component
deriving DecidableEq, Repr, Inhabited

namespace Position

/-- Numbers need no box here. -/
def bareNumbers : Position → Bool
  | nativeArgument | component => true
  | statement | value => false

/-- Parentheses around what is no whole statement. -/
def enclose (pos : Position) (e : HostExpr) : HostExpr :=
  if pos = statement then e else .paren e

/-- The value of a write that has nowhere to go. -/
def discardWrite (pos : Position) (e : HostExpr) : HostExpr :=
  if pos = statement then .force e else .paren e

/-- A number, in a box where one is needed. -/
def number (pos : Position) (ty : Ty) (text : String) : HostExpr :=
  if pos.bareNumbers then .text text else .make ty [.text text]

end Position

/-! ### Looking at operands -/

/-- A component of a local variable whose declaration never runs. -/
def Tree.isDeadComponent (t : Tree) (id : NodeId) : Bool :=
  match t.expr? id with
  | some ⟨.component object _, _, _⟩ =>
    match t.expr? (t.unparen object) with
    | some ⟨.ref _ (.inner decl), _, _⟩ => t.isDeadDeclaration decl
    | _ => false
  | _ => false

/-- A reference to a variable, in parentheses or not. -/
def Tree.isBareReference (t : Tree) (id : NodeId) : Bool :=
  match t.expr? (t.unparen id) with
  | some ⟨.ref .., _, _⟩ => true
  | _ => false

/-- Whether an expression writes a variable or calls a function, as far as
`depth` levels below it show. -/
def Tree.effectWithin (t : Tree) : Nat → NodeId → Bool
  | 0, _ => false
  | depth + 1, id =>
    (t.expr? id).any (·.kind.writes) || (t.children id).any (t.effectWithin depth)

/-- Whether an expression writes a variable or calls a function. -/
def Tree.hasEffect (t : Tree) (id : NodeId) : Bool := t.effectWithin (t.size + 1) id

/-! ### Kinds of expressions

The functions here take the function that generates operands as an argument. -/

/-- The code of an operand at a position. -/
abbrev OperandCode := Position → NodeId → Generator HostExpr

/-- The stand-in for a variable that is never declared. -/
def absentValue : Ty → Generator HostExpr
  | .void => throw .voidReference
  | ty => return .absent ty

def referenceCode (t : Tree) (inContainer : Bool) (name : String) (ty : Ty) :
    Binding → Generator HostExpr
  | .global _ => return .global inContainer name
  | .param _ => return .param name
  | .inner decl =>
    if t.isDeadDeclaration decl then absentValue ty
    else do
      let var ← Generator.expect (t.var? decl) decl "a local declaration"
      return .inner var.declaredIn name
  | .constant k =>
    if k.expand then
      match k.expanded? with
      | some e => return e
      | none => throw (.voidConstant k.name)
    else return .text k.name

/-- An argument of a user function, which gets a list of its own. -/
def userArgument (t : Tree) (operand : OperandCode) (arg : NodeId) : Generator HostExpr := do
  let e ← operand .value arg
  return if t.exprType arg = .list && !t.isBareReference arg then .copyList e else e

def callCode (t : Tree) (operand : OperandCode) (name : String) (args : List NodeId) (ty : Ty) :
    CallTarget → Generator HostExpr
  | .user _ => return .callFunction name (← args.mapM (userArgument t operand))
  | .library true _ => return .callModule ty name (← args.mapM (operand .value))
  | .library false _ => return .callLibrary name (← args.mapM (operand .nativeArgument))

/-- A write to a component that cannot be written. -/
def deadAssignmentCode (operand : OperandCode) (op : BinaryOp) (operation : BinaryOp → Operation)
    (left right : NodeId) (pos : Position) : Generator HostExpr := do
  let r ← operand .value right
  match op.base? with
  | some base =>
    if pos = .statement then return pos.discardWrite r
    else
      Generator.call (operation base)
      let l ← operand .value left
      return pos.discardWrite (.unstored (operation base) r l)
  | none => return pos.discardWrite r

def binaryCode (t : Tree) (operand : OperandCode) (op : BinaryOp) (left right : NodeId) (ty : Ty)
    (pos : Position) : Generator HostExpr := do
  let operation (op : BinaryOp) : Operation := ⟨t.exprType left, op, t.exprType right, ty⟩
  if op.isLogical then
    let r ← operand .value right
    let l ← operand .value left
    return .logical (op == .and) r l
  else if op = .mulAssign && t.exprType left = .integer && t.exprType right = .float then
    let l ← operand .value left
    let r ← operand .value right
    return pos.enclose (.assignRounded l r)
  else if op.isAssignment then
    if t.isDeadComponent left then deadAssignmentCode operand op operation left right pos
    else
      let l ← operand .value left
      let r ← operand .value right
      return pos.enclose (.assign op l r)
  else
    Generator.call (operation op)
    let r ← operand .value right
    let l ← operand .value left
    return .operate (operation op) r l

/-- A prefix operator on code of its operand. A vector that is only signed as
positive is negated all the same. -/
def prefixedCode (op : PrefixOp) (ty : Ty) (dead : Bool) (pos : Position) (e : HostExpr) :
    HostExpr :=
  match op with
  | .increment | .decrement =>
    if dead then pos.discardWrite (.neighbour e (op == .increment))
    else pos.enclose (.stepBefore op e)
  | .negate => if ty = .vector ∨ ty = .rotation then .negate e else .unary op e
  | .positive => if ty = .vector then .negate e else .paren e
  | .not | .bitNot => .unary op e

def postfixedCode (op : PostfixOp) (dead : Bool) (pos : Position) (e : HostExpr) : HostExpr :=
  if dead then pos.discardWrite e else pos.enclose (.stepAfter op e)

/-- A cast; one that changes nothing in the host is left out. -/
def castCode (source ty : Ty) (e : HostExpr) : HostExpr :=
  if source = ty || (source.isStringLike && ty.isStringLike) then e else .cast ty e

/-! ### Expressions -/

/-- The code of an expression that is at most `depth` levels deep. -/
def hostExprWithin (t : Tree) (inContainer : Bool) : Nat → Position → NodeId → Generator HostExpr
  | 0, _, id => throw (.endless id)
  | depth + 1, pos, id => do
    let operand := hostExprWithin t inContainer depth
    let e ← Generator.expect (t.expr? id) id "an expression"
    match e.kind with
    | .integer text => return pos.number .integer (Literal.integer text)
    | .hex text => return .make .integer [.text (Literal.hex text)]
    | .float text => return pos.number .float (Literal.float text)
    | .string text =>
      return if pos = .nativeArgument then .text text else .make .string [.text text]
    | .vector x y z => return .paren (.make .vector (← [x, y, z].mapM (operand .component)))
    | .rotation x y z s =>
      return .paren (.make .rotation (← [x, y, z, s].mapM (operand .component)))
    | .list items => return .paren (.make .list (← items.mapM (operand .value)))
    | .ref name binding => referenceCode t inContainer name e.ty binding
    | .component object c => return .component (← operand .value object) c
    | .call name args target => callCode t operand name args e.ty target
    | .binary op left right => binaryCode t operand op left right e.ty pos
    | .prefixed op inner =>
      let code ← operand .value inner
      return prefixedCode op (t.exprType inner) (t.isDeadComponent inner) pos code
    | .postfixed op inner =>
      return postfixedCode op (t.isDeadComponent inner) pos (← operand .value inner)
    | .cast ty inner => return castCode (t.exprType inner) ty (← operand .value inner)
    | .paren inner => return .paren (← operand .value inner)

/-- The code of an expression. A path down a tree passes every node at most
once, so the number of nodes bounds the depth. -/
def hostExpr (t : Tree) (inContainer : Bool) (pos : Position) (id : NodeId) : Generator HostExpr :=
  hostExprWithin t inContainer (t.size + 1) pos id

/-- The code of an expression that is a whole statement. The host takes calls
and writes as statements; all else goes through a helper. -/
def hostStatement (t : Tree) (id : NodeId) : Generator HostExpr := do
  let e ← Generator.expect (t.expr? id) id "an expression"
  if e.kind.writes then hostExpr t false .statement id
  else return .force (← hostExpr t false .value id)

/-- The code of a condition; numbers are conditions by themselves. -/
def hostCondition (t : Tree) (id : NodeId) : Generator HostExpr := do
  let e ← hostExpr t false .value id
  return match t.exprType id with
    | .integer | .float => e
    | .key => .keyToBool e
    | _ => .toBool e

end Lsl
