/- # Typing rules

The result types of operators, and which values may be stored, cast and used as
conditions. Integers widen to floats, strings and keys convert into each other,
and nothing of type `void` takes part in anything.

Key definitions: `binaryResult`, `prefixResult`, `postfixResult`, `assignable`,
`castValid`, `validCondition`.
-/
import Lsl.Ty
import Lsl.Operator

namespace Lsl

/-- Whether a value of type `source` may be stored where `target` is declared. -/
def assignable (target source : Ty) : Bool :=
  if target.isVoid || source.isVoid then false
  else
    target == source || (target == .float && source == .integer)
      || (target.isStringLike && source.isStringLike)

/-- Numbers compare with numbers, strings and keys with each other, vectors and
rotations with their own kind. -/
def equalityComparable (left right : Ty) : Bool :=
  (left.isNumeric && right.isNumeric) || (left.isStringLike && right.isStringLike)
    || (left == right && (left == .vector || left == .rotation))

/-- The result of an operator with a list among its operands, where lists have
a rule of their own. -/
def listResult (op : BinaryOp) (left right : Ty) : Option Ty :=
  if left != .list && right != .list then none
  else
    match op with
    | .add => some .list
    | .addAssign => if left == .list then some .list else none
    | .eq | .ne => if left == .list && right == .list then some .integer else none
    | .assign => if left == .list && right == .list then some .list else none
    | _ => none

/-- The result of an operator on values that are neither lists nor `void`. -/
def scalarResult (op : BinaryOp) (left right : Ty) : Option Ty :=
  match op, left, right with
  | .add, .integer, .integer | .sub, .integer, .integer => some .integer
  | .add, .integer, .float | .sub, .integer, .float => some .float
  | .add, .float, .integer | .sub, .float, .integer => some .float
  | .add, .float, .float | .sub, .float, .float => some .float
  | .add, .vector, .vector | .sub, .vector, .vector => some .vector
  | .add, .rotation, .rotation | .sub, .rotation, .rotation => some .rotation
  | .add, .string, .string => some .string
  | .mul, .integer, .integer => some .integer
  | .mul, .integer, .float | .mul, .float, .integer | .mul, .float, .float => some .float
  | .mul, .integer, .vector | .mul, .float, .vector => some .vector
  | .mul, .vector, .integer | .mul, .vector, .float => some .vector
  | .mul, .vector, .vector => some .float
  | .mul, .vector, .rotation => some .vector
  | .mul, .rotation, .rotation => some .rotation
  | .div, .integer, .integer => some .integer
  | .div, .integer, .float | .div, .float, .integer | .div, .float, .float => some .float
  | .div, .vector, .integer | .div, .vector, .float => some .vector
  | .div, .vector, .rotation => some .vector
  | .div, .rotation, .rotation => some .rotation
  | .mod, .integer, .integer => some .integer
  | .mod, .vector, .vector => some .vector
  | .bitAnd, .integer, .integer | .bitOr, .integer, .integer | .bitXor, .integer, .integer
  | .and, .integer, .integer | .or, .integer, .integer
  | .shl, .integer, .integer | .shr, .integer, .integer => some .integer
  | .eq, _, _ | .ne, _, _ => if equalityComparable left right then some .integer else none
  | .lt, _, _ | .gt, _, _ | .le, _, _ | .ge, _, _ =>
    if left.isNumeric && right.isNumeric then some .integer else none
  | .assign, _, _ => if assignable left right then some left else none
  | .addAssign, .integer, .integer | .subAssign, .integer, .integer => some .integer
  | .addAssign, .float, .integer | .subAssign, .float, .integer => some .float
  | .addAssign, .float, .float | .subAssign, .float, .float => some .float
  | .addAssign, .vector, .vector | .subAssign, .vector, .vector => some .vector
  | .addAssign, .rotation, .rotation | .subAssign, .rotation, .rotation => some .rotation
  | .addAssign, .string, .string => some .string
  | .mulAssign, .integer, .integer | .mulAssign, .integer, .float => some .integer
  | .mulAssign, .float, .integer | .mulAssign, .float, .float => some .float
  | .mulAssign, .vector, .integer | .mulAssign, .vector, .float => some .vector
  | .mulAssign, .vector, .rotation => some .vector
  | .mulAssign, .rotation, .rotation => some .rotation
  | .divAssign, .integer, .integer => some .integer
  | .divAssign, .float, .integer | .divAssign, .float, .float => some .float
  | .divAssign, .vector, .integer | .divAssign, .vector, .float => some .vector
  | .divAssign, .vector, .rotation => some .vector
  | .divAssign, .rotation, .rotation => some .rotation
  | .modAssign, .integer, .integer => some .integer
  | .modAssign, .vector, .vector => some .vector
  | _, _, _ => none

/-- The type of `left op right`, if the operands fit the operator. -/
def binaryResult (op : BinaryOp) (left right : Ty) : Option Ty :=
  if left.isVoid || right.isVoid then none
  else (listResult op left right).or (scalarResult op left right)

/-- Whether an operator may stand before an operand of this type. -/
def PrefixOp.applies (op : PrefixOp) (operand : Ty) : Bool :=
  match op with
  | .not | .bitNot => operand == .integer
  | .increment | .decrement => operand.isNumeric
  | .negate => operand.isNumeric || operand == .vector || operand == .rotation
  | .positive => operand.isNumeric || operand == .vector

def prefixResult (op : PrefixOp) (operand : Ty) : Option Ty :=
  if op.applies operand then some operand else none

def postfixResult (_op : PostfixOp) (operand : Ty) : Option Ty :=
  if operand.isNumeric then some operand else none

/-- Whether a value of type `source` may be cast to `target`. -/
def castValid (target source : Ty) : Bool :=
  if source.isVoid then false
  else
    match target with
    | .list | .string => true
    | .integer | .float => source.isNumeric || source == .string
    | .vector => source == .vector || source == .string
    | .rotation => source == .rotation || source == .string
    | .key => source == .key || source == .string
    | .void => false

/-- Every value may be used as a condition. -/
def validCondition (t : Ty) : Bool := !t.isVoid

end Lsl
