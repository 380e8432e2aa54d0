/- # Operators and components

The operators of the language and the components of vectors and rotations,
with the three spellings each may have: the symbol in a script, the tag in a
serialized tree, and the name inside a host identifier.

Key definitions: `BinaryOp`, `PrefixOp`, `PostfixOp`, `Component`.
-/

namespace Lsl

/-- Binary operators, assignments included. -/
inductive BinaryOp where
  | add | sub | mul | div | mod
  | bitAnd | bitOr | bitXor
  | and | or
  | eq | ne | lt | gt | le | ge
  | shl | shr
  | assign | addAssign | subAssign | mulAssign | divAssign | modAssign
deriving DecidableEq, Repr, Inhabited

namespace BinaryOp

def symbol : BinaryOp → String
  | add => "+"
  | sub => "-"
  | mul => "*"
  | div => "/"
  | mod => "%"
  | bitAnd => "&"
  | bitOr => "|"
  | bitXor => "^"
  | and => "&&"
  | or => "||"
  | eq => "=="
  | ne => "!="
  | lt => "<"
  | gt => ">"
  | le => "<="
  | ge => ">="
  | shl => "<<"
  | shr => ">>"
  | assign => "="
  | addAssign => "+="
  | subAssign => "-="
  | mulAssign => "*="
  | divAssign => "/="
  | modAssign => "%="

/-- The word for the operator inside a host identifier. -/
def name : BinaryOp → String
  | add => "Add"
  | sub => "Subtract"
  | mul => "Multiply"
  | div => "Divide"
  | mod => "Modulus"
  | bitAnd => "BitwiseAnd"
  | bitOr => "BitwiseOr"
  | bitXor => "BitwiseXor"
  | and => "LogicalAnd"
  | or => "LogicalOr"
  | eq => "Equals"
  | ne => "NotEquals"
  | lt => "LessThan"
  | gt => "GreaterThan"
  | le => "LessThanEqual"
  | ge => "GreaterThanEqual"
  | shl => "LeftShift"
  | shr => "RightShift"
  | assign => "Assign"
  | addAssign => "AddAssign"
  | subAssign => "SubtractAssign"
  | mulAssign => "MultiplyAssign"
  | divAssign => "DivideAssign"
  | modAssign => "ModulusAssign"

/-- The tag of the operator in a serialized tree. -/
def tag : BinaryOp → String
  | add => "add"
  | sub => "sub"
  | mul => "mul"
  | div => "div"
  | mod => "mod"
  | bitAnd => "bit_and"
  | bitOr => "bit_or"
  | bitXor => "bit_xor"
  | and => "and"
  | or => "or"
  | eq => "eq"
  | ne => "ne"
  | lt => "lt"
  | gt => "gt"
  | le => "le"
  | ge => "ge"
  | shl => "shl"
  | shr => "shr"
  | assign => "assign"
  | addAssign => "add_assign"
  | subAssign => "sub_assign"
  | mulAssign => "mul_assign"
  | divAssign => "div_assign"
  | modAssign => "mod_assign"

def all : List BinaryOp :=
  [add, sub, mul, div, mod, bitAnd, bitOr, bitXor, and, or, eq, ne, lt, gt, le, ge, shl, shr,
    assign, addAssign, subAssign, mulAssign, divAssign, modAssign]

def ofSymbol? (text : String) : Option BinaryOp :=
  all.find? (·.symbol == text)

def ofTag? (text : String) : Option BinaryOp :=
  all.find? (·.tag == text)

/-- The operator an assignment applies before it stores: `+` for `+=`. -/
def base? : BinaryOp → Option BinaryOp
  | addAssign => some add
  | subAssign => some sub
  | mulAssign => some mul
  | divAssign => some div
  | modAssign => some mod
  | _ => none

/-- `=` and every operator that stores its result in its left operand. -/
def isAssignment (op : BinaryOp) : Bool :=
  op == assign || op.base?.isSome

def isCompoundAssignment (op : BinaryOp) : Bool := op.base?.isSome

def isLogical : BinaryOp → Bool
  | and | or => true
  | _ => false

theorem ofTag?_tag (op : BinaryOp) : ofTag? op.tag = some op := by
  cases op <;> decide

theorem ofSymbol?_symbol (op : BinaryOp) : ofSymbol? op.symbol = some op := by
  cases op <;> decide

end BinaryOp

/-- Operators written before their operand. -/
inductive PrefixOp where
  | increment
  | decrement
  | negate
  | positive
  | not
  | bitNot
deriving DecidableEq, Repr, Inhabited

namespace PrefixOp

def symbol : PrefixOp → String
  | increment => "++"
  | decrement => "--"
  | negate => "-"
  | positive => "+"
  | not => "!"
  | bitNot => "~"

def tag : PrefixOp → String
  | increment => "increment"
  | decrement => "decrement"
  | negate => "negate"
  | positive => "positive"
  | not => "not"
  | bitNot => "bit_not"

def all : List PrefixOp := [increment, decrement, negate, positive, not, bitNot]

def ofTag? (text : String) : Option PrefixOp :=
  all.find? (·.tag == text)

/-- `++` and `--` store into their operand. -/
def modifiesOperand : PrefixOp → Bool
  | increment | decrement => true
  | _ => false

theorem ofTag?_tag (op : PrefixOp) : ofTag? op.tag = some op := by
  cases op <;> decide

end PrefixOp

/-- Operators written after their operand; both store into it. -/
inductive PostfixOp where
  | increment
  | decrement
deriving DecidableEq, Repr, Inhabited

namespace PostfixOp

def symbol : PostfixOp → String
  | increment => "++"
  | decrement => "--"

def tag : PostfixOp → String
  | increment => "increment"
  | decrement => "decrement"

def all : List PostfixOp := [increment, decrement]

def ofTag? (text : String) : Option PostfixOp :=
  all.find? (·.tag == text)

theorem ofTag?_tag (op : PostfixOp) : ofTag? op.tag = some op := by
  cases op <;> decide

end PostfixOp

/-- A component of a vector or a rotation; only rotations have `s`. -/
inductive Component where
  | x
  | y
  | z
  | s
deriving DecidableEq, Repr, Inhabited

namespace Component

def name : Component → String
  | x => "x"
  | y => "y"
  | z => "z"
  | s => "s"

def all : List Component := [x, y, z, s]

def ofTag? (text : String) : Option Component :=
  all.find? (·.name == text)

theorem ofTag?_name (c : Component) : ofTag? c.name = some c := by
  cases c <;> decide

end Component

end Lsl
