/- # The register of codes

Every code that an error or a warning can carry, with a title and the group it
belongs to, in the order of the codes.

Key definitions: `CodeInfo`, `CodeInfo.all`, `CodeInfo.find?`.
-/

namespace Lsl

/-- The groups of codes. -/
inductive CodeCategory where
  | resolution
  | type
  | controlFlow
  | staticContext
  | lint
deriving DecidableEq, Repr, Inhabited

def CodeCategory.name : CodeCategory → String
  | resolution => "Resolution"
  | type => "Type"
  | controlFlow => "ControlFlow"
  | staticContext => "StaticContext"
  | lint => "Lint"

structure CodeInfo where
  code : String
  title : String
  category : CodeCategory
deriving DecidableEq, Repr, Inhabited

namespace CodeInfo

/-- Every code, in order. -/
def all : List CodeInfo := [
  ⟨"E0200", "undefined variable", .resolution⟩,
  ⟨"E0201", "variable redefined", .resolution⟩,
  ⟨"E0202", "parameter redefined", .resolution⟩,
  ⟨"E0203", "function redefined", .resolution⟩,
  ⟨"E0204", "library function redefined", .resolution⟩,
  ⟨"E0205", "library constant redefined", .resolution⟩,
  ⟨"E0206", "label redefined", .resolution⟩,
  ⟨"E0207", "jump to undefined label", .resolution⟩,
  ⟨"E0208", "undefined function", .resolution⟩,
  ⟨"E0209", "state redefined", .resolution⟩,
  ⟨"E0210", "default state redefined", .resolution⟩,
  ⟨"E0211", "missing default state", .resolution⟩,
  ⟨"E0212", "state change to undefined state", .resolution⟩,
  ⟨"E0213", "event handler redefined", .resolution⟩,
  ⟨"E0214", "unknown event handler", .resolution⟩,
  ⟨"E0215", "state has no event handlers", .resolution⟩,
  ⟨"E0216", "variable declared in braceless body", .resolution⟩,
  ⟨"E0300", "invalid binary operation", .type⟩,
  ⟨"E0301", "invalid prefix operation", .type⟩,
  ⟨"E0302", "invalid postfix operation", .type⟩,
  ⟨"E0303", "invalid cast", .type⟩,
  ⟨"E0304", "type mismatch in declaration", .type⟩,
  ⟨"E0305", "argument count mismatch", .type⟩,
  ⟨"E0306", "argument type mismatch", .type⟩,
  ⟨"E0307", "no matching overload", .type⟩,
  ⟨"E0308", "ambiguous overload", .type⟩,
  ⟨"E0309", "invalid vector or rotation component", .type⟩,
  ⟨"E0310", "invalid list element", .type⟩,
  ⟨"E0311", "invalid condition type", .type⟩,
  ⟨"E0313", "incorrect event signature", .type⟩,
  ⟨"E0314", "invalid component access", .type⟩,
  ⟨"E0315", "library constant modified", .type⟩,
  ⟨"E0316", "expression is not assignable", .type⟩,
  ⟨"E0317", "invalid string escape", .type⟩,
  ⟨"E0400", "return value from event handler", .controlFlow⟩,
  ⟨"E0401", "return value from void function", .controlFlow⟩,
  ⟨"E0402", "return type mismatch", .controlFlow⟩,
  ⟨"E0403", "missing return value", .controlFlow⟩,
  ⟨"E0404", "not all code paths return a value", .controlFlow⟩,
  ⟨"E0405", "dead code after return path", .controlFlow⟩,
  ⟨"E0500", "not allowed in a global initializer", .staticContext⟩,
  ⟨"W0001", "unreachable code", .lint⟩,
  ⟨"W0002", "deprecated library function", .lint⟩,
  ⟨"W0003", "deprecated library constant", .lint⟩,
  ⟨"W0004", "deprecated event", .lint⟩,
  ⟨"W0005", "unused function", .lint⟩,
  ⟨"W0006", "unused global variable", .lint⟩,
  ⟨"W0007", "unused local variable", .lint⟩,
  ⟨"W0008", "unused parameter", .lint⟩,
  ⟨"W0009", "local hides parameter", .lint⟩,
  ⟨"W0010", "local hides global", .lint⟩,
  ⟨"W0011", "parameter hides global", .lint⟩,
  ⟨"W0012", "constant condition", .lint⟩,
  ⟨"W0013", "expression has no effect", .lint⟩,
  ⟨"W0014", "unnecessary semicolon", .lint⟩,
  ⟨"W0015", "redundant cast", .lint⟩]

/-- What is known about a code; upper and lower case differ. -/
def find? (code : String) : Option CodeInfo := all.find? (·.code == code)

end CodeInfo

end Lsl
