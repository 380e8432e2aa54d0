/- # Steps of the generator

A step gives code, or tells why there is none: a script with errors is refused,
and all other causes but a failing output are about trees that no check of a
script produces. On the way the steps take up the operations that the code calls.

Key definitions: `GenerateError`, `GenerateError.message`, `Generate`, `Generator`,
`Generator.call`.
-/
import Lsl.Host.Code
import Lsl.Tree.Node

namespace Lsl

inductive GenerateError where
  /-- The script was checked and found wrong. -/
  | invalidScript
  /-- A node is not of the kind that its place asks for. -/
  | unexpectedNode (id : NodeId) (expected : String)
  /-- A node that is a part of itself. -/
  | endless (id : NodeId)
  | noBody (function : String)
  | noDefaultState
  | voidDeclaration
  | voidReference
  | voidConstant (name : String)
  /-- The output was refused. -/
  | writeFailed (reason : String)
deriving DecidableEq, Repr, Inhabited

namespace GenerateError

/-- What is wrong with the tree, if the tree is what is wrong. -/
def internal? : GenerateError → Option String
  | unexpectedNode id expected => some ("node " ++ id.repr ++ " is not " ++ expected)
  | endless id => some ("node " ++ id.repr ++ " is a part of itself")
  | noBody function => some ("function `" ++ function ++ "` has no body")
  | noDefaultState => some "script has no default state"
  | voidDeclaration => some "void variable declaration"
  | voidReference => some "reference to a void variable"
  | voidConstant name => some ("library constant `" ++ name ++ "` has type void")
  | invalidScript | writeFailed _ => none

def message (e : GenerateError) : String :=
  match e with
  | invalidScript => "Invalid input: script has validation errors"
  | writeFailed reason => "Write failed: " ++ reason
  | _ => "Internal code generator error: " ++ e.internal?.getD ""

end GenerateError

/-- What is generated, or why it is not. -/
abbrev Generate := Except GenerateError

/-- A step of the generator. It hands on the operations that are called so far,
each once, in the order of their first call. -/
abbrev Generator := StateT (List Operation) Generate

namespace Generator

/-- What a lookup finds; finding nothing means that the tree is malformed. -/
def expect (found : Option α) (id : NodeId) (expected : String) : Generator α :=
  match found with
  | some a => pure a
  | none => throw (.unexpectedNode id expected)

/-- Takes up an operation that the code calls. -/
def call (o : Operation) : Generator Unit := modify (Operation.takeUp · o)

end Generator

end Lsl
