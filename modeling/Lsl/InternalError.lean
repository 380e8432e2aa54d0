/- # Broken assumptions

Failures that no script can cause: they report that a tree does not have the
form its builder gives it.

Key definitions: `InternalError`, `InternalError.message`.
-/
import Lsl.Tree.Node

namespace Lsl

/-- An assumption about the tree that does not hold. -/
inductive InternalError where
  /-- The node is not of the kind that its place asks for. -/
  | unexpectedNode (id : NodeId) (expected : String)
  /-- The labels found beforehand do not match the statements of the body. -/
  | labelOutOfSync (span : Span)
deriving DecidableEq, Repr, Inhabited

namespace InternalError

def message : InternalError → String
  | unexpectedNode id expected => "node NodeId(" ++ id.repr ++ ") is not a " ++ expected
  | labelOutOfSync span =>
    "label pre-pass found no label for the statement at " ++ span.start.repr ++ ".."
      ++ span.stop.repr

end InternalError

end Lsl
