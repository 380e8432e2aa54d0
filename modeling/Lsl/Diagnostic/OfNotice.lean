/- # Notices as diagnostics

What is shown beside the message of a notice: a text at the place it is about,
the place of an earlier definition, and remarks on what to do.

Key definitions: `Remark`, `Fault.remark`, `Warning.remark`,
`Notice.toDiagnostic`.
-/
import Lsl.Diagnostic.Basic
import Lsl.Notice

namespace Lsl

/-- What is said about a notice besides its message. -/
structure Remark where
  /-- What stands at the place itself. -/
  text : String := ""
  /-- Where the same name was defined before. -/
  previous : Option Span := none
  note : Option String := none
  help : Option String := none
deriving DecidableEq, Repr, Inhabited

/-- The remark on a second definition of a name. -/
def Remark.redefined (previous : Span) : Remark :=
  { text := "redefined here", previous := some previous }

def Fault.remark : Fault → Remark
  | .variableRedefined _ previous | .functionRedefined _ previous | .labelRedefined _ previous
  | .stateRedefined _ previous => .redefined previous
  | .undefinedVariable _ => { text := "not found in this scope" }
  | .undefinedFunction _ => { text := "not a user or library function" }
  | .jumpToUndefinedLabel _ =>
    { text := "no visible label with this name"
      note := "labels are visible from their own block and any block nested in it" }
  | .libraryFunctionRedefined _ | .libraryConstantRedefined _ =>
    { text := "name is reserved by the library", help := "choose a different name" }
  | .missingDefaultState =>
    { help := "add `default \x7b state_entry() \x7b \x7d \x7d`" }
  | .stateWithoutHandlers _ => { note := "every state needs at least one event handler" }
  | .declarationWithoutBraces _ =>
    { text := "declared here", help := "wrap the body in braces" }
  | .incorrectSignature _ expected =>
    { text := "signature does not match"
      help := "declare it as " ++ Fault.ticked expected }
  | .argumentCount _ expected found =>
    { text := "expected " ++ expected.repr ++ " argument(s), found " ++ found.repr }
  | .argumentType _ _ expected _ => { text := "expected " ++ expected.name }
  | .ambiguousOverload _ => { help := "add a cast to pick one overload" }
  | .notAllPathsReturn _ => { help := "add a return statement at the end of the function" }
  | .deadCodeAfterReturn _ =>
    { text := "unreachable"
      note := "dead code in a function that returns a value is rejected" }
  | .notStatic _ => { note := "global initializers may only use literals and other globals" }
  | .invalidEscape _ => { note := "valid escapes are \\n, \\t, \\\" and \\\\" }
  | _ => {}

def Warning.remark : Warning → Remark
  | .deadCode .afterJumpBack =>
    { text := "never executed", note := "the jump above loops back unconditionally" }
  | .deadCode .afterJumpOut =>
    { text := "never executed", note := "the jump above leaves this block unconditionally" }
  | .deadCode _ => { text := "never executed" }
  | .functionNeverUsed _ | .globalNeverUsed _ | .localNeverUsed _ => { help := "remove it" }
  | .localHidesParameter _ | .localHidesGlobal _ | .parameterHidesGlobal _ =>
    { help := "consider renaming it" }
  | .uselessSemicolon => { help := "remove the `;`" }
  | .redundantCast _ => { help := "remove the cast" }
  | _ => {}

namespace Notice

def severity : Notice → Severity
  | fault .. => .error
  | warning .. => .warning

def remark : Notice → Remark
  | fault k _ => k.remark
  | warning k _ => k.remark

/-- The place of an earlier definition, if any, and the place itself. -/
def labels (n : Notice) : List SourceLabel :=
  n.remark.previous.toList.map (fun span => ⟨span, .secondary, "first defined here"⟩)
    ++ [⟨n.span, .primary, n.remark.text⟩]

def toDiagnostic (n : Notice) : Diagnostic where
  severity := n.severity
  code := n.code
  message := n.message
  labels := n.labels
  notes := n.remark.note.toList
  help := n.remark.help

end Notice

end Lsl
