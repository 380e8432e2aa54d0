/- # Diagnostics

An error, a warning or a note in the form it is shown to a reader: a message
with a code, labels on parts of the source, and further remarks.

Key definitions: `Diagnostic`, `Diagnostic.primarySpan`.
-/
import Lsl.Span

namespace Lsl

inductive Severity where
  | error
  | warning
  | note
deriving DecidableEq, Repr, Inhabited

def Severity.name : Severity → String
  | error => "error"
  | warning => "warning"
  | note => "note"

/-- Whether a label shows the problem itself or something that belongs to it. -/
inductive LabelStyle where
  | primary
  | secondary
deriving DecidableEq, Repr, Inhabited

def LabelStyle.name : LabelStyle → String
  | primary => "primary"
  | secondary => "secondary"

/-- A part of the source, with what is said about it. -/
structure SourceLabel where
  span : Span
  style : LabelStyle
  message : Option String := none
deriving DecidableEq, Repr, Inhabited

/-- What is said about the part; an empty message says nothing. -/
def SourceLabel.text? (l : SourceLabel) : Option String := l.message.filter (!·.isEmpty)

structure Diagnostic where
  severity : Severity
  code : Option String := none
  message : String
  labels : List SourceLabel := []
  notes : List String := []
  help : Option String := none
deriving DecidableEq, Repr, Inhabited

namespace Diagnostic

def isError (d : Diagnostic) : Bool := d.severity == .error

def isWarning (d : Diagnostic) : Bool := d.severity == .warning

/-- The part of the source that the diagnostic is about: that of the first
primary label, or else that of the first label. -/
def primarySpan (d : Diagnostic) : Option Span :=
  ((d.labels.find? (·.style == .primary)).or d.labels.head?).map (·.span)

def errorCount (ds : List Diagnostic) : Nat := ds.countP isError

def warningCount (ds : List Diagnostic) : Nat := ds.countP isWarning

end Diagnostic

end Lsl
