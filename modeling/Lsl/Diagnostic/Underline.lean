/- # Underlines

The labels of a diagnostic, gathered by the source line they start on, and the
line of carets and dashes under such a line. A label covers the columns from its
start to its end, or to the end of the line if it ends on another one, and at
least one column. Secondary labels are drawn first, so carets win where labels
overlap.

Key definitions: `LineLabel`, `LabelledLine`, `labelledLines`, `underline?`.
-/
import Lsl.Diagnostic.Basic
import Lsl.LineMap
import Lsl.Text.Blank

namespace Lsl

/-- A label as it stands under its line: from column `start` up to but not
including column `stop`. -/
structure LineLabel where
  start : Nat
  stop : Nat
  style : LabelStyle
  message : Option String := none
deriving DecidableEq, Repr, Inhabited

namespace LineLabel

/-- The character that the label is drawn with. -/
def mark (a : LineLabel) : Char :=
  match a.style with
  | .primary => '^'
  | .secondary => '-'

def isSecondary (a : LineLabel) : Bool := a.style == .secondary

/-- Whether a label may stand before another: primary labels come first, then
those that start further left. -/
def notAfter (a b : LineLabel) : Bool :=
  if a.isSecondary = b.isSecondary then a.start ≤ b.start else b.isSecondary

/-- The labels in the order their messages are told. -/
def sort (labels : List LineLabel) : List LineLabel := labels.mergeSort notAfter

end LineLabel

/-- A source line and the labels that start on it. -/
structure LabelledLine where
  number : Nat
  labels : List LineLabel
deriving DecidableEq, Repr, Inhabited

/-! ### Gathering labels -/

/-- The line that a label starts on, and the columns it covers there. -/
def SourceLabel.onLine (l : SourceLabel) (map : LineMap) : Nat × LineLabel :=
  let (line, start) := map.lineCol l.span.start
  let (lastLine, stop) := map.lineCol l.span.stop
  let lineEnd := ((map.lineText line).getD "").utf8ByteSize + 1
  let stop := if lastLine = line then stop else lineEnd
  (line, { start, stop := max stop (start + 1), style := l.style, message := l.text? })

/-- Adds a label to its line; lines stay in the order of the source. -/
def insertLabel (line : Nat) (a : LineLabel) : List LabelledLine → List LabelledLine
  | [] => [⟨line, [a]⟩]
  | first :: rest =>
    if line < first.number then ⟨line, [a]⟩ :: first :: rest
    else if line = first.number then { first with labels := first.labels ++ [a] } :: rest
    else first :: insertLabel line a rest

/-- The lines that labels start on, in the order of the source. -/
def labelledLines (map : LineMap) (labels : List SourceLabel) : List LabelledLine :=
  labels.foldl
    (fun lines l =>
      let (line, a) := l.onLine map
      insertLabel line a lines)
    []

/-! ### Drawing -/

/-- Draws a label over what is there; the first cell is column 1. There is no such
row if the columns of the label do not lie in it. -/
def drawOver? (cells : List Char) (a : LineLabel) : Option (List Char) :=
  if 1 ≤ a.start ∧ a.start ≤ a.stop ∧ a.stop - 1 ≤ cells.length then
    some (cells.take (a.start - 1) ++ List.replicate (a.stop - a.start) a.mark
      ++ cells.drop (a.stop - 1))
  else none

/-- The width that all labels fit into. -/
def underlineWidth (labels : List LineLabel) : Nat := (labels.map (·.stop)).max?.getD 1

/-- The line under a source line, with blanks up to the end of the last label. -/
def underlineCells? (labels : List LineLabel) : Option (List Char) :=
  (LineLabel.sort labels).reverse.foldlM drawOver? (List.replicate (underlineWidth labels) ' ')

/-- The line under a source line. -/
def underline? (labels : List LineLabel) : Option (List Char) :=
  (underlineCells? labels).map (Text.dropEnd (· == ' '))

end Lsl
