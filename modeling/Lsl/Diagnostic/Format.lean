/- # Diagnostics for a reader

A diagnostic as lines of text: a heading, the place in the source, the source
lines with their labels underlined, and the remarks. Without the text of the
source, places are shown as byte offsets. A diagnostic with a label that cannot
be drawn is not shown.

Key definitions: `Formatter`, `Formatter.format?`, `Formatter.formatAll`.
-/
import Lsl.Diagnostic.Underline
import Lsl.Text.Style

namespace Lsl

/-- What is needed to show diagnostics. -/
structure Formatter where
  /-- The text of the source; empty if it is not at hand. -/
  source : String := ""
  file : String := "<script>"
  styled : Bool := false
deriving Repr, Inhabited

namespace LabelStyle

def textStyle : LabelStyle → Style
  | primary => .strong .red
  | secondary => .colored .blue

end LabelStyle

def Severity.textStyle : Severity → Style
  | error => .strong .red
  | warning => .strong .yellow
  | note => .strong .blue

/-- A number of blanks. -/
def blanks (n : Nat) : String := String.ofList (List.replicate n ' ')

/-- A text with blanks in front of it, up to a width. -/
def padLeft (width : Nat) (text : String) : String := blanks (width - text.length) ++ text

namespace Formatter

variable (f : Formatter)

def paint (style : Style) (text : String) : String := style.paint f.styled text

def lineMap : LineMap := .ofSource f.source

/-! ### Heading and remarks -/

def heading (d : Diagnostic) : String :=
  let code := match d.code with
    | some code => "[" ++ f.paint .bold code ++ "]"
    | none => ""
  f.paint d.severity.textStyle d.severity.name ++ code ++ ": " ++ f.paint .bold d.message

def remark (kind text : String) : String :=
  "   " ++ f.paint (.colored .cyan) "=" ++ " " ++ f.paint (.strong .cyan) kind ++ ": " ++ text

def remarks (d : Diagnostic) : List String :=
  d.notes.map (f.remark "note") ++ d.help.toList.map (f.remark "help")

def arrow : String := f.paint (.colored .blue) "-->"

/-! ### Places as offsets -/

/-- The place of a diagnostic and of its further labels, in byte offsets. -/
def offsets (d : Diagnostic) (primary : Span) : List String :=
  let place := "  " ++ f.arrow ++ " " ++ f.file ++ " @ " ++ primary.start.repr ++ ".."
    ++ primary.stop.repr
  let related := (d.labels.filter (·.span != primary)).filterMap fun l =>
    l.text?.map fun text =>
      "   " ++ f.paint (.colored .blue) "-" ++ " " ++ l.span.start.repr ++ ".."
        ++ l.span.stop.repr ++ ": " ++ text
  place :: related

/-! ### Places in the source -/

/-- The bar between line numbers and text, with a margin of this width before it. -/
def bar (margin : Nat) : String := blanks margin ++ " " ++ f.paint (.colored .blue) "|"

/-- Carets and dashes in the styles of the labels they belong to. -/
def paintUnderline (cells : List Char) : String :=
  String.join <| (cells.splitBy (· == ·)).map fun run =>
    let text := String.ofList run
    match run.head? with
    | some '^' => f.paint LabelStyle.primary.textStyle text
    | some '-' => f.paint LabelStyle.secondary.textStyle text
    | _ => text

/-- A message on a line of its own, below the column of its label. -/
def messageLine (margin : Nat) (a : LineLabel) (text : String) : String :=
  f.bar margin ++ " " ++ blanks (a.start - 1) ++ f.paint a.style.textStyle "|" ++ " "
    ++ f.paint a.style.textStyle text

/-- The underline with its messages: a single one stands behind the underline,
several stand below it, the rightmost first. -/
def labelLines? (margin : Nat) (labels : List LineLabel) : Option (List String) :=
  (underline? labels).map fun cells =>
    let drawn := f.bar margin ++ " " ++ f.paintUnderline cells
    let messages := (LineLabel.sort labels).filterMap fun a => a.message.map fun m => (a, m)
    match messages with
    | [] => [drawn]
    | [(a, text)] => [drawn ++ " " ++ f.paint a.style.textStyle text]
    | many => drawn :: many.reverse.map fun (a, text) => f.messageLine margin a text

/-- A source line and what is drawn under it. -/
def labelledLine? (margin : Nat) (line : LabelledLine) : Option (List String) :=
  let number := f.paint (.strong .blue) (padLeft margin line.number.repr)
  let text := (f.lineMap.lineText line.number).getD ""
  (f.labelLines? margin line.labels).map fun under =>
    (number ++ " " ++ f.paint (.colored .blue) "|" ++ " " ++ text) :: under

/-- Source lines behind the line `previous`; dots stand where lines are left out. -/
def labelledLinesAfter? (margin previous : Nat) : List LabelledLine → Option (List String)
  | [] => some []
  | line :: rest => do
    let gap := if previous + 1 < line.number then [f.paint (.colored .blue) "..."] else []
    let shown ← f.labelledLine? margin line
    return gap ++ shown ++ (← labelledLinesAfter? margin line.number rest)

/-- All source lines that carry labels. -/
def excerpt? (margin : Nat) : List LabelledLine → Option (List String)
  | [] => some []
  | line :: rest => do
    let shown ← f.labelledLine? margin line
    return shown ++ (← f.labelledLinesAfter? margin line.number rest)

/-- The width of the column for line numbers. -/
def marginOf (lines : List LabelledLine) : Nat :=
  let last := ((lines.getLast?).map (·.number)).getD 1
  max last.repr.length 2 + 1

/-- The place of a diagnostic with the source lines that belong to it. -/
def places? (d : Diagnostic) (primary : Span) : Option (List String) :=
  let (line, column) := f.lineMap.lineCol primary.start
  let lines := labelledLines f.lineMap d.labels
  let margin := marginOf lines
  let place := "  " ++ f.arrow ++ " " ++ f.file ++ ":" ++ line.repr ++ ":" ++ column.repr
  let closing := if d.notes.isEmpty && d.help.isNone then [] else [f.bar margin]
  (f.excerpt? margin lines).map fun shown => place :: f.bar margin :: (shown ++ closing)

/-! ### Whole diagnostics -/

/-- The lines that tell where a diagnostic belongs. -/
def body? (d : Diagnostic) : Option (List String) :=
  match d.primarySpan with
  | none => some []
  | some primary =>
    if f.source.isEmpty then some (f.offsets d primary) else f.places? d primary

/-- The lines of a diagnostic. -/
def lines? (d : Diagnostic) : Option (List String) :=
  (f.body? d).map fun body => f.heading d :: body ++ f.remarks d

def format? (d : Diagnostic) : Option String :=
  (f.lines? d).map fun lines => String.join (lines.map (· ++ "\n"))

/-- Diagnostics with a blank line between each two. -/
def formatAll (ds : List Diagnostic) : String := "\n".intercalate (ds.filterMap f.format?)

end Formatter

end Lsl
