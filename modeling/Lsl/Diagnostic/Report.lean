/- # Diagnostics for programs

The report on a script as JSON. What is missing is left out: the code and its
group, empty lists, and lines and columns if the source is not at hand.

Key definitions: `Report`, `Report.toJson`, `Report.text`.
-/
import Lsl.Diagnostic.Basic
import Lsl.Diagnostic.Code
import Lsl.Json.Printer
import Lsl.LineMap

namespace Lsl

/-- The diagnostics of a script and where it comes from. -/
structure Report where
  file : String
  source : Option String := none
  diagnostics : List Diagnostic
deriving Repr, Inhabited

namespace Report

/-- The version of the format. -/
def version : Nat := 1

/-- A field that is left out if there is no value for it. -/
def fieldOf (name : String) (value : Option Json) : List (String × Json) :=
  value.toList.map (name, ·)

/-- A list that is left out if it is empty. -/
def listField (name : String) (items : List Json) : List (String × Json) :=
  if items.isEmpty then [] else [(name, .arr items)]

/-- A span, with line and column if the lines are known. -/
def location (map : Option LineMap) (span : Span) : Json :=
  .obj ([("start", .nat span.start), ("end", .nat span.stop)]
    ++ fieldOf "line" (map.map fun m =>
      let (line, column) := m.lineCol span.start
      .obj [("line", .nat line), ("column", .nat column)]))

def label (map : Option LineMap) (l : SourceLabel) : Json :=
  .obj ([("style", .str l.style.name), ("location", location map l.span)]
    ++ fieldOf "message" (l.text?.map .str))

def diagnostic (map : Option LineMap) (d : Diagnostic) : Json :=
  .obj ([("severity", .str d.severity.name)]
    ++ fieldOf "code" (d.code.map .str)
    ++ fieldOf "category" ((d.code.bind CodeInfo.find?).map (.str ·.category.name))
    ++ [("message", .str d.message)]
    ++ fieldOf "location" (d.primarySpan.map (location map))
    ++ listField "labels" (d.labels.map (label map))
    ++ listField "notes" (d.notes.map .str)
    ++ fieldOf "help" (d.help.map .str))

def toJson (r : Report) : Json :=
  let map := r.source.map LineMap.ofSource
  let errors := Diagnostic.errorCount r.diagnostics
  .obj [("version", .nat version), ("file", .str r.file), ("success", .bool (errors == 0)),
    ("diagnostics", .arr (r.diagnostics.map (diagnostic map))), ("error_count", .nat errors),
    ("warning_count", .nat (Diagnostic.warningCount r.diagnostics))]

/-- The report as a text. -/
def text (r : Report) : String := r.toJson.pretty

end Report

end Lsl
