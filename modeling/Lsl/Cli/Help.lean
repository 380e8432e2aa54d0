/- # Help texts

The pages that explain the program and its commands.

Key definitions: `Help.usage`, `Help.check`, `Help.compile`, `Help.explain`.
-/
import Lsl.Text.Style

namespace Lsl

/-- The version of the program. -/
def programVersion : String := "0.1.0"

namespace Help

variable (styled : Bool)

def header (text : String) : String := (Style.strong .yellow).paint styled text

def command (text : String) : String := (Style.colored .green).paint styled text

def arg (text : String) : String := (Style.colored .cyan).paint styled text

/-- The line that shows how a command is called. -/
def callLine (words : List String) : String :=
  (Style.colored .yellow).paint styled "Usage" ++ ": " ++ " ".intercalate words

/-- An option with its value, a gap, and what it does. -/
def valueLine (option value gap text : String) : String :=
  "  " ++ arg styled option ++ " " ++ arg styled value ++ gap ++ text

/-- The overview of all commands. -/
def usage : List String :=
  let title := Style.bold.paint styled "lslc" ++ " " ++ Style.dimmed.paint styled programVersion
  let command := command styled
  let arg := arg styled
  let header := header styled
  [ title ++ " - LSL validator and C# code generator",
    "",
    header "Usage" ++ ": " ++ command "lslc" ++ " " ++ arg "<command>" ++ " " ++ arg "[args]",
    "",
    header "Commands:",
    "  " ++ command "check" ++ " " ++ arg "<tree.json>"
      ++ "     Validate a parsed script and report diagnostics",
    "  " ++ command "compile" ++ " " ++ arg "<tree.json>" ++ "   Validate and generate C#",
    "  " ++ command "explain" ++ " " ++ arg "<code>" ++ "      Explain a diagnostic code",
    "  " ++ command "help" ++ "                  Show this help",
    "  " ++ command "version" ++ "               Show version",
    "",
    header "Input:",
    "  A JSON-serialized syntax tree produced by an LSL front end.",
    "",
    header "Environment:",
    "  " ++ arg "RUST_LOG" ++ "   Log filter, e.g. " ++ arg "lsl_validate=debug",
    "  " ++ arg "NO_COLOR" ++ "   Disable colored output" ]

def check : List String :=
  [ header styled "Check",
    "",
    "Validate a script and print its diagnostics.",
    "Exits with status 1 when any error is reported.",
    "",
    callLine styled [command styled "lslc", command styled "check", arg styled "<tree.json>",
      arg styled "[options]"],
    "",
    header styled "Options:",
    valueLine styled "--library" "<file>" "   " "Add library functions, constants and events",
    valueLine styled "--format" "<fmt>" "      " "Output format: human (default) or json",
    valueLine styled "--source" "<file>" "    " "Script text, for source lines in diagnostics" ]

def compile : List String :=
  [ header styled "Compile",
    "",
    "Validate a script and write the generated C# code.",
    "Nothing is generated when validation reports errors.",
    "",
    callLine styled [command styled "lslc", command styled "compile", arg styled "<tree.json>",
      arg styled "[options]"],
    "",
    header styled "Options:",
    valueLine styled "-o" "<file>" "          " "Write to a file instead of stdout",
    valueLine styled "--library" "<file>" "   " "Add library functions, constants and events",
    valueLine styled "--class" "<name>" "     " "Wrap the output in a class",
    valueLine styled "--namespace" "<ns>" "   " "Namespace for the class",
    "  " ++ arg styled "--server" ++ "              Start from the OpenSim server preset",
    "  " ++ arg styled "--coop" ++ "                Insert co-operative termination checks",
    valueLine styled "--source" "<file>" "    " "Script text, for source lines in diagnostics" ]

def explain : List String :=
  [ header styled "Explain",
    "",
    "Show the title and category of a diagnostic code.",
    "Without a code, lists every known code.",
    "",
    callLine styled [command styled "lslc", command styled "explain", arg styled "[code]"] ]

end Help

end Lsl
