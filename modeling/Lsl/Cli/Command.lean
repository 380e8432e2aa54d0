/- # Commands

What the commands do, for any way to reach files. A command reads the tree, the
source and the library, in this order, and the first failure is the one that is
told. The output file of `compile` is created before code is generated.

Key definitions: `Cli.Files`, `Cli.check`, `Cli.compile`, `Cli.explain`,
`Cli.run`.
-/
import Lsl.Cli.Help
import Lsl.Cli.Outcome
import Lsl.Diagnostic.Format
import Lsl.Diagnostic.OfNotice
import Lsl.Diagnostic.Report
import Lsl.Generate.Script
import Lsl.Library.Json
import Lsl.Library.Standard
import Lsl.Script.Json

namespace Lsl

namespace Cli

/-- The ways to reach files. -/
structure Files (m : Type → Type) where
  read : String → m (Except FileError String)
  /-- Makes an empty file, in place of the one that is there. -/
  create : String → m (Except FileError Unit)
  write : String → String → m (Except FileError Unit)

/-- A script that has been checked, and its source if that is at hand. -/
structure LoadedScript where
  script : CheckedScript
  source : Option String := none

namespace LoadedScript

def diagnostics (s : LoadedScript) : List Diagnostic := s.script.notices.map (·.toDiagnostic)

def errorCount (s : LoadedScript) : Nat := Diagnostic.errorCount s.diagnostics

def warningCount (s : LoadedScript) : Nat := s.diagnostics.length - s.errorCount

end LoadedScript

/-! ### Reading -/

variable {m : Type → Type} [Monad m]

def readFile (files : Files m) (path : String) : ExceptT CommandError m String := do
  match ← files.read path with
  | .ok text => return text
  | .error cause => throw (.reading path cause)

/-- The standard catalog with the entries of a file, if one is given. -/
def loadLibrary (files : Files m) : Option String → ExceptT CommandError m Catalog
  | none => return .standard
  | some path => do
    match Catalog.ofText (← readFile files path) with
    | .ok extra => return Catalog.standard.merge extra
    | .error cause => throw (.library path cause)

def readOption (files : Files m) : Option String → ExceptT CommandError m (Option String)
  | none => return none
  | some path => return some (← readFile files path)

/-- Reads and checks a script. -/
def loadScript (files : Files m) (path : String) (o : Options) :
    ExceptT CommandError m LoadedScript := do
  match Script.ofText (← readFile files path) with
  | .error detail => throw (.invalidTree path detail)
  | .ok script =>
    let source ← readOption files o.source
    let library ← loadLibrary files o.library
    match script.check library {} with
    | .ok checked => return { script := checked, source }
    | .error cause => throw (.check cause)

/-! ### Reporting -/

/-- Readers get diagnostics on the error output, programs get a report on the
standard output. -/
def showDiagnostics (styled : Bool) (s : LoadedScript) (path : String) :
    ReportFormat → Outcome
  | .human =>
    let formatter : Formatter := { source := s.source.getD "", file := path, styled }
    { err := formatter.formatAll s.diagnostics }
  | .json =>
    let report : Report := { file := path, source := s.source, diagnostics := s.diagnostics }
    .print [report.text]

/-- A number of things, with the plural where it is due. -/
def counted (n : Nat) (thing : String) : String :=
  n.repr ++ " " ++ thing ++ (if n = 1 then "" else "s")

def banner (styled : Bool) (style : Style) (text : String) : String :=
  let rule := Style.dimmed.paint styled "==="
  rule ++ " " ++ style.paint styled text ++ " " ++ rule

def bannerOk (styled : Bool) (phase : String) : String :=
  banner styled (.strong .green) (phase ++ " OK")

def bannerFail (styled : Bool) (phase : String) (errors : Nat) : String :=
  banner styled (.strong .red) (phase ++ " FAILED: " ++ counted errors "error")

/-- The result of a check for a reader. -/
def checkSummary (styled : Bool) (s : LoadedScript) : Outcome :=
  if s.errorCount > 0 then .tell ("\n" ++ bannerFail styled "Check" s.errorCount)
  else if s.warningCount > 0 then
    .tell ("\n" ++ bannerOk styled "Check" ++ " ("
      ++ (Style.colored .yellow).paint styled (counted s.warningCount "warning") ++ ")")
  else .print [bannerOk styled "Check"]

/-! ### Commands -/

def check (files : Files m) (styled : Bool) (path : String) (o : Options) : m Outcome := do
  match ← (loadScript files path o).run with
  | .error e => return e.outcome styled
  | .ok s =>
    let summary := if o.format = .human then checkSummary styled s else {}
    let status : Outcome := { status := if s.errorCount > 0 then 1 else 0 }
    return (showDiagnostics styled s path o.format).andThen (summary.andThen status)

/-- Generates code into a file. -/
def compileToFile (files : Files m) (s : CheckedScript) (settings : Settings) (path : String) :
    ExceptT CommandError m Unit := do
  match ← files.create path with
  | .error cause => throw (.creating path cause)
  | .ok () =>
    let write (text : String) : m (Except String Unit) :=
      return (← files.write path text).mapError (·.message)
    match ← (s.writeTo settings write : m (Generate Unit)) with
    | .ok () => return ()
    | .error cause => throw (.generate cause)

/-- Generates code for a script without errors. -/
def compileChecked (files : Files m) (styled : Bool) (s : CheckedScript) (format : ReportFormat)
    (o : Options) : m Outcome := do
  match o.output with
  | none =>
    match s.generate o.settings with
    | .ok text => return { out := text }
    | .error cause => return (CommandError.generate cause).outcome styled
  | some path =>
    match ← (compileToFile files s o.settings path).run with
    | .error e => return e.outcome styled
    | .ok () =>
      if format = .human then
        return .tell (bannerOk styled "Compile" ++ " " ++ Style.underline.paint styled path)
      else return {}

/-- Checks a script and generates code for it if it has no errors. Where the
code goes to the standard output, the diagnostics are for a reader. -/
def compile (files : Files m) (styled : Bool) (path : String) (o : Options) :
    m Outcome := do
  match ← (loadScript files path o).run with
  | .error e => return e.outcome styled
  | .ok s =>
    let format := if o.output.isNone then .human else o.format
    let shown := showDiagnostics styled s path format
    if s.script.hasErrors then
      let summary : Outcome :=
        if format = .human then .tell ("\n" ++ bannerFail styled "Compile" s.errorCount) else {}
      return shown.andThen (summary.andThen { status := 1 })
    else return shown.andThen (← compileChecked files styled s.script format o)

/-- A code with its title and group, or the list of all codes. -/
def explain (styled : Bool) : Option String → Outcome
  | none =>
    .print <| CodeInfo.all.map fun info =>
      let category := info.category.name
      Style.bold.paint styled info.code ++ "  " ++ category ++ blanks (14 - category.length) ++ " "
        ++ info.title
  | some code =>
    let code := code.toUpper
    match CodeInfo.find? code with
    | none => (CommandError.unknownCode code).outcome styled
    | some info =>
      let severity : Severity := if code.startsWith "W" then .warning else .error
      .print [severity.textStyle.paint styled severity.name ++ "["
          ++ Style.bold.paint styled info.code ++ "]: " ++ info.title,
        "  category: " ++ info.category.name]

/-- Runs what needs an input, or shows how it is called. -/
def withInput (styled : Bool) (o : Options) (usage : String) (run : String → m Outcome) :
    m Outcome :=
  match o.input with
  | some path => run path
  | none => return (CommandError.noInput usage).outcome styled

/-- Runs a command with its options. -/
def dispatch (files : Files m) (styled : Bool) (command : String) (o : Options) : m Outcome :=
  match command with
  | "check" =>
    if o.help then return .print (Help.check styled)
    else withInput styled o "lslc check <tree.json>" fun path => check files styled path o
  | "compile" =>
    if o.help then return .print (Help.compile styled)
    else withInput styled o "lslc compile <tree.json> [-o out.cs]" fun path =>
      compile files styled path o
  | "explain" =>
    if o.help then return .print (Help.explain styled)
    else return explain styled o.input
  | "help" | "--help" | "-h" => return .print (Help.usage styled)
  | "version" | "--version" | "-V" => return .print ["lslc " ++ programVersion]
  | name =>
    return ((CommandError.unknownCommand name).outcome styled).andThen (.print (Help.usage styled))

/-- Runs the program with the arguments behind its name. Options are looked at
before the command. -/
def run (files : Files m) (styled : Bool) : List String → m Outcome
  | [] => return .print (Help.usage styled)
  | command :: args =>
    match Options.parse args with
    | .error cause => return (CommandError.options cause).outcome styled
    | .ok o => dispatch files styled command o

end Cli

end Lsl
