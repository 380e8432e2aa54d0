/- # Command-line options

The options that the commands share. A later option overrides an earlier one;
the one argument that is no option is the input.

Key definitions: `Options`, `Options.parse`, `Options.settings`.
-/
import Lsl.Generate.Settings

namespace Lsl

/-- For whom diagnostics are written. -/
inductive ReportFormat where
  | human
  | json
deriving DecidableEq, Repr, Inhabited

structure Options where
  input : Option String := none
  library : Option String := none
  source : Option String := none
  output : Option String := none
  className : Option String := none
  nameSpace : Option String := none
  coop : Bool := false
  server : Bool := false
  format : ReportFormat := .human
  help : Bool := false
deriving DecidableEq, Repr, Inhabited

/-- Why a command line is not understood. -/
inductive OptionError where
  | missingValue (option : String)
  | unknownFormat (name : String)
  | unknownOption (option : String)
  | unexpectedArgument (arg : String)
deriving DecidableEq, Repr, Inhabited

def OptionError.message : OptionError → String
  | missingValue option => option ++ " requires a value"
  | unknownFormat name => "unknown format '" ++ name ++ "'"
  | unknownOption option => "unknown option '" ++ option ++ "'"
  | unexpectedArgument arg => "unexpected argument '" ++ arg ++ "'"

namespace Options

/-- The effect of an option that stands alone, if it is one. -/
def flag? (o : Options) : String → Option Options
  | "--json" => some { o with format := .json }
  | "--coop" => some { o with coop := true }
  | "--server" => some { o with server := true }
  | "-h" | "--help" => some { o with help := true }
  | _ => none

def withFormat (o : Options) : String → Except OptionError Options
  | "json" => .ok { o with format := .json }
  | "human" => .ok { o with format := .human }
  | name => .error (.unknownFormat name)

/-- The effect of an option that takes a value, if it is one. -/
def valued? (o : Options) : String → Option (String → Except OptionError Options)
  | "--library" => some fun v => .ok { o with library := some v }
  | "--source" => some fun v => .ok { o with source := some v }
  | "-o" | "--output" => some fun v => .ok { o with output := some v }
  | "--class" => some fun v => .ok { o with className := some v }
  | "--namespace" => some fun v => .ok { o with nameSpace := some v }
  | "--format" => some o.withFormat
  | _ => none

/-- An argument that is no option known by name. -/
def positional (o : Options) (arg : String) : Except OptionError Options :=
  if arg.startsWith "-" then .error (.unknownOption arg)
  else if o.input.isSome then .error (.unexpectedArgument arg)
  else .ok { o with input := some arg }

/-- Takes up arguments from the first to the last. -/
def takeUp (o : Options) : List String → Except OptionError Options
  | [] => .ok o
  | [arg] =>
    match o.flag? arg, o.valued? arg with
    | some o, _ => .ok o
    | none, some _ => .error (.missingValue arg)
    | none, none => o.positional arg
  | arg :: next :: rest =>
    match o.flag? arg, o.valued? arg with
    | some o, _ => takeUp o (next :: rest)
    | none, some set => do takeUp (← set next) rest
    | none, none => do takeUp (← o.positional arg) (next :: rest)

def parse (args : List String) : Except OptionError Options := takeUp {} args

/-- The output settings that the options ask for. -/
def settings (o : Options) : Settings :=
  let s := if o.server then Settings.server else {}
  let s := (o.className.map s.withClass).getD s
  let s := (o.nameSpace.map s.withNamespace).getD s
  if o.coop then s.withCoopTermination else s

end Options

end Lsl
