/- # What a command leaves behind

The exit status of a command and the texts on its two outputs, and the causes
for which a command gives up.

Key definitions: `Outcome`, `CommandError`, `CommandError.message`.
-/
import Lsl.Cli.Options
import Lsl.Generate.Error
import Lsl.InternalError
import Lsl.Library.Catalog
import Lsl.Text.Style

namespace Lsl

/-- The exit status and the texts on the two outputs. -/
structure Outcome where
  status : Nat := 0
  out : String := ""
  err : String := ""
deriving DecidableEq, Repr, Inhabited

namespace Outcome

/-- One part of a command after another; the first failure decides the status. -/
def andThen (a b : Outcome) : Outcome :=
  { status := if a.status = 0 then b.status else a.status
    out := a.out ++ b.out
    err := a.err ++ b.err }

/-- Lines on the standard output. -/
def print (lines : List String) : Outcome := { out := String.join (lines.map (· ++ "\n")) }

/-- A line on the error output. -/
def tell (line : String) : Outcome := { err := line ++ "\n" }

/-- A line on the error output of a command that fails. -/
def fail (line : String) : Outcome := { status := 1, err := line ++ "\n" }

end Outcome

/-- Why a file cannot be read or written. -/
inductive FileError where
  | notFound
  | notDirectory
  | isDirectory
  | nameTooLong
  | other (reason : String)
deriving DecidableEq, Repr, Inhabited

def FileError.message : FileError → String
  | notFound => "No such file or directory (os error 2)"
  | notDirectory => "Not a directory (os error 20)"
  | isDirectory => "Is a directory (os error 21)"
  | nameTooLong => "File name too long (os error 36)"
  | other reason => reason

/-- Why a command gives up. -/
inductive CommandError where
  | options (cause : OptionError)
  | unknownCommand (name : String)
  | noInput (usage : String)
  | reading (path : String) (cause : FileError)
  | creating (path : String) (cause : FileError)
  | invalidTree (path detail : String)
  | library (path : String) (cause : CatalogError)
  | check (cause : InternalError)
  | generate (cause : GenerateError)
  | unknownCode (code : String)
deriving DecidableEq, Repr, Inhabited

namespace CommandError

/-- The line that tells the error. -/
def message (styled : Bool) (e : CommandError) : String :=
  let error (text : String) := (Style.strong .red).paint styled "error" ++ ": " ++ text
  let file (path : String) := Style.underline.paint styled path
  match e with
  | options cause => error cause.message
  | unknownCommand name => error ("unknown command '" ++ name ++ "'")
  | noInput usage => "Usage: " ++ usage
  | reading path cause => error ("reading " ++ file path ++ ": " ++ cause.message)
  | creating path cause => error ("creating " ++ file path ++ ": " ++ cause.message)
  | invalidTree path detail => error (file path ++ " is not a valid syntax tree: " ++ detail)
  | library path cause => error (file path ++ ": " ++ cause.message)
  | check cause => error cause.message
  | generate cause => error cause.message
  | unknownCode code => error ("unknown code '" ++ code ++ "'")

def outcome (styled : Bool) (e : CommandError) : Outcome := .fail (e.message styled)

end CommandError

end Lsl
