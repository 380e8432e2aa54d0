/- # The program

Runs a command on the files of the system and prints what it leaves behind.
`NO_COLOR` switches styles off, `FORCE_COLOR` switches them on, and without
either they are on where the output is a terminal.

Key definitions: `main`.
-/
import Lsl.Cli.Command

namespace Lsl

/-- The cause of a failure of the system. Some operations give the negative of
the number of the failure. -/
def FileError.ofSystem (e : IO.Error) : FileError :=
  match e with
  | .noFileOrDirectory .. => .notFound
  | .inappropriateType _ code _ =>
    if code = 21 ∨ code = -21 then .isDirectory else .notDirectory
  | .invalidArgument _ code _ =>
    if code = 36 ∨ code = -36 then .nameTooLong else .other e.toString
  | _ => .other e.toString

/-- A file operation, with its failure as a value. -/
def tryFile (step : IO α) : IO (Except FileError α) := do
  try
    return .ok (← step)
  catch e =>
    return .error (.ofSystem e)

/-- The files of the system. -/
def systemFiles : Cli.Files IO where
  read path := tryFile (IO.FS.readFile path)
  create path := tryFile (IO.FS.writeFile path "")
  write path text := tryFile (IO.FS.writeFile path text)

/-- Whether the outputs show styles. -/
def wantsStyles : IO Bool := do
  if (← IO.getEnv "NO_COLOR").isSome then return false
  else if (← IO.getEnv "FORCE_COLOR").isSome then return true
  else (← IO.getStdout).isTty

end Lsl

def main (args : List String) : IO UInt32 := do
  let outcome ← Lsl.Cli.run Lsl.systemFiles (← Lsl.wantsStyles) args
  IO.print outcome.out
  IO.eprint outcome.err
  return outcome.status.toUInt32
