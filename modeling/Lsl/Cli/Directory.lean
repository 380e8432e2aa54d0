/- # A directory in memory

Files by name, with the operations that commands need. The directory stands
alone: it has no directories inside, and no file can be reached outside of it.
Paths are followed from left to right, and the first step that cannot be taken
decides the error.

Key definitions: `Directory`, `Directory.follow`, `Directory.read`,
`Directory.write`, `Directory.files`.
-/
import Lsl.Cli.Command
import Lsl.Cli.Path

namespace Lsl

/-- The files of a directory; of several entries of a name the first counts. -/
structure Directory where
  entries : List (String × String) := []
deriving DecidableEq, Repr, Inhabited

namespace Directory

/-- Where a path leads: to the directory itself, to a directory outside of it,
or to one of its files. -/
inductive Place where
  | here
  | outside
  | file (text : String)
deriving DecidableEq, Repr, Inhabited

/-- The place with this name in another place. -/
def enter (d : Directory) (place : Place) (name : String) : Except FileError Place :=
  match place with
  | .file _ => .error .notDirectory
  | place =>
    if name = "." then .ok place
    else if name = ".." then .ok .outside
    else if Path.nameLimit < name.utf8ByteSize then .error .nameTooLong
    else
      match place, d.entries.lookup name with
      | .here, some text => .ok (.file text)
      | _, _ => .error .notFound

/-- The place to which steps lead. -/
def follow (d : Directory) (place : Place) : List String → Except FileError Place
  | [] => .ok place
  | step :: rest => do d.follow (← d.enter place step) rest

/-- The place where a path starts. -/
def start (path : Path) : Place := if path.fromRoot then .outside else .here

/-- The text of the file to which a path leads. -/
def readAt (d : Directory) (path : Path) : Except FileError String := do
  match ← d.follow (start path) path.steps with
  | .file text => if path.toDirectory then .error .notDirectory else return text
  | _ => .error .isDirectory

/-- The name under which a path creates a file. The steps before the last have
to lead to the directory, and the last has to be a name that a file can have. -/
def nameFor (d : Directory) (path : Path) : Except FileError String := do
  match path.steps.getLast? with
  | none => .error .isDirectory
  | some name =>
    match ← d.follow (start path) path.steps.dropLast with
    | .file _ => .error .notDirectory
    | place =>
      if path.toDirectory || Path.isDots name then .error .isDirectory
      else if Path.nameLimit < name.utf8ByteSize then .error .nameTooLong
      else if place = .here then return name
      else .error .notFound

def read (d : Directory) (path : String) : Except FileError String := do
  d.readAt (← Path.ofText path)

def write (d : Directory) (path text : String) : Except FileError Directory := do
  let name ← d.nameFor (← Path.ofText path)
  return ⟨(name, text) :: d.entries.filter (·.1 != name)⟩

/-- A step that changes the directory unless it fails. -/
def update (step : Directory → Except FileError Directory) :
    StateM Directory (Except FileError Unit) :=
  fun d => match step d with
    | .ok d' => (.ok (), d')
    | .error e => (.error e, d)

/-- The files of a directory, for commands. -/
def files : Cli.Files (StateM Directory) where
  read path := fun d => (d.read path, d)
  create path := update (·.write path "")
  write path text := update (·.write path text)

/-- Runs the program in a directory. -/
def run (d : Directory) (styled : Bool) (args : List String) : Outcome × Directory :=
  Cli.run files styled args d

end Directory

end Lsl
