/- # Paths of files

A path names the steps from one directory to the next, with slashes between
them. Several slashes count as one, a slash in front starts at the root, and a
slash at the end says that a directory is meant. `.` stays where it is and `..`
goes up.

Key definitions: `Path`, `Path.ofText`.
-/
import Lsl.Cli.Outcome

namespace Lsl

/-- The steps of a path, and what its outer slashes say. -/
structure Path where
  fromRoot : Bool := false
  steps : List String
  toDirectory : Bool := false
deriving DecidableEq, Repr, Inhabited

namespace Path

/-- The most bytes that a path may have. -/
def sizeLimit : Nat := 4095

/-- The most bytes that a name in a directory may have. -/
def nameLimit : Nat := 255

/-- The pieces of a text between its slashes. -/
def splitSlashes : List Char → List (List Char)
  | [] => [[]]
  | c :: rest =>
    if c = '/' then [] :: splitSlashes rest
    else
      match splitSlashes rest with
      | [] => [[c]]
      | piece :: pieces => (c :: piece) :: pieces

/-- The path that a text writes; the empty text leads nowhere. -/
def ofText (text : String) : Except FileError Path :=
  let chars := text.toList
  if chars.isEmpty then .error .notFound
  else if sizeLimit < text.utf8ByteSize then .error .nameTooLong
  else .ok {
    fromRoot := chars.head? == some '/'
    steps := ((splitSlashes chars).filter (!·.isEmpty)).map String.ofList
    toDirectory := chars.getLast? == some '/' }

/-- A step that leads to a directory wherever there is one to start from. -/
def isDots (step : String) : Bool := step == "." || step == ".."

end Path

end Lsl
