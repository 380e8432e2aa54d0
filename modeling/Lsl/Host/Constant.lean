/- # Library constants as host code

A constant that is marked for it is emitted as its value. The value is written
as in a script, so a list has to be taken apart into its elements: it is cut at
the commas that stand outside quotes and angle brackets.

Key definitions: `Constant.splitTopLevel`, `Constant.element`,
`LibraryConstant.expanded?`.
-/
import Lsl.Host.Code
import Lsl.Host.Literal
import Lsl.Library.Signature
import Lsl.Text.Blank

namespace Lsl

namespace Constant

/-- What surrounds a place in a list: how many angle brackets are open, and
whether it is in a string or behind a backslash in one. -/
structure Surrounding where
  depth : Nat := 0
  inString : Bool := false
  escaped : Bool := false
deriving DecidableEq, Repr, Inhabited

namespace Surrounding

/-- What surrounds the place behind a character. -/
def after (s : Surrounding) (c : Char) : Surrounding :=
  if s.escaped then { s with escaped := false }
  else if s.inString then
    if c = '\\' then { s with escaped := true }
    else if c = '"' then { s with inString := false }
    else s
  else if c = '"' then { s with inString := true }
  else if c = '<' then { s with depth := s.depth + 1 }
  else if c = '>' then { s with depth := s.depth - 1 }
  else s

/-- Whether a character separates two elements here. -/
def separates (s : Surrounding) (c : Char) : Bool :=
  c == ',' && !s.inString && s.depth == 0

end Surrounding

/-- The pieces between separators, with the blanks around them. -/
def pieces : Surrounding → List Char → List (List Char)
  | _, [] => [[]]
  | s, c :: rest =>
    if s.separates c then [] :: pieces s rest
    else
      match pieces (s.after c) rest with
      | [] => [[c]]
      | piece :: more => (c :: piece) :: more

/-- All pieces but an empty one at the end. -/
def dropEmptyLast : List (List Char) → List (List Char)
  | [] => []
  | [last] => if last.isEmpty then [] else [last]
  | piece :: rest => piece :: dropEmptyLast rest

/-- The elements of a list without its brackets. -/
def splitTopLevel (text : List Char) : List (List Char) :=
  dropEmptyLast ((pieces {} text).map Text.trim)

/-- The text inside delimiters, without blanks around it. -/
def contents (opening closing : Char) (text : List Char) : List Char :=
  Text.trim (Text.inside opening closing (Text.trim text))

/-- A number with a point or an exponent, unless it is hexadecimal. -/
def looksFloat (text : List Char) : Bool :=
  text.any (fun c => c == '.' || Literal.isExponentMark c) && text.take 2 != ['0', 'x']

/-- A boxed value made from text. -/
def boxed (ty : Ty) (text : List Char) : HostExpr := .make ty [.text (String.ofList text)]

/-- An element of a list constant; its type shows in how it is written. -/
def element (text : List Char) : HostExpr :=
  match text with
  | '"' :: _ => boxed .string text
  | '<' :: _ =>
    let inner := contents '<' '>' text
    boxed (if (splitTopLevel inner).length = 4 then .rotation else .vector) inner
  | _ =>
    if looksFloat text then boxed .float (Literal.floatChars text) else boxed .integer text

end Constant

/-- The value of a constant as an expression of the host; there is none of type `void`. -/
def LibraryConstant.expanded? (k : LibraryConstant) : Option HostExpr :=
  let value := Text.trim k.value.toList
  match k.ty with
  | .void => none
  | .integer | .float | .string | .key => some (Constant.boxed k.ty value)
  | .vector | .rotation => some (Constant.boxed k.ty (Constant.contents '<' '>' value))
  | .list =>
    some (.make .list
      ((Constant.splitTopLevel (Constant.contents '[' ']' value)).map Constant.element))

end Lsl
