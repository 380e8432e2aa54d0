/- # Blanks and lines of a text

The characters that count as white space, cutting them off the ends of a text,
and the lines of a text. A line ends at a newline, together with a carriage
return in front of it; nothing behind the last newline is no line.

Key definitions: `Text.isBlank`, `Text.trim`, `Text.lines`.
-/

namespace Lsl

namespace Text

/-- White space, in every script. -/
def isBlank (c : Char) : Bool :=
  let n := c.toNat
  (0x9 ≤ n && n ≤ 0xD) || n == 0x20 || n == 0x85 || n == 0xA0 || n == 0x1680
    || (0x2000 ≤ n && n ≤ 0x200A) || n == 0x2028 || n == 0x2029 || n == 0x202F || n == 0x205F
    || n == 0x3000

/-- The text without the characters at its end that satisfy `p`. -/
def dropEnd (p : Char → Bool) (text : List Char) : List Char :=
  (text.reverse.dropWhile p).reverse

/-- The text without white space at its ends. -/
def trim (text : List Char) : List Char :=
  dropEnd isBlank (text.dropWhile isBlank)

/-- The text without the two delimiters around it, if both are there. -/
def inside (opening closing : Char) (text : List Char) : List Char :=
  match text with
  | c :: rest => if c = opening ∧ rest.getLast? = some closing then rest.dropLast else text
  | [] => []

/-- The pieces of a text between its newlines. There is always one more piece
than there are newlines. -/
def splitLines : List Char → List (List Char)
  | [] => [[]]
  | c :: rest =>
    if c = '\n' then [] :: splitLines rest
    else
      match splitLines rest with
      | [] => [[c]]
      | piece :: more => (c :: piece) :: more

/-- A line that a newline ends, without the carriage return in front of it. -/
def dropReturn (line : List Char) : List Char :=
  if line.getLast? = some '\r' then line.dropLast else line

/-- All but the last piece between newlines are lines; the last is one if it
is not empty. -/
def linesOf : List (List Char) → List (List Char)
  | [] => []
  | [last] => if last.isEmpty then [] else [last]
  | piece :: rest => dropReturn piece :: linesOf rest

/-- The lines of a text. -/
def lines (text : String) : List String :=
  (linesOf (splitLines text.toList)).map String.ofList

end Text

end Lsl
