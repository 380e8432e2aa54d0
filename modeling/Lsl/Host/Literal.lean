/- # Literals of the host

The host reads most literals of a script as they are. A float needs a digit
behind its point, and an integer has 32 bits: what does not fit becomes -1, and
a hexadecimal literal with the sign bit set becomes the negative number that
its bits stand for.

Key definitions: `Literal.float`, `Literal.integer`, `Literal.hex`.
-/
import Lsl.Json.Reader
import Lsl.Text.Blank

namespace Lsl

namespace Literal

/-- The mark between the digits of a float and its exponent. -/
def isExponentMark (c : Char) : Bool := c == 'e' || c == 'E'

def isFloatSuffix (c : Char) : Bool := c == 'f' || c == 'F'

/-- A float with a digit behind its point; where one has to be added, a suffix
`f` is dropped. -/
def floatChars (text : List Char) : List Char :=
  let body := Text.dropEnd isFloatSuffix text
  let mantissa := body.takeWhile (!isExponentMark ·)
  let exponent := body.dropWhile (!isExponentMark ·)
  if mantissa.getLast? = some '.' then mantissa ++ '0' :: exponent else text

def float (text : String) : String := String.ofList (floatChars text.toList)

/-- The number that decimal digits stand for, if they are digits. -/
def decimal? (digits : List Char) : Option Nat :=
  if digits.isEmpty || !digits.all Char.isDigit then none else some (Json.digitsValue digits)

/-- The number that a text with an optional sign stands for. -/
def signedDecimal? : List Char → Option Int
  | '+' :: digits => (decimal? digits).map Int.ofNat
  | '-' :: digits => (decimal? digits).map fun n => -(n : Int)
  | digits => (decimal? digits).map Int.ofNat

/-- The largest integer of 32 bits. -/
def maxInteger : Nat := 0x7fffffff

/-- An integer that fits is kept as written; any other is -1. -/
def integerChars (text : List Char) : List Char :=
  match signedDecimal? text with
  | some n => if -0x8000000000000000 ≤ n ∧ n ≤ maxInteger then text else ['-', '1']
  | none => ['-', '1']

def integer (text : String) : String := String.ofList (integerChars text.toList)

/-- Drops a mark of two characters from the front as often as it stands there. -/
def dropMarks (a b : Char) : List Char → List Char
  | x :: y :: rest => if x = a ∧ y = b then dropMarks a b rest else x :: y :: rest
  | rest => rest

/-- The number that hexadecimal digits stand for, if they are digits. -/
def hexValue? (digits : List Char) : Option Nat :=
  if digits.isEmpty then none
  else digits.foldlM (fun n c => (Json.hexValue? c).map (n * 16 + ·)) 0

/-- The number behind the mark of a hexadecimal literal. -/
def hexNumber? (text : List Char) : Option Nat :=
  match dropMarks '0' 'X' (dropMarks '0' 'x' text) with
  | '+' :: digits => hexValue? digits
  | digits => hexValue? digits

/-- A hexadecimal literal that fits is kept as written; one with the sign bit
set becomes the number its 32 bits stand for; any other is -1. -/
def hex (text : String) : String :=
  match hexNumber? text.toList with
  | some n =>
    if n ≤ maxInteger then text
    else if n < 0x100000000 then Int.repr ((n : Int) - 0x100000000)
    else "-1"
  | none => "-1"

end Literal

end Lsl
