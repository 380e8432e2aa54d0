/- # Reading JSON

The reader takes the whole text: one value with blanks around it, and nothing
behind. It refuses a number with a leading zero, a raw control character in a
string and an escape that is none.

Three things are well formed but hold no value, and are read as
`Json.unusable`: a string with half a surrogate pair, an object with such a
string for a name, and an array or object nested deeper than a given limit.

A text is read from the front of a list of characters, and every step hands on
what is left. The loops over the items of arrays and objects are bounded by the
length of the text, since each item takes at least one character.

Key definitions: `Json.ReadError`, `Json.read`.
-/
import Lsl.Json.Basic

namespace Lsl

namespace Json

/-- Why a text is not a JSON value. -/
inductive ReadError where
  | unexpectedEnd
  | unexpected (found : Char)
  | controlCharacter
  | invalidEscape
  | trailing
deriving DecidableEq, Repr, Inhabited

namespace ReadError

def message : ReadError → String
  | unexpectedEnd => "the text ends inside a value"
  | unexpected found => "unexpected character `" ++ String.singleton found ++ "`"
  | controlCharacter => "control character in a string"
  | invalidEscape => "invalid escape in a string"
  | trailing => "characters after the value"

end ReadError

/-- The four blanks of the format. -/
def isBlank (c : Char) : Bool :=
  c == ' ' || c == '\n' || c == '\r' || c == '\t'

def skipBlanks (text : List Char) : List Char := text.dropWhile isBlank

/-- Fails on the first character of the text. -/
def refuse (text : List Char) : Except ReadError α :=
  match text with
  | [] => .error .unexpectedEnd
  | c :: _ => .error (.unexpected c)

/-- What follows a word that the text has to start with. -/
def readWord : List Char → List Char → Except ReadError (List Char)
  | [], text => .ok text
  | w :: word, c :: text => if c = w then readWord word text else .error (.unexpected c)
  | _ :: _, [] => .error .unexpectedEnd

/-! ### Strings -/

/-- Cuts a text behind its opening quote at the closing one. -/
def cutString : List Char → Except ReadError (List Char × List Char)
  | [] => .error .unexpectedEnd
  | '"' :: rest => .ok ([], rest)
  | '\\' :: c :: rest => do
    let (inside, after) ← cutString rest
    return ('\\' :: c :: inside, after)
  | c :: rest =>
    if c.toNat < 0x20 then .error .controlCharacter
    else do
      let (inside, after) ← cutString rest
      return (c :: inside, after)

/-- The value of a hexadecimal digit in either case. -/
def hexValue? (c : Char) : Option Nat :=
  if '0' ≤ c ∧ c ≤ '9' then some (c.toNat - '0'.toNat)
  else if 'a' ≤ c ∧ c ≤ 'f' then some (c.toNat - 'a'.toNat + 10)
  else if 'A' ≤ c ∧ c ≤ 'F' then some (c.toNat - 'A'.toNat + 10)
  else none

/-- A part of a string: a character, or the code unit of a numeric escape. -/
inductive Unit16 where
  | char (c : Char)
  | unit (code : Nat)

/-- The four hexadecimal digits of a numeric escape. -/
def hexUnit (a b c d : Char) : Except ReadError Unit16 :=
  match hexValue? a, hexValue? b, hexValue? c, hexValue? d with
  | some a, some b, some c, some d => .ok (.unit (((a * 16 + b) * 16 + c) * 16 + d))
  | _, _, _, _ => .error .invalidEscape

/-- The character that a letter behind a backslash stands for. -/
def escaped? : Char → Option Char
  | '"' => some '"'
  | '\\' => some '\\'
  | '/' => some '/'
  | 'b' => some '\x08'
  | 'f' => some '\x0c'
  | 'n' => some '\n'
  | 'r' => some '\r'
  | 't' => some '\t'
  | _ => none

/-- The parts of a string between its quotes. -/
def stringUnits : List Char → Except ReadError (List Unit16)
  | [] => .ok []
  | '\\' :: 'u' :: a :: b :: c :: d :: rest => do
    let unit ← hexUnit a b c d
    return unit :: (← stringUnits rest)
  | '\\' :: c :: rest =>
    match escaped? c with
    | some e => do return .char e :: (← stringUnits rest)
    | none => .error .invalidEscape
  | c :: rest => do return .char c :: (← stringUnits rest)

def isHighSurrogate (code : Nat) : Bool := 0xD800 ≤ code && code < 0xDC00

def isLowSurrogate (code : Nat) : Bool := 0xDC00 ≤ code && code < 0xE000

/-- Joins the two halves of every surrogate pair, if each half has the other. -/
def joinSurrogates? : List Unit16 → Option (List Char)
  | [] => some []
  | .char c :: rest => do return c :: (← joinSurrogates? rest)
  | .unit high :: .unit low :: rest =>
    if isHighSurrogate high && isLowSurrogate low then do
      let code := 0x10000 + (high - 0xD800) * 0x400 + (low - 0xDC00)
      return Char.ofNat code :: (← joinSurrogates? rest)
    else if isHighSurrogate high || isLowSurrogate high then none
    else do return Char.ofNat high :: (← joinSurrogates? (.unit low :: rest))
  | .unit code :: rest =>
    if isHighSurrogate code || isLowSurrogate code then none
    else do return Char.ofNat code :: (← joinSurrogates? rest)

/-- The string behind an opening quote, unless half a surrogate pair stands in
it, and what follows the closing quote. -/
def readString (text : List Char) : Except ReadError (Option String × List Char) := do
  let (inside, after) ← cutString text
  let units ← stringUnits inside
  return ((joinSurrogates? units).map String.ofList, after)

/-! ### Numbers -/

/-- At least one digit, and what follows the digits. -/
def readDigits (text : List Char) : Except ReadError (List Char × List Char) :=
  match text.takeWhile Char.isDigit with
  | [] => refuse text
  | digits => .ok (digits, text.dropWhile Char.isDigit)

/-- The digits before the fraction: a zero stands alone. -/
def readWhole (text : List Char) : Except ReadError (List Char × List Char) :=
  match text with
  | '0' :: rest => .ok (['0'], rest)
  | _ => readDigits text

/-- A fraction, if there is one, with its point. -/
def readFraction (text : List Char) : Except ReadError (List Char × List Char) :=
  match text with
  | '.' :: rest => do
    let (digits, after) ← readDigits rest
    return ('.' :: digits, after)
  | _ => .ok ([], text)

/-- An exponent, if there is one, with its mark and sign. -/
def readExponent (text : List Char) : Except ReadError (List Char × List Char) :=
  match text with
  | [] => .ok ([], text)
  | mark :: rest =>
    if mark = 'e' ∨ mark = 'E' then
      match rest with
      | [] => .error .unexpectedEnd
      | sign :: more =>
        if sign = '+' ∨ sign = '-' then do
          let (digits, after) ← readDigits more
          return (mark :: sign :: digits, after)
        else do
          let (digits, after) ← readDigits rest
          return (mark :: digits, after)
    else .ok ([], text)

/-- The number that decimal digits stand for. -/
def digitsValue (digits : List Char) : Nat :=
  digits.foldl (fun n c => n * 10 + (c.toNat - '0'.toNat)) 0

/-- A number without sign. A negative zero is no integer. -/
def readMagnitude (negative : Bool) (text : List Char) :
    Except ReadError (Json × List Char) := do
  let (whole, rest) ← readWhole text
  let (fraction, rest) ← readFraction rest
  let (exponent, rest) ← readExponent rest
  let magnitude := digitsValue whole
  if fraction.isEmpty && exponent.isEmpty && !(negative && magnitude == 0) then
    return (.int (if negative then -(magnitude : Int) else magnitude), rest)
  else
    let sign := if negative then ['-'] else []
    return (.real (String.ofList (sign ++ whole ++ fraction ++ exponent)), rest)

/-! ### Values -/

/-- The fields, if each of them has a name. -/
def named? : List (Option String × Json) → Option (List (String × Json))
  | [] => some []
  | (name, value) :: rest => do return (← name, value) :: (← named? rest)

/-- An array or object in a place that has this many levels left. -/
def nested (levels : Nat) (v : Json) : Json := if levels = 0 then .unusable else v

mutual

/-- The value at the front of a text without blanks in front. The first
argument bounds the steps, the second is how many levels of nesting are left. -/
def readValue : Nat → Nat → List Char → Except ReadError (Json × List Char)
  | 0, _, text => refuse text
  | steps + 1, levels, text =>
    match text with
    | [] => .error .unexpectedEnd
    | 'n' :: rest => do return (.null, ← readWord ['u', 'l', 'l'] rest)
    | 't' :: rest => do return (.bool true, ← readWord ['r', 'u', 'e'] rest)
    | 'f' :: rest => do return (.bool false, ← readWord ['a', 'l', 's', 'e'] rest)
    | '"' :: rest => do
      let (content, after) ← readString rest
      return (content.elim .unusable .str, after)
    | '-' :: rest => readMagnitude true rest
    | '[' :: rest =>
      match skipBlanks rest with
      | ']' :: after => .ok (nested levels (.arr []), after)
      | rest => do
        let (items, after) ← readItems steps (levels - 1) rest
        return (nested levels (.arr items), after)
    | '\x7b' :: rest =>
      match skipBlanks rest with
      | '\x7d' :: after => .ok (nested levels (.obj []), after)
      | rest => do
        let (fields, after) ← readFields steps (levels - 1) rest
        return (nested levels ((named? fields).elim .unusable .obj), after)
    | c :: _ => if c.isDigit then readMagnitude false text else .error (.unexpected c)

/-- The items of an array up to its closing bracket; there is at least one. -/
def readItems : Nat → Nat → List Char → Except ReadError (List Json × List Char)
  | 0, _, text => refuse text
  | steps + 1, levels, text => do
    let (item, rest) ← readValue steps levels (skipBlanks text)
    match skipBlanks rest with
    | ']' :: after => return ([item], after)
    | ',' :: rest =>
      let (items, after) ← readItems steps levels rest
      return (item :: items, after)
    | rest => refuse rest

/-- The fields of an object up to its closing brace; there is at least one. -/
def readFields : Nat → Nat → List Char →
    Except ReadError (List (Option String × Json) × List Char)
  | 0, _, text => refuse text
  | steps + 1, levels, text => do
    match skipBlanks text with
    | '"' :: rest =>
      let (name, rest) ← readString rest
      match skipBlanks rest with
      | ':' :: rest =>
        let (value, rest) ← readValue steps levels (skipBlanks rest)
        match skipBlanks rest with
        | '\x7d' :: after => return ([(name, value)], after)
        | ',' :: rest =>
          let (fields, after) ← readFields steps levels rest
          return ((name, value) :: fields, after)
        | rest => refuse rest
      | rest => refuse rest
    | rest => refuse rest

end

/-- The deepest nesting of arrays and objects of which files can make use. -/
def nestingLimit : Nat := 127

/-- The value that a text holds; what is nested more than `limit` levels deep is
of no use. -/
def read (limit : Nat) (text : String) : Except ReadError Json := do
  let chars := text.toList
  let (value, rest) ← readValue (chars.length + 1) limit (skipBlanks chars)
  match skipBlanks rest with
  | [] => return value
  | _ => .error .trailing

end Json

end Lsl
