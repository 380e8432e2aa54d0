/- # Lines and columns of a source text

The offsets that the lines of a text start at are kept in a table. A byte offset
is looked up there by halving the table again and again, and gives a line and a
column, both counted from 1. An offset past the end stands for the end of the
text. Columns count bytes, and the text of a line is cut out of the source by
bytes too.

Key definitions: `LineMap.ofSource`, `LineMap.search`, `LineMap.lineCol`,
`LineMap.lineText`.
-/
import Lsl.Span

namespace Lsl

/-! ### Cutting by bytes -/

namespace Text

/-- The byte of a newline. -/
def newline : UInt8 := 10

/-- The characters that take a number of bytes, and those behind them. There is no
such cut inside a character or behind the end. -/
def cutAt? : Nat → List Char → Option (List Char × List Char)
  | 0, text => some ([], text)
  | _ + 1, [] => none
  | n + 1, c :: rest =>
    if c.utf8Size ≤ n + 1 then
      (cutAt? (n + 1 - c.utf8Size) rest).map fun (front, back) => (c :: front, back)
    else none

/-- The part of a text from one byte offset to another. -/
def slice? (text : List Char) (start stop : Nat) : Option (List Char) :=
  if start ≤ stop then do
    let (_, rest) ← cutAt? start text
    let (part, _) ← cutAt? (stop - start) rest
    return part
  else none

end Text

/-! ### The table of lines -/

/-- A source text with the offsets that its lines start at. -/
structure LineMap where
  source : String
  starts : Array Nat
  nonempty : 0 < starts.size
deriving Repr

namespace LineMap

/-- The offsets behind the newlines among some bytes, the first of which has the
offset `first`. -/
def behindNewlines (bytes : List UInt8) (first : Nat) : List Nat :=
  (bytes.zipIdx first).filterMap fun (b, i) => if b = Text.newline then some (i + 1) else none

def ofSource (source : String) : LineMap where
  source := source
  starts := (0 :: behindNewlines source.toUTF8.data.toList 0).toArray
  nonempty := by simp

instance : Inhabited LineMap := ⟨ofSource ""⟩

def lineCount (m : LineMap) : Nat := m.starts.size

/-! ### Looking up offsets -/

/-- Looks for a number in the part of a table from `low` up to but not including
`high`: the index of the number, or the index it would have to be put in at. -/
def search (table : Array Nat) (x low high : Nat) (hlow : low ≤ high) (hhigh : high ≤ table.size) :
    Except (Fin (table.size + 1)) (Fin table.size) :=
  if h : low < high then
    let middle := (low + high) / 2
    have hmiddle : low ≤ middle ∧ middle < high := by omega
    if table[middle] = x then .ok ⟨middle, by omega⟩
    else if table[middle] < x then search table x (middle + 1) high (by omega) hhigh
    else search table x low middle hmiddle.1 (by omega)
  else .error ⟨low, by omega⟩
termination_by high - low

/-- The index of the line that an offset lies on: the last one that starts no
further on. -/
def lineIndex (m : LineMap) (offset : Nat) : Fin m.starts.size :=
  match search m.starts offset 0 m.starts.size (Nat.zero_le _) (Nat.le_refl _) with
  | .ok i => i
  | .error i => ⟨i - 1, by have := m.nonempty; omega⟩

/-- The line and the column of a byte offset, both counted from 1. -/
def lineCol (m : LineMap) (offset : Nat) : Nat × Nat :=
  let offset := min offset m.source.utf8ByteSize
  let i := m.lineIndex offset
  (i + 1, offset - m.starts[i] + 1)

/-! ### The text of a line -/

/-- A text without the carriage returns at its end. -/
def dropReturns (text : String) : String :=
  String.ofList (text.toList.reverse.dropWhile (· == '\r')).reverse

/-- The text of a line, counted from 1, without its line end. -/
def lineText (m : LineMap) : Nat → Option String
  | 0 => none
  | i + 1 => do
    let start ← m.starts[i]?
    let stop := (m.starts[i + 1]?.map (· - 1)).getD m.source.utf8ByteSize
    (Text.slice? m.source.toList start stop).map fun line => dropReturns (String.ofList line)

end LineMap

end Lsl
