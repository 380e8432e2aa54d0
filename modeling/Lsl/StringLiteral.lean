/- # String literals

The text of a string literal is brought into the form that the host accepts:
raw tabs and newlines become escapes, carriage returns are dropped, and a
backslash at the very end is doubled. Escapes other than those of newline, tab,
quote and backslash are kept and reported.

Key definitions: `StringLiteral.body`, `StringLiteral.escapeBody`,
`StringLiteral.normalize`.
-/

namespace Lsl

namespace StringLiteral

/-- The characters that may follow a backslash. -/
def isEscape (c : Char) : Bool :=
  c == 'n' || c == 't' || c == '"' || c == '\\'

/-- The text between the quotes; a text that does not both start and end with
a quote of its own is taken whole. -/
def body (text : List Char) : List Char :=
  match text with
  | '"' :: rest => if rest.getLast? = some '"' then rest.dropLast else text
  | _ => text

/-- The body with its control characters escaped, and the characters behind
a backslash that make no escape. -/
def escapeBody : List Char → List Char × List Char
  | [] => ([], [])
  | ['\\'] => (['\\', '\\'], [])
  | '\\' :: c :: rest =>
    let (out, bad) := escapeBody rest
    ('\\' :: c :: out, if isEscape c then bad else c :: bad)
  | c :: rest =>
    let (out, bad) := escapeBody rest
    match c with
    | '\t' => ('\\' :: 't' :: out, bad)
    | '\n' => ('\\' :: 'n' :: out, bad)
    | '\r' => (out, bad)
    | _ => (c :: out, bad)

/-- The literal in quotes, and the characters of its invalid escapes. -/
def normalize (text : String) : String × List Char :=
  let (out, bad) := escapeBody (body text.toList)
  (String.ofList ('"' :: out ++ ['"']), bad)

end StringLiteral

end Lsl
