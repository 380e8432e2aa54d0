/- # Styled text

Text with an emphasis and a colour, as terminals understand it: the codes of a
style stand in front of the text, and a reset stands behind it. A reset inside
the text would end the style too early, so the codes are repeated behind it.

Key definitions: `Style`, `Style.paint`.
-/

namespace Lsl

inductive Emphasis where
  | bold
  | dimmed
  | underline
deriving DecidableEq, Repr, Inhabited

inductive Color where
  | red
  | green
  | yellow
  | blue
  | cyan
deriving DecidableEq, Repr, Inhabited

def Emphasis.code : Emphasis → String
  | bold => "1"
  | dimmed => "2"
  | underline => "4"

def Color.code : Color → String
  | red => "31"
  | green => "32"
  | yellow => "33"
  | blue => "34"
  | cyan => "36"

/-- How a piece of text is shown. -/
structure Style where
  emphasis : Option Emphasis := none
  color : Option Color := none
deriving DecidableEq, Repr, Inhabited

namespace Style

def bold : Style := { emphasis := some .bold }

def dimmed : Style := { emphasis := some .dimmed }

def underline : Style := { emphasis := some .underline }

def colored (c : Color) : Style := { color := some c }

/-- Bold text of a colour. -/
def strong (c : Color) : Style := { emphasis := some .bold, color := some c }

/-- What switches the style on; the emphasis stands before the colour. -/
def opening (s : Style) : String :=
  "\x1b[" ++ ";".intercalate (s.emphasis.toList.map (·.code) ++ s.color.toList.map (·.code)) ++ "m"

/-- What switches every style off. -/
def reset : String := "\x1b[0m"

/-- Repeats `opening` behind every reset in a text. -/
def reopen (opening : List Char) : List Char → List Char
  | '\x1b' :: '[' :: '0' :: 'm' :: rest =>
    '\x1b' :: '[' :: '0' :: 'm' :: opening ++ reopen opening rest
  | c :: rest => c :: reopen opening rest
  | [] => []

/-- The text in a style, or as it is where no styles are wanted. -/
def paint (s : Style) (styled : Bool) (text : String) : String :=
  if styled then s.opening ++ String.ofList (reopen s.opening.toList text.toList) ++ reset
  else text

end Style

end Lsl
