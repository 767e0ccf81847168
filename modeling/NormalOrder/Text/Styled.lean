namespace NormalOrder.Text

inductive Colour where
  | red
  | magenta
  | cyan
  deriving DecidableEq, Repr

inductive Style where
  | bold
  | faint
  | boldIn (colour : Colour)
  deriving DecidableEq, Repr

/-- What shows the styles of a text. How it does so is not the program's to decide, so all that is
printed is made of what `paint` gives. -/
class Palette where
  /-- What is written for a text that has a style. -/
  paint : Style → String → String

/-- A piece of text in its two forms. -/
structure Piece where
  text : String
  /-- What is written for it where styles are shown. -/
  shown : String
  deriving DecidableEq, Repr

/-- What is printed, piece by piece. -/
abbrev Styled := List Piece

def Colour.code : Colour → String
  | .red => "31"
  | .magenta => "35"
  | .cyan => "36"

/-- The escape sequence that sets one display attribute. -/
def escapeSequence (code : String) : String := "\x1b[" ++ code ++ "m"

/-- What a terminal needs to see before a text of this style. -/
def Style.opening : Style → String
  | .bold => escapeSequence "1"
  | .faint => escapeSequence "2"
  | .boldIn c => escapeSequence "1" ++ escapeSequence c.code

/-- Ends every style. -/
def reset : String := escapeSequence "0"

/-- The palette of a terminal, which the program takes: escape sequences around the text. -/
instance terminal : Palette where
  paint style s := style.opening ++ s ++ reset

def Style.piece [Palette] (style : Style) (s : String) : Piece := ⟨s, Palette.paint style s⟩

namespace Styled

def plain (s : String) : Styled := [⟨s, s⟩]
def bold [Palette] (s : String) : Styled := [Style.bold.piece s]
def faint [Palette] (s : String) : Styled := [Style.faint.piece s]
def boldIn [Palette] (c : Colour) (s : String) : Styled := [(Style.boldIn c).piece s]

/-- The line `s` with its line break. -/
def line (s : Styled) : Styled := s ++ plain "\n"

/-- The bare text. -/
def text (s : Styled) : String := String.join (s.map Piece.text)

/-- The text with its styles as the palette shows them. -/
def shown (s : Styled) : String := String.join (s.map Piece.shown)

def render (colour : Bool) (s : Styled) : String := if colour then s.shown else s.text

@[simp] theorem text_append (s t : Styled) : text (s ++ t) = s.text ++ t.text := by
  simp [text]

@[simp] theorem shown_append (s t : Styled) : shown (s ++ t) = s.shown ++ t.shown := by
  simp [shown]

end Styled

end NormalOrder.Text
