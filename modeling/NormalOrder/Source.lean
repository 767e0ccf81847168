namespace NormalOrder

/-- A place in a source text. Rows and columns count from zero, columns in characters. -/
structure Point where
  row : Nat
  column : Nat
  deriving DecidableEq, Repr

namespace Point

def origin : Point := ⟨0, 0⟩

/-- The point after the character `c`. Only a line feed begins a new row. -/
def next (p : Point) (c : Char) : Point :=
  if c = '\n' then ⟨p.row + 1, 0⟩ else ⟨p.row, p.column + 1⟩

/-- The point after a text that begins at `p`. -/
def advance (p : Point) (cs : List Char) : Point := cs.foldl next p

theorem advance_append (p : Point) (cs ds : List Char) :
    p.advance (cs ++ ds) = (p.advance cs).advance ds := by
  simp [advance]

/-- The point one column to the left. -/
def before (p : Point) : Point := ⟨p.row, p.column - 1⟩

def text (p : Point) : String := toString p.row ++ ":" ++ toString p.column

end Point

/-- A stretch of source text, given by its first and its last character. -/
structure Span where
  first : Point
  last : Point
  deriving DecidableEq, Repr

namespace Span

/-- The span of one character. -/
def single (p : Point) : Span := ⟨p, p⟩

def text (s : Span) : String := s.first.text ++ "-" ++ s.last.text

end Span

end NormalOrder
