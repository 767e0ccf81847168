import NormalOrder.Token.Basic
import NormalOrder.Text.Blank
import NormalOrder.Text.Alphanumeric

namespace NormalOrder

open Text (isBlank isAlphanumeric)

/-- The token that a reserved character is. Both spellings of lambda are reserved. -/
def Token.Kind.ofReserved? : Char → Option Token.Kind
  | '\\' => some .lambda
  | 'λ' => some .lambda
  | '(' => some .opening
  | ')' => some .closing
  | '.' => some .dot
  | _ => none

def isReserved (c : Char) : Bool := (Token.Kind.ofReserved? c).isSome

namespace Lexer

/-- An identifier being read: where it began, and its characters so far. -/
structure Word where
  start : Point
  name : String
  deriving DecidableEq, Repr

/-- The finished identifier, when the next character stands at `p`. -/
def Word.token (w : Word) (p : Point) : Token :=
  ⟨.identifier w.name, some ⟨w.start, p.before⟩⟩

/-- The character `c` at `p`, outside any identifier. -/
def outside (p : Point) (c : Char) : Option Word × List Lexeme :=
  match Token.Kind.ofReserved? c with
  | some kind => (none, [.ok ⟨kind, some (.single p)⟩])
  | none =>
    if isAlphanumeric c then (some ⟨p, c.toString⟩, [])
    else if isBlank c then (none, [])
    else (none, [.error ⟨.invalidCharacter c, some (.single p)⟩])

/-- The character `c` at `p`, while the identifier `w` is being read. A blank or a reserved
character ends it and is then read anew; any other character leaves it open. -/
def inside (w : Word) (p : Point) (c : Char) : Option Word × List Lexeme :=
  if isBlank c || isReserved c then
    let (word, lexemes) := outside p c
    (word, .ok (w.token p) :: lexemes)
  else if isAlphanumeric c then (some { w with name := w.name.push c }, [])
  else (some w, [.error ⟨.interrupting c, some (.single p)⟩])

/-- The state after the character `c` at `p`, and what it yields. -/
def step : Option Word → Point → Char → Option Word × List Lexeme
  | none, p, c => outside p c
  | some w, p, c => inside w p c

/-- Lexes the text that begins at `p`. The end of the text ends an open identifier. -/
def scan (p : Point) : Option Word → List Char → List Lexeme
  | none, [] => []
  | some w, [] => [.ok (w.token p)]
  | word, c :: cs =>
    let (word, lexemes) := step word p c
    lexemes ++ scan (p.next c) word cs

end Lexer

/-- The lexemes of a text that begins at `p`. A character that fits nowhere becomes an error in its
place, and lexing goes on. -/
def lexFrom (p : Point) (cs : List Char) : List Lexeme := Lexer.scan p none cs

def lex (source : String) : List Lexeme := lexFrom .origin source.toList

end NormalOrder
