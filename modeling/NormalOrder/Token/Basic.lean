import NormalOrder.Source
import NormalOrder.Text.Quoted

namespace NormalOrder

open Text (quoted)

inductive Token.Kind where
  | lambda
  | dot
  | opening
  | closing
  | identifier (name : String)
  deriving DecidableEq, Repr

/-- A token; one that was not read from a source may have no place in it. -/
structure Token where
  kind : Token.Kind
  span : Option Span
  deriving DecidableEq, Repr

inductive LexError.Cause where
  /-- A character outside the alphabet, not inside an identifier. -/
  | invalidCharacter (c : Char)
  /-- A character outside the alphabet that interrupts an identifier, with its description. -/
  | brokenIdentifier (message : String)
  deriving DecidableEq, Repr

structure LexError where
  cause : LexError.Cause
  span : Option Span
  deriving DecidableEq, Repr

/-- What lexing yields: tokens, with errors in their places among them. -/
abbrev Lexeme := Except LexError Token

/-- How an identifier interrupted by `c` is described. -/
def LexError.Cause.interrupting (c : Char) : LexError.Cause :=
  .brokenIdentifier ("invalid character '" ++ c.toString ++ "' found in an identifier")

def Token.Kind.text : Token.Kind → String
  | .lambda => "Lambda()"
  | .dot => "Dot()"
  | .opening => "Bracket(direction=<Direction.LEFT: '('>)"
  | .closing => "Bracket(direction=<Direction.RIGHT: ')'>)"
  | .identifier name => "Identifier(name=" ++ quoted name ++ ")"

/-- A span in a token listing. -/
def spanText : Option Span → String
  | none => "None"
  | some s => s.text

def Token.text (t : Token) : String := t.kind.text ++ " at " ++ spanText t.span

def Point.fields (p : Point) : String :=
  "Point(row=" ++ toString p.row ++ ", column=" ++ toString p.column ++ ")"

/-- A span in the listing of an error. -/
def spanFields : Option Span → String
  | none => "None"
  | some s => "Position(start=" ++ s.first.fields ++ ", end=" ++ s.last.fields ++ ")"

def LexError.text (e : LexError) : String :=
  let cause :=
    match e.cause with
    | .invalidCharacter c => "InvalidCharacterError(char=" ++ quoted c.toString
    | .brokenIdentifier message => "IdentifierError(message=" ++ quoted message
  cause ++ ", position=" ++ spanFields e.span ++ ")"

/-- One line of a token listing. -/
def lexemeText : Lexeme → String
  | .ok t => t.text
  | .error e => e.text

end NormalOrder
