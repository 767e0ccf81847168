import NormalOrder.Token.Basic

namespace NormalOrder

inductive ParseError.Kind where
  | malformed
  | unexpectedClosingBracket
  | missingClosingBracket
  | dotWithoutLambda
  | expectedIdentifierAfterLambda
  | expectedDotOrIdentifier
  | emptyParentheses
  | missingBody
  | emptyExpression
  deriving DecidableEq, Repr

structure ParseError where
  kind : ParseError.Kind
  span : Option Span
  deriving DecidableEq, Repr

def ParseError.Kind.message : ParseError.Kind → String
  | .malformed => "syntax error"
  | .unexpectedClosingBracket => "unexpected closing bracket"
  | .missingClosingBracket => "missing closing bracket"
  | .dotWithoutLambda => "'.' outside of a λ binder"
  | .expectedIdentifierAfterLambda => "identifier expected after 'λ'"
  | .expectedDotOrIdentifier => "identifier or dot expected"
  | .emptyParentheses => "empty parenthesized expression"
  | .missingBody => "λ abstraction has an empty body"
  | .emptyExpression => "λ-term cannot be empty"

/-- The first structural error, or all the lexing errors. -/
inductive ParseFailure where
  | structural (e : ParseError)
  /-- Every lexing error of the input, in order. -/
  | lexical (errors : List LexError)
  deriving DecidableEq, Repr

end NormalOrder
