import NormalOrder.Parsing.Stack

namespace NormalOrder

/-- What the next token may be. -/
inductive Mode where
  | normal
  /-- Right after a lambda. -/
  | lambda
  /-- After a bound identifier. -/
  | header
  deriving DecidableEq, Repr

/-- The state of a parse, which reads the tokens once, from left to right. -/
structure Parsing where
  mode : Mode
  stack : Stack
  deriving DecidableEq, Repr

namespace Parsing

def start : Parsing := ⟨.normal, .empty⟩

/-- Reads one token. An error comes with the state that is left. -/
def step (p : Parsing) (t : Token) : Except (ParseError × Parsing) Parsing :=
  let fail (kind : ParseError.Kind) := .error (⟨kind, t.span⟩, p)
  match p.mode, t.kind with
  | .normal, .opening => .ok ⟨.normal, p.stack.push (.bracket t.span [])⟩
  | .normal, .closing =>
    match Stack.closeBracket t.span p.stack.base [] p.stack.scopes with
    | .ok stack => .ok ⟨.normal, stack⟩
    | .error (e, stack) => .error (e, ⟨p.mode, stack⟩)
  | .normal, .identifier x => .ok ⟨.normal, p.stack.append [.var x]⟩
  | .normal, .lambda => .ok ⟨.lambda, p.stack⟩
  | .normal, .dot => fail .dotWithoutLambda
  | .lambda, .identifier x => .ok ⟨.header, p.stack.push (.binder x t.span [])⟩
  | .lambda, _ => fail .expectedIdentifierAfterLambda
  | .header, .identifier x => .ok ⟨.header, p.stack.push (.binder x t.span [])⟩
  | .header, .dot => .ok ⟨.normal, p.stack⟩
  | .header, _ => fail .expectedDotOrIdentifier

/-- Ends the input. -/
def finish (p : Parsing) : Except ParseError Term × Parsing :=
  match p.mode with
  | .lambda => (.error ⟨.expectedIdentifierAfterLambda, none⟩, p)
  | .header => (.error ⟨.expectedDotOrIdentifier, p.stack.topSpan⟩, p)
  | .normal =>
    let (result, stack) := Stack.closeAll p.stack.base [] p.stack.scopes
    (result, ⟨p.mode, stack⟩)

/-- The lexing errors among `lexemes`. -/
def lexErrors (lexemes : List Lexeme) : List LexError :=
  lexemes.filterMap fun
    | .ok _ => none
    | .error e => some e

/-- Reads all of the input. Gives the term, or the first structural error, or else every lexing
error once the first of them is met; and the state that is left. -/
def run (p : Parsing) : List Lexeme → Except ParseFailure Term × Parsing
  | [] =>
    let (result, p) := p.finish
    (result.mapError .structural, p)
  | .error e :: rest => (.error (.lexical (e :: lexErrors rest)), p)
  | .ok t :: rest =>
    match p.step t with
    | .error (e, p) => (.error (.structural e), p)
    | .ok p => run p rest

/-- The state after each item that was read. From the first lexing error on nothing changes. -/
def history (p : Parsing) : List Lexeme → List Parsing
  | [] => []
  | .error _ :: rest => List.replicate (rest.length + 1) p
  | .ok t :: rest =>
    match p.step t with
    | .error _ => []
    | .ok p => p :: history p rest

end Parsing

/-- The term that the lexemes spell. -/
def parse (lexemes : List Lexeme) : Except ParseFailure Term := (Parsing.start.run lexemes).1

end NormalOrder
