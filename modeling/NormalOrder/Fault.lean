import NormalOrder.Parsing.Basic
import NormalOrder.Term.Printer
import NormalOrder.Reduction.Renaming
import NormalOrder.Text.Template.Basic
import NormalOrder.Text.Utf8

namespace NormalOrder

open Text (Palette Styled)

/-- A message about a source. -/
structure Diagnostic where
  message : Styled
  span : Option Span := none
  /-- Whether the line it is about may be shown. -/
  excerpt : Bool := true
  /-- Whether the program itself is to blame. -/
  internal : Bool := false
  deriving DecidableEq, Repr

/-- Lexing errors are described by templates, so that a brace in a source is written out as such. -/
def LexError.message [Palette] (e : LexError) : Except Text.Template.Error Styled :=
  match e.cause with
  | .invalidCharacter c =>
    Text.Template.message true "invalid character '\x7b\x7d'" [c.toString]
  | .brokenIdentifier message => Text.Template.message true (Text.Template.escape message) []

def LexError.diagnostic [Palette] (e : LexError) : Except Text.Template.Error Diagnostic := do
  return { message := ← e.message, span := e.span }

/-- What is wrong with the attempt to rename a binder. -/
def Clash.message [Palette] : Clash → Styled
  | .notAbstraction t =>
    .plain "cannot alpha-convert '" ++ .bold t.text ++ .plain "', which is not an abstraction"
  | .occursFree new t =>
    .plain "'" ++ .bold new ++ .plain "' occurs free in '" ++ .bold t.text ++ .plain "'"
  | .alreadyBound new t =>
    .plain "'" ++ .bold new ++ .plain "' is already bound in '" ++ .bold t.text ++ .plain "'"

inductive Failure where
  | general (d : Diagnostic)
  | parse (e : ParseError)
  /-- The lexing errors of one source. -/
  | lexical (causes : List Diagnostic)
  /-- A binder that could not be renamed. -/
  | renaming (message : Styled)
  deriving DecidableEq, Repr

namespace Failure

def diagnostic [Palette] : Failure → Diagnostic
  | .general d => d
  | .parse e => { message := .plain e.kind.message, span := e.span }
  | .lexical causes =>
    { message := .plain "aborting due to " ++ .bold (toString causes.length)
        ++ .plain (if 1 < causes.length then " lexing errors" else " lexing error")
      excerpt := false }
  | .renaming message => { message := message, internal := true }

/-- The diagnostics that a failure sums up. -/
def causes : Failure → List Diagnostic
  | .lexical causes => causes
  | _ => []

end Failure

/-- A fault that the program has no answer to. -/
inductive Unforeseen where
  | undecodable (f : Text.Utf8.Fault)
  | nullInPath
  /-- An option was given the double dash, which is no value. -/
  | hollowExpression
  | hollowSteps
  | template (e : Text.Template.Error)
  | term (e : Term.Malformed)
  | value (message : String)
  | assertion (message : String)
  deriving DecidableEq, Repr

namespace Unforeseen

/-- The kind of fault, as it is reported. -/
def label : Unforeseen → String
  | .undecodable _ => "UnicodeDecodeError"
  | .template (.missing _) | .template .outOfRange => "IndexError"
  | .template (.unknown _) => "KeyError"
  | .template (.noAttribute _) => "AttributeError"
  | .template (.layout .tooWide) => "MemoryError"
  | .assertion _ => "AssertionError"
  | .hollowExpression | .hollowSteps | .template .badKey => "TypeError"
  | .nullInPath | .template _ | .term _ | .value _ => "ValueError"

def message : Unforeseen → String
  | .undecodable f => f.message
  | .nullInPath => "embedded null byte"
  | .hollowExpression => "expected string or bytes-like object, got 'list'"
  | .hollowSteps => "'<' not supported between instances of 'list' and 'int'"
  | .template e => e.message
  | .term e => e.message
  | .value m => m
  | .assertion m => m

end Unforeseen

/-- What a program leaves to its caller when it exits. -/
inductive ExitStatus where
  | none
  | code (n : Int)
  | message (s : String)
  deriving DecidableEq, Repr

/-- What can stop a run. A failure is the user's to mend and is shown as a diagnostic; the others
are an interrupt, nesting that is too deep, an exit, and what nobody foresaw. -/
inductive Fault where
  | failure (f : Failure)
  | interrupted
  | tooDeep
  | exit (status : ExitStatus)
  | unforeseen (u : Unforeseen)
  deriving DecidableEq, Repr

namespace Fault

/-- The fault that lexing errors amount to. -/
def ofLexErrors [Palette] (errors : List LexError) : Fault :=
  match errors.mapM LexError.diagnostic with
  | .ok causes => .failure (.lexical causes)
  | .error e => .unforeseen (.template e)

def ofParseFailure [Palette] : ParseFailure → Fault
  | .structural e => .failure (.parse e)
  | .lexical errors => ofLexErrors errors

def ofClash [Palette] (c : Clash) : Fault := .failure (.renaming c.message)

end Fault

end NormalOrder
