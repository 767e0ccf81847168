import NormalOrder.Reader
import NormalOrder.Reporter
import NormalOrder.Sink
import NormalOrder.Token.Lexer
import NormalOrder.Reduction.Step

namespace NormalOrder

open Text (Palette Styled)

/-- A session runs one source after another, and hands the terms of its reduction to a sink. -/
structure Session where
  reporter : Reporter
  sink : Sink
  /-- How many steps a run may take; no limit if none. -/
  budget : Option Int := none
  /-- Whether to list the tokens of a source before it is parsed. -/
  showTokens : Bool := false
  deriving DecidableEq, Repr

/-- What a run leaves behind: what it printed, the session afterwards, and its result or the fault
that stopped it. -/
structure Session.Outcome (α : Type) where
  printed : Styled
  session : Session
  result : Except Fault α

/-- Adds what was printed before. -/
def Session.Outcome.after {α : Type} (printed : Styled) (o : Session.Outcome α) :
    Session.Outcome α :=
  { o with printed := printed ++ o.printed }

/-- A run in the middle of its reduction. -/
structure Run where
  session : Session
  /-- The term to be handed on next. -/
  term : Term
  /-- The number of the next generated name. -/
  counter : Int
  /-- How many terms were handed on. -/
  step : Nat
  last : Option Term
  deriving DecidableEq, Repr

/-- A run, or what is left of it: the session, and the last term handed on or the fault. -/
inductive Progress where
  | running (run : Run)
  | ended (session : Session) (result : Except Fault (Option Term))

/-- The sink is closed whichever way a reduction ends. A run without a fault forgets its source. -/
def Session.conclude (s : Session) (result : Except Fault (Option Term)) :
    Session.Outcome (Option Term) :=
  let (printed, sink) := s.sink.close
  let reporter :=
    match result with
    | .ok _ => s.reporter.remove
    | .error _ => s.reporter
  ⟨printed, { s with sink := sink, reporter := reporter }, result⟩

/-- What is said about a run that used up its budget. -/
def exhausted [Palette] (budget : Int) : Diagnostic :=
  { message :=
      .plain "stopped after " ++ .bold (toString budget)
        ++ .plain " steps without reaching a normal form"
    excerpt := false }

/-- Concludes a run after what was `printed` last. -/
def Session.finish (s : Session) (result : Except Fault (Option Term)) (printed : Styled) :
    Styled × Progress :=
  let o := s.conclude result
  (printed ++ o.printed, .ended o.session o.result)

namespace Run

/-- Whether the term to be handed on next lies beyond the budget. -/
def overBudget (r : Run) : Option Int := r.session.budget.filter fun n => n < r.step

/-- Hands on one term and makes the next step. -/
def next [Palette] (r : Run) : Styled × Progress :=
  match r.overBudget with
  | some n =>
    r.session.finish (.ok r.last) (r.session.reporter.report .warning (exhausted n))
  | none =>
    let (printed, sink, interrupted) := r.session.sink.put r.term
    let session := { r.session with sink := sink }
    if interrupted then session.finish (.error .interrupted) printed
    else
      match r.term.step r.counter with
      | (.error clash, _) => session.finish (.error (.ofClash clash)) printed
      | (.ok none, _) => session.finish (.ok (some r.term)) printed
      | (.ok (some t), counter) =>
        (printed, .running ⟨session, t, counter, r.step + 1, some r.term⟩)

/-- Goes on for at most `fuel` terms. A user whose patience ends before the run does
interrupts it. -/
def toEnd [Palette] (r : Run) : Nat → Session.Outcome (Option Term)
  | 0 => r.session.conclude (.error .interrupted)
  | fuel + 1 =>
    match r.next with
    | (printed, .ended session result) => ⟨printed, session, result⟩
    | (printed, .running r) => (toEnd r fuel).after printed

end Run

/-- The result of opening a file. -/
inductive Opened where
  | refused
  | bytes (content : List UInt8)
  deriving DecidableEq, Repr

namespace Session

/-- The source name of an expression given on its own. -/
def expressionName : String := "<expr>"

/-- The source name of a line of the shell. -/
def shellName : String := "<in>"

/-- Lists the tokens if asked to, and begins the reduction of what they spell. -/
def start [Palette] (s : Session) (lexemes : List Lexeme) : Styled × Progress :=
  let listing :=
    if s.showTokens then lexemes.flatMap fun l => Styled.line (.faint (lexemeText l)) else []
  match parse lexemes with
  | .error e => (listing, .ended s (.error (.ofParseFailure e)))
  | .ok t => (listing, .running ⟨s, t, 0, 0, none⟩)

/-- Begins a run of `text`, called `path` in reports. -/
def startText [Palette] (s : Session) (text path : String) : Styled × Progress :=
  let lines := (Text.splitAfterNewlines text.toList).map String.ofList
  { s with reporter := s.reporter.register path lines }.start (lex text)

/-- A failure to open the file at `path`. -/
def cannotOpen [Palette] (path : String) : Failure :=
  .general
    { message := .plain "'" ++ .bold path ++ .plain "' could not be opened", excerpt := false }

/-- Begins a run of the file at `path`. -/
def startFile [Palette] (s : Session) (path : String) (file : Opened) : Styled × Progress :=
  if path.toList.contains '\x00' then ([], .ended s (.error (.unforeseen .nullInPath)))
  else
    match file with
    | .refused => ([], .ended s (.error (.failure (cannotOpen path))))
    | .bytes content =>
      let (text, reader) := (Reader.ofBytes content).rest
      let s := { s with reporter := s.reporter.register path reader.lines }
      match text with
      | .error f => ([], .ended s (.error (.unforeseen (.undecodable f))))
      | .ok cs => s.start (lexFrom .origin cs)

/-- How many terms a run is followed for: past its budget, or for as long as the user has
`patience`. -/
def horizon (s : Session) (patience : Nat) : Nat :=
  match s.budget with
  | some n => n.toNat + 2
  | none => patience

/-- Follows a run to its end. -/
def complete [Palette] (patience : Nat) : Styled × Progress → Outcome (Option Term)
  | (printed, .ended s result) => ⟨printed, s, result⟩
  | (printed, .running r) => (r.toEnd (r.session.horizon patience)).after printed

/-- Runs `text`. The result is the last term handed on, if any was. -/
def runText [Palette] (s : Session) (patience : Nat) (text path : String) :
    Outcome (Option Term) :=
  complete patience (s.startText text path)

/-- Runs the file at `path`. -/
def runFile [Palette] (s : Session) (patience : Nat) (path : String) (file : Opened) :
    Outcome (Option Term) :=
  complete patience (s.startFile path file)

/-- A run with its fault reported; a fault ends here unless it goes on to the caller. -/
def Outcome.guarded [Palette] {α : Type} (o : Outcome α) : Outcome (Option α) :=
  let settled := o.session.reporter.settle o.result
  ⟨o.printed ++ settled.printed, { o.session with reporter := settled.reporter }, settled.result⟩

end Session

end NormalOrder
