import NormalOrder.Shell
import NormalOrder.CommandLine

namespace NormalOrder

open Text (Palette Styled)

/-- What the program is doing. -/
inductive Activity where
  /-- Running the source given on the command line. -/
  | reducing (run : Run)
  /-- Running a line of the shell. -/
  | evaluating (shell : Shell) (run : Run)
  /-- Waiting for a line; the prompt was printed. -/
  | prompting (shell : Shell)
  /-- Done, with an exit or another fault to pass on. -/
  | finished (result : Except Fault Unit)

namespace Activity

/-- Leaves the program. Its whole work is guarded, so a fault is reported here at the latest. -/
def leave [Palette] (r : Reporter) (result : Except Fault Unit) : Styled × Activity :=
  let settled := r.settle result
  (settled.printed, .finished (settled.result.map fun _ => ()))

/-- Asks for the next line. -/
def ask (sh : Shell) : Styled × Activity := (.plain sh.prompt, .prompting sh)

/-- Adds what was printed before. -/
def after (printed : Styled) (next : Styled × Activity) : Styled × Activity :=
  (printed ++ next.1, next.2)

/-- Goes on with a run from the command line. -/
def ofProgress [Palette] : Styled × Progress → Styled × Activity
  | (printed, .running r) => (printed, .reducing r)
  | (printed, .ended s result) => after printed (leave s.reporter (result.map fun _ => ()))

/-- Goes on with a run of a line of the shell. Its faults are reported before the next prompt. -/
def ofShellProgress [Palette] (sh : Shell) : Styled × Progress → Styled × Activity
  | (printed, .running r) => (printed, .evaluating sh r)
  | (printed, .ended s result) =>
    let o := Session.Outcome.guarded ⟨printed, s, result⟩
    match o.result with
    | .ok _ => after o.printed (ask { sh with session := o.session })
    | .error fault => after o.printed (leave o.session.reporter (.error fault))

/-- Takes a line at the prompt; the end of the input is the command of that name. -/
def answer [Palette] (sh : Shell) (line : Option String) : Styled × Activity :=
  match sh.accept (line.getD "EOF") with
  | .done printed sh false => after printed (ask sh)
  | .done printed sh true => after printed (leave sh.session.reporter (.ok ()))
  | .run sh text => ofShellProgress sh (sh.session.startText text Session.shellName)

/-- One move of the program. Only at a prompt is `line` looked at. -/
def advance [Palette] (a : Activity) (line : Option String) : Styled × Activity :=
  match a with
  | .reducing r => ofProgress r.next
  | .evaluating sh r => ofShellProgress sh r.next
  | .prompting sh => answer sh line
  | .finished result => ([], .finished result)

end Activity

namespace Program

/-- What a program leaves behind at its start. -/
structure Started where
  printed : Styled
  complaint : String
  activity : Activity

/-- The reporter of a whole program ends it at the first failure. -/
def reporter : Reporter := { fatal := true }

/-- Begins with an activity that was reached by printing. -/
def Started.ofMove (move : Styled × Activity) : Started := ⟨move.1, "", move.2⟩

def negativeSteps : ExitStatus := .message "lcpipe: error: --steps must not be negative"

/-- Runs what the options ask for: an expression, or else a file, or else the shell. -/
def startWith [Palette] (files : String → Opened) (o : CommandLine.Options) (steps : Option Int) :
    Styled × Activity :=
  let session : Session :=
    { reporter, sink := .trace { quiet := o.quiet }, budget := steps, showTokens := o.tokens }
  match o.expr, o.file with
  | .given text, _ => Activity.ofProgress (session.startText text Session.expressionName)
  | .hollow, _ =>
    Activity.leave reporter (.error (.unforeseen .hollowExpression))
  | .absent, some path => Activity.ofProgress (session.startFile path (files path))
  | .absent, none =>
    let shell : Shell := { session := { session with reporter := { fatal := false } } }
    Activity.after (.plain Shell.intro) (Activity.ask shell)

/-- Begins with options that were understood. -/
def startOptions [Palette] (files : String → Opened) (o : CommandLine.Options) :
    Styled × Activity :=
  match o.steps with
  | .absent => startWith files o none
  | .hollow => Activity.leave reporter (.error (.unforeseen .hollowSteps))
  | .given n =>
    if n < 0 then Activity.leave reporter (.error (.exit negativeSteps))
    else startWith files o (some n)

/-- Begins the program with its arguments. -/
def start [Palette] (files : String → Opened) (args : List String) : Started :=
  match CommandLine.parse args with
  | .error e => ⟨[], CommandLine.complaint e, .finished (.error (.exit (.code 2)))⟩
  | .ok .help => ⟨.plain CommandLine.helpText, "", .finished (.error (.exit (.code 0)))⟩
  | .ok (.run o) => .ofMove (startOptions files o)

/-- Lets the program go on for at most `patience` moves, with the lines of its input. -/
def toEnd [Palette] (lines : List String) (a : Activity) : Nat → Styled × Except Fault Unit
  | 0 => ([], .error .interrupted)
  | patience + 1 =>
    match a with
    | .finished result => ([], result)
    | .prompting sh =>
      let (printed, a) := Activity.answer sh lines.head?
      let (later, result) := toEnd lines.tail a patience
      (printed ++ later, result)
    | a =>
      let (printed, a) := a.advance none
      let (later, result) := toEnd lines a patience
      (printed ++ later, result)

/-- The lines of an input; the last may lack its line feed. -/
def inputLines (input : String) : List String :=
  (Text.lines input.toList).map fun cs =>
    String.ofList (if cs.getLast? = some '\n' then cs.dropLast else cs)

/-- Runs the whole program: what it prints, what it complains about, and how it ends. -/
def run [Palette] (files : String → Opened) (patience : Nat) (args : List String) (input : String) :
    Styled × String × Except Fault Unit :=
  let started := start files args
  let (printed, result) := toEnd (inputLines input) started.activity patience
  (started.printed ++ printed, started.complaint, result)

end Program

end NormalOrder
