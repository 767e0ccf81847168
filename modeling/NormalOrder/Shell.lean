import NormalOrder.Session
import NormalOrder.Text.Blank

namespace NormalOrder

open Text (Palette Styled)

/-- What a new term is asked for with. -/
def Shell.primaryPrompt : String := "> "

/-- What the next line of an unfinished term is asked for with. -/
def Shell.secondaryPrompt : String := ". "

/-- A shell takes lines. A line is a command or a term; a term whose brackets are open goes on in
the next line. -/
structure Shell where
  session : Session
  /-- The lines of an unfinished term, each with its line feed. -/
  pending : String := ""
  prompt : String := Shell.primaryPrompt
  deriving DecidableEq, Repr

inductive Command where
  | nothing
  | help
  | exit
  | endOfInput
  /-- Anything that is no command is (part of) a term. -/
  | term (line : String)
  deriving DecidableEq, Repr

namespace Command

/-- A character of a command word. -/
def isWordChar (c : Char) : Bool := c.isAlphanum || c = '_'

/-- Reads a line: a command word may be followed by anything else, a question mark asks for help,
and an exclamation mark makes a term of any line. -/
def ofLine (line : String) : Command :=
  match Text.trimBlank line.toList with
  | [] => .nothing
  | '?' :: _ => .help
  | '!' :: cs => .term (String.ofList ('!' :: cs))
  | cs =>
    match String.ofList (cs.takeWhile isWordChar) with
    | "help" => .help
    | "exit" => .exit
    | "EOF" => .endOfInput
    | _ => .term (String.ofList cs)

end Command

namespace Shell

def intro : String :=
  "Lambda calculus interpreter :: Python backend\nType '?' or 'help' for more information.\n"

def helpText : String :=
  "Welcome to the lcpipe interpreter!\n\n"
    ++ "Type a λ-term to see every step of its normal-order reduction. Both 'λ' and \n"
    ++ "'\\' introduce an abstraction, and 'λx y.e' is short for 'λx.λy.e'.\n\n"
    ++ "Try it out by typing '(λx.x) y'. This will apply the identity to 'y', giving \n"
    ++ "'y' as the result. Terms without a normal form reduce forever: use Ctrl-C to \n"
    ++ "stop them.\n"

/-- Whether brackets are left open. -/
def needsContinuation (text : String) : Bool :=
  text.toList.count ')' < text.toList.count '('

/-- What a line leads to. -/
inductive Response where
  /-- The shell goes on, or stops, after printing something. -/
  | done (printed : Styled) (shell : Shell) (stop : Bool)
  /-- A finished term is to be run. -/
  | run (shell : Shell) (text : String)

/-- Takes a line that is no command. -/
def offer (sh : Shell) (line : String) : Response :=
  let text := sh.pending ++ line
  if needsContinuation text then
    .done [] { sh with pending := text ++ "\n", prompt := secondaryPrompt } false
  else .run { sh with pending := "", prompt := primaryPrompt } text

/-- Carries out a command, up to the run that it may ask for. -/
def obey (sh : Shell) : Command → Response
  | .nothing => .done [] sh false
  | .help => .done (.plain helpText) sh false
  | .exit => .done [] sh true
  | .endOfInput => .done (.plain "\n") sh true
  | .term line => sh.offer line

/-- Takes a line. -/
def accept (sh : Shell) (line : String) : Response := sh.obey (.ofLine line)

/-- Makes the run that is asked for. Gives what is printed, the shell afterwards, and whether it
stops. -/
def Response.finish [Palette] (patience : Nat) : Response → Styled × Shell × Except Fault Bool
  | .done printed sh stop => (printed, sh, .ok stop)
  | .run sh text =>
    let o := (sh.session.runText patience text Session.shellName).guarded
    (o.printed, { sh with session := o.session }, o.result.map fun _ => false)

/-- Takes a line and runs the term it finishes. -/
def feed [Palette] (sh : Shell) (patience : Nat) (line : String) :
    Styled × Shell × Except Fault Bool :=
  (sh.accept line).finish patience

end Shell

end NormalOrder
