import NormalOrder.Text.Decimal
import NormalOrder.Text.Quoted

namespace NormalOrder.CommandLine

/-- An option of the program. -/
inductive Flag where
  | help
  | expr
  | steps
  | quiet
  | tokens
  deriving DecidableEq, Repr

namespace Flag

def all : List Flag := [.help, .expr, .steps, .quiet, .tokens]

def long : Flag → String
  | .help => "--help"
  | .expr => "--expr"
  | .steps => "--steps"
  | .quiet => "--quiet"
  | .tokens => "--tokens"

def short? : Flag → Option Char
  | .help => some 'h'
  | .expr => some 'e'
  | .steps => some 'n'
  | .quiet => some 'q'
  | .tokens => none

/-- Whether the option needs a value. -/
def takesValue : Flag → Bool
  | .expr | .steps => true
  | _ => false

/-- The option's spellings, as errors cite them. -/
def spellings (f : Flag) : String :=
  match f.short? with
  | some c => "-" ++ c.toString ++ "/" ++ f.long
  | none => f.long

def ofShort? (c : Char) : Option Flag := all.find? fun f => f.short? = some c

def ofLong? (s : String) : Option Flag := all.find? fun f => f.long = s

end Flag

inductive UsageError where
  | ambiguous (arg : String) (candidates : List Flag)
  | expectedValue (flag : Flag)
  | unwantedValue (flag : Flag) (value : String)
  | notInteger (value : String)
  | unrecognized (args : List String)
  deriving DecidableEq, Repr

def UsageError.message : UsageError → String
  | .ambiguous arg candidates =>
    "ambiguous option: " ++ arg ++ " could match " ++ ", ".intercalate (candidates.map Flag.long)
  | .expectedValue flag => "argument " ++ flag.spellings ++ ": expected one argument"
  | .unwantedValue flag value =>
    "argument " ++ flag.spellings ++ ": ignored explicit argument " ++ Text.quoted value
  | .notInteger value =>
    "argument " ++ Flag.steps.spellings ++ ": invalid int value: " ++ Text.quoted value
  | .unrecognized args => "unrecognized arguments: " ++ " ".intercalate args

/-- The value of an option. -/
inductive Value (α : Type) where
  | absent
  /-- The option was given the double dash, which is no value. -/
  | hollow
  | given (a : α)
  deriving DecidableEq, Repr

structure Options where
  file : Option String := none
  expr : Value String := .absent
  steps : Value Int := .absent
  quiet : Bool := false
  tokens : Bool := false
  deriving DecidableEq, Repr

/-- What an argument looks like, seen on its own. -/
inductive Argument where
  /-- An option, with what is written in the same argument. -/
  | flag (flag : Flag) (isShort : Bool) (attached : Option String)
  /-- Something like an option that is none. -/
  | unknown (arg : String)
  | value (arg : String)
  /-- The first double dash. -/
  | separator
  deriving DecidableEq, Repr

/-- Digits, or digits with a decimal point and more digits after it; a last line feed does not
count. -/
def isNumeral (cs : List Char) : Bool :=
  let isDigit (c : Char) : Bool := (Text.digitValue? c).isSome
  let cs := if cs.getLast? = some '\n' then cs.dropLast else cs
  match cs.dropWhile isDigit with
  | [] => !cs.isEmpty
  | '.' :: ds => !ds.isEmpty && ds.all isDigit
  | _ => false

/-- An argument cut at its first equals sign. -/
def cutAtEquals (cs : List Char) : List Char × Option (List Char) :=
  match cs.dropWhile (· ≠ '=') with
  | [] => (cs, none)
  | _ :: value => (cs.takeWhile (· ≠ '='), some value)

/-- An argument of at least two characters that begins with a dash and is no exact option: a number
or a text with a space in it is a value after all. -/
def nonOption (arg : String) : Argument :=
  let cs := arg.toList
  if isNumeral (cs.drop 1) || cs.contains ' ' then .value arg else .unknown arg

/-- Classifies one argument before the double dash. -/
def classify (arg : String) : Except UsageError Argument :=
  match arg.toList with
  | '-' :: '-' :: cs =>
    let (name, value) := cutAtEquals ('-' :: '-' :: cs)
    let value := value.map String.ofList
    match Flag.ofLong? (String.ofList name) with
    | some f => .ok (.flag f false value)
    | none =>
      match Flag.all.filter fun f => name.isPrefixOf f.long.toList with
      | [] => .ok (nonOption arg)
      | [f] => .ok (.flag f false value)
      | fs => .error (.ambiguous arg fs)
  | '-' :: c :: cs =>
    match Flag.ofShort? c with
    | none => .ok (nonOption arg)
    | some f =>
      match cs with
      | [] => .ok (.flag f true none)
      | '=' :: value => .ok (.flag f true (some (String.ofList value)))
      | _ => .ok (.flag f true (some (String.ofList cs)))
  | _ => .ok (.value arg)

/-- Classifies the arguments in order; all that follow the double dash are values. -/
def classifyAll : List String → Except UsageError (List Argument)
  | [] => .ok []
  | "--" :: args => .ok (.separator :: args.map .value)
  | arg :: args => do
    let first ← classify arg
    return first :: (← classifyAll args)

/-- An option to be carried out, with its value if it takes one. -/
abbrev Action := Flag × Option String

/-- An option with nothing attached. `following` is the value that stands next, if one does. Also
tells whether that one was used. -/
def alone (following : Option String) (flag : Flag) : Except UsageError (List Action × Bool) :=
  if flag.takesValue then
    match following with
    | some value => .ok ([(flag, some value)], true)
    | none => .error (.expectedValue flag)
  else .ok ([(flag, none)], false)

/-- A short option and what is written after it in the same argument: its value if it takes one, and
more short options if it does not. -/
def cluster (following : Option String) (flag : Flag) :
    List Char → Except UsageError (List Action × Bool)
  | [] => alone following flag
  | c :: cs =>
    if flag.takesValue then .ok ([(flag, some (String.ofList (c :: cs)))], false)
    else
      match Flag.ofShort? c with
      | none => .error (.unwantedValue flag (String.ofList (c :: cs)))
      | some next => do
        let (actions, used) ← cluster following next cs
        return ((flag, none) :: actions, used)

/-- The actions of one argument. -/
def expand (following : Option String) (flag : Flag) (isShort : Bool) (attached : Option String) :
    Except UsageError (List Action × Bool) :=
  match attached with
  | none => alone following flag
  | some value =>
    if flag.takesValue then .ok ([(flag, some value)], false)
    else if isShort && value ≠ "" then cluster following flag value.toList
    else .error (.unwantedValue flag value)

/-- What the arguments ask for. -/
inductive Request where
  | help
  | run (options : Options)
  deriving DecidableEq, Repr

/-- Carries out the actions of one argument; nothing is left to do once help was asked for. -/
def perform (o : Options) : List Action → Except UsageError (Option Options)
  | [] => .ok (some o)
  | (.help, _) :: _ => .ok none
  | (.quiet, _) :: rest => perform { o with quiet := true } rest
  | (.tokens, _) :: rest => perform { o with tokens := true } rest
  | (.expr, value) :: rest =>
    let value := value.getD ""
    perform { o with expr := if value = "--" then .hollow else .given value } rest
  | (.steps, value) :: rest =>
    let value := value.getD ""
    if value = "--" then perform { o with steps := .hollow } rest
    else
      match Text.integer? value.toList with
      | some n => perform { o with steps := .given n } rest
      | none => .error (.notInteger value)

/-- Goes through the classified arguments. `filled` tells whether the file was met, `extras` holds
the arguments that nothing could be made of. -/
def collect (o : Options) (filled : Bool) (extras : List String) :
    List Argument → Except UsageError Request
  | [] => if extras.isEmpty then .ok (.run o) else .error (.unrecognized extras)
  | .unknown arg :: rest => collect o filled (extras ++ [arg]) rest
  | .value arg :: .separator :: rest =>
    if filled then collect o filled (extras ++ [arg, "--"]) rest
    else collect { o with file := some arg } true extras rest
  | .value arg :: rest =>
    if filled then collect o filled (extras ++ [arg]) rest
    else collect { o with file := some arg } true extras rest
  | .separator :: rest =>
    if filled then collect o filled (extras ++ ["--"]) rest else collect o filled extras rest
  | .flag f isShort attached :: .value v :: rest => do
    let (actions, used) ← expand (some v) f isShort attached
    match ← perform o actions with
    | none => return .help
    | some o =>
      if used then collect o filled extras rest else collect o filled extras (.value v :: rest)
  | .flag f isShort attached :: rest => do
    let (actions, _) ← expand none f isShort attached
    match ← perform o actions with
    | none => return .help
    | some o => collect o filled extras rest
termination_by args => args.length

/-- Reads the arguments of the program. -/
def parse (args : List String) : Except UsageError Request := do
  collect {} false [] (← classifyAll args)

def usage : String := "usage: lcpipe [-h] [-e EXPR] [-n STEPS] [-q] [--tokens] [file]\n"

def helpText : String :=
  usage ++ "\n"
    ++ "Normal-order reducer for the untyped λ-calculus.\n\n"
    ++ "positional arguments:\n"
    ++ "  file                  file to interpret and run (if empty, goes to command-\n"
    ++ "                        line mode)\n\n"
    ++ "options:\n"
    ++ "  -h, --help            show this help message and exit\n"
    ++ "  -e EXPR, --expr EXPR  λ-term to run instead of a file\n"
    ++ "  -n STEPS, --steps STEPS\n"
    ++ "                        stop after this many reduction steps (default: no\n"
    ++ "                        limit)\n"
    ++ "  -q, --quiet           only print the last term\n"
    ++ "  --tokens              print the token stream before parsing\n"

/-- What is said about a wrong command line. -/
def complaint (e : UsageError) : String := usage ++ "lcpipe: error: " ++ e.message ++ "\n"

end NormalOrder.CommandLine
