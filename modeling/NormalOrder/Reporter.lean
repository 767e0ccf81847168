import NormalOrder.Fault

namespace NormalOrder

open Text (Colour Palette Styled)

inductive Severity where
  | error
  | warning
  deriving DecidableEq, Repr

def Severity.colour : Severity → Colour
  | .error => .red
  | .warning => .magenta

def Severity.label : Severity → String
  | .error => "error: "
  | .warning => "warning: "

/-- A reporter knows the source that is being run, so that it can say where a diagnostic belongs and
show the line it is about. -/
structure Reporter where
  /-- Whether the first failure ends the program. -/
  fatal : Bool
  path : Option String := none
  lines : List String := []
  deriving DecidableEq, Repr

namespace Reporter

/-- Begins a source. -/
def register (r : Reporter) (path : String) (lines : List String) : Reporter :=
  { r with path := some path, lines := lines }

/-- Forgets the source. -/
def remove (r : Reporter) : Reporter := { r with path := none, lines := [] }

/-- The path, and the row and column counted from one, as far as they are known. -/
def locate (r : Reporter) (span : Option Span) : String :=
  match r.path, span with
  | none, _ => ""
  | some path, none => path ++ ": "
  | some path, some s =>
    path ++ ":" ++ toString (s.first.row + 1) ++ ":" ++ toString (s.first.column + 1) ++ ": "

/-- The line feeds at the end of a line dropped. -/
def bareLine (line : String) : List Char :=
  (line.toList.reverse.dropWhile (· = '\n')).reverse

/-- The column after the part of a line of `length` characters that `s` marks: at least one column,
and the rest of the line if the span goes on below. -/
def endColumn (s : Span) (length : Nat) : Nat :=
  let stop := if s.last.row = s.first.row then s.last.column + 1 else length
  max (min stop length) (s.first.column + 1)

/-- The line of the span with the marked part set off, and below it an underline. -/
def excerpt [Palette] (r : Reporter) (severity : Severity)
    (span : Option Span) : Option Styled := do
  let s ← span
  let line ← r.lines[s.first.row]?
  let cs := bareLine line
  let start := s.first.column
  let stop := endColumn s cs.length
  let marked := (cs.drop start).take (stop - start)
  let underline := '^' :: List.replicate (stop - start - 1) '~'
  return .plain ("  " ++ String.ofList (cs.take start))
    ++ .boldIn severity.colour (String.ofList marked)
    ++ .plain (String.ofList (cs.drop stop) ++ "\n  " ++ String.ofList (List.replicate start ' '))
    ++ .boldIn severity.colour (String.ofList underline)

/-- The headline of a report. -/
def headline [Palette] (r : Reporter) (severity : Severity) (d : Diagnostic) : Styled :=
  let blame : Styled := if d.internal then .boldIn severity.colour "[internal] " else []
  .bold (r.locate d.span) ++ blame ++ .boldIn severity.colour severity.label ++ d.message

/-- What is printed about a diagnostic. -/
def report [Palette] (r : Reporter) (severity : Severity) (d : Diagnostic) : Styled :=
  let shown := if !d.internal && d.excerpt then r.excerpt severity d.span else none
  (r.headline severity d).line ++ (shown.map Styled.line).getD []

/-- Reports a failure, what it sums up first. Gives what is printed and the reporter afterwards, or
the exit if the reporter is fatal. -/
def throw [Palette] (r : Reporter) (f : Failure) : Styled × Except Fault Reporter :=
  let printed := (f.causes ++ [f.diagnostic]).flatMap (r.report .error)
  (printed, if r.fatal then .error (.exit (.code 1)) else .ok r.remove)

/-- The failure that a fault is reported as; an exit is not reported. -/
def failureOf [Palette] : Fault → Option Failure
  | .failure f => some f
  | .interrupted => some (.general { message := .plain "keyboard interrupt", excerpt := false })
  | .tooDeep =>
    some (.general
      { message := .plain "term is too deeply nested, maximum recursion depth exceeded" })
  | .exit _ => none
  | .unforeseen u =>
    some (.general
      { message := .plain "unknown error: '" ++ .bold (u.label ++ ": " ++ u.message) ++ .plain "'"
        internal := true })

/-- Whether a fault goes on to the caller after it was reported. -/
def passesOn : Fault → Bool
  | .exit _ | .unforeseen _ => true
  | _ => false

/-- What is left after a guarded piece of work: a fault in it is reported, and either ends there or
goes on to the caller. -/
structure Settled (α : Type) where
  printed : Styled
  reporter : Reporter
  /-- Nothing if a fault ended here. -/
  result : Except Fault (Option α)

def settle [Palette] {α : Type} (r : Reporter) : Except Fault α → Settled α
  | .ok a => ⟨[], r, .ok (some a)⟩
  | .error fault =>
    match failureOf fault with
    | none => ⟨[], r, .error fault⟩
    | some f =>
      match r.throw f with
      | (printed, .error exit) => ⟨printed, r, .error exit⟩
      | (printed, .ok r) => ⟨printed, r, if passesOn fault then .error fault else .ok none⟩

end Reporter

end NormalOrder
