import NormalOrder.Term.Printer
import NormalOrder.Text.Styled

namespace NormalOrder

open Text (Palette Styled)

/-- A sink that prints terms. A quiet trace prints the last one only. -/
structure Trace where
  quiet : Bool
  /-- How many terms of the present run it was given. -/
  steps : Nat := 0
  last : Option Term := none
  /-- After how many terms of a run the user interrupts; this happens once. -/
  interruptAfter : Option Int := none
  deriving DecidableEq, Repr

namespace Trace

/-- The line of a term. The first of a run has no mark, the others are reducts. -/
def entry [Palette] (tr : Trace) (t : Term) : Styled :=
  Styled.line ((if tr.steps = 0 then .plain " " else .boldIn .cyan "β") ++ .plain (" " ++ t.text))

/-- Takes a term. Gives what is printed, and whether the user interrupts right after it. -/
def put [Palette] (tr : Trace) (t : Term) : Styled × Trace × Bool :=
  let interrupted : Bool := tr.interruptAfter = some (tr.steps + 1 : Int)
  (if tr.quiet then [] else tr.entry t,
    { tr with
      steps := tr.steps + 1
      last := some t
      interruptAfter := if interrupted then none else tr.interruptAfter },
    interrupted)

/-- Ends a run. -/
def close (tr : Trace) : Styled × Trace :=
  let printed :=
    match tr.quiet, tr.last with
    | true, some t => Styled.line (.plain t.text)
    | _, _ => []
  (printed, { tr with steps := 0, last := none })

end Trace

/-- A sink takes the terms of a reduction one by one. -/
inductive Sink where
  | trace (t : Trace)
  /-- Collects the terms, in order. -/
  | collect (terms : List Term)
  deriving DecidableEq, Repr

namespace Sink

def put [Palette] (s : Sink) (t : Term) : Styled × Sink × Bool :=
  match s with
  | .trace tr =>
    let (printed, tr, interrupted) := tr.put t
    (printed, .trace tr, interrupted)
  | .collect ts => ([], .collect (ts ++ [t]), false)

def close : Sink → Styled × Sink
  | .trace tr =>
    let (printed, tr) := tr.close
    (printed, .trace tr)
  | .collect ts => ([], .collect ts)

end Sink

end NormalOrder
