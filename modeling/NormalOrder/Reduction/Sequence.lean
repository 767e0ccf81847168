import NormalOrder.Reduction.Step

namespace NormalOrder

namespace Term

/-- The first `n` terms of the reduction that stands at `t` with the names below `counter` drawn,
and whether the last of them is known to be a normal form. -/
def reductsFrom (counter : Int) (t : Term) : Nat → Except Clash (List Term × Bool)
  | 0 => .ok ([], false)
  | n + 1 =>
    match t.step counter with
    | (.error clash, _) => .error clash
    | (.ok none, _) => .ok ([t], true)
    | (.ok (some u), counter) => do
      let (ts, done) ← reductsFrom counter u n
      return (t :: ts, done)

/-- The first `n` terms of the reduction of `t`, beginning with `t` itself. Names are numbered from
zero, so equal terms have equal reductions. -/
def reducts (t : Term) (n : Nat) : Except Clash (List Term × Bool) := reductsFrom 0 t n

/-- A term that a bounded reduction ends at. -/
structure Reduct where
  term : Term
  steps : Int
  isNormal : Bool
  deriving DecidableEq, Repr

/-- Reduces `t`, which was reached after `steps` steps, by at most `n` further ones. -/
def reduceFrom (counter : Int) (t : Term) (steps : Nat) (n : Nat) : Except Clash Reduct :=
  match t.step counter, n with
  | (.error clash, _), _ => .error clash
  | (.ok none, _), _ => .ok ⟨t, steps, true⟩
  | (.ok (some _), _), 0 => .ok ⟨t, steps, false⟩
  | (.ok (some u), counter), n + 1 => reduceFrom counter u (steps + 1) n

/-- Why a number of terms cannot be asked for. -/
inductive CountError where
  | negative
  /-- It is minus one, or no machine word. -/
  | unreadable
  deriving DecidableEq, Repr

def CountError.message : CountError → String
  | .negative => "Indices for islice() must be None or an integer: 0 <= x <= sys.maxsize."
  | .unreadable => "Stop argument for islice() must be None or an integer: 0 <= x <= sys.maxsize."

/-- Why a reduction has no result. -/
inductive ReduceError where
  | clash (c : Clash)
  | count (e : CountError)
  deriving DecidableEq, Repr

/-- The largest number of terms that can be asked for, the greatest machine word. -/
def maxTerms : Int := 0x7fffffffffffffff

/-- A number of terms that can be asked for. -/
def termCount (n : Int) : Except CountError Nat :=
  if n = -1 || n < -maxTerms - 1 || maxTerms < n then .error .unreadable
  else if n < 0 then .error .negative
  else .ok n.toNat

/-- The first terms of the reduction of `t`, as many as `count` says. -/
def reductsUpTo (count : Int) (t : Term) : Except ReduceError (List Term × Bool) :=
  match termCount count with
  | .error e => .error (.count e)
  | .ok n => (t.reducts n).mapError .clash

/-- Reduces `t` by at most `budget` steps. A budget of minus one stops before the first look at `t`,
and one of minus two does not even see that there is a term; both count minus one steps. -/
def reduceWithin (budget : Int) (t : Term) : Except ReduceError Reduct :=
  match termCount (budget + 2) with
  | .error e => .error (.count e)
  | .ok 0 => .ok ⟨t, -1, true⟩
  | .ok 1 => .ok ⟨t, -1, false⟩
  | .ok (n + 2) => (reduceFrom 0 t 0 n).mapError .clash

/-- Reduces `t` to its normal form, or by `patience` steps if it has none by then. -/
def reduceFully (patience : Nat) (t : Term) : Except ReduceError Reduct :=
  (reduceFrom 0 t 0 patience).mapError .clash

end Term

end NormalOrder
