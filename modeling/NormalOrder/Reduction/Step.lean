import NormalOrder.Reduction.Substitution

namespace NormalOrder.Term

mutual

/-- The term with its leftmost outermost redex contracted, or nothing if it is a normal form. -/
def step : Term → Naming (Option Term)
  | .var _ => pure none
  | .lam x b => return (← step b).map (.lam x)
  | .app (.lam x b) a rest => return some ((← b.substitute x a).applyTo rest)
  | .app f a rest => do
    match ← step f with
    | some f => return some (.app f a rest)
    | none =>
      match ← step a with
      | some a => return some (.app f a rest)
      | none => return (← stepFirst rest).map (.app f a)

/-- The elements after one step in the first of them that is no normal form. -/
def stepFirst : List Term → Naming (Option (List Term))
  | [] => pure none
  | t :: ts => do
    match ← step t with
    | some t => return some (t :: ts)
    | none => return (← stepFirst ts).map (t :: ·)

end

end NormalOrder.Term
