import NormalOrder.Reduction.Renaming

namespace NormalOrder.Term

mutual

/-- Replaces the free occurrences of `old` by `value`. Every binder on the way is renamed to a
generated name, whether or not a capture threatens. -/
def substitute (t : Term) (old : String) (value : Term) : Naming Term :=
  match t with
  | .var x => pure (if x = old then value else .var x)
  | .lam x b =>
    if x = old then pure (.lam x b)
    else do
      let new ← fresh
      checkRename x b new
      return .lam new (← (b.rename x new).substitute old value)
  | .app f a rest => do
    let f ← f.substitute old value
    let a ← a.substitute old value
    return .app f a (← substituteAll rest old value)
termination_by t.size
decreasing_by all_goals simp only [size, size_rename]; omega

def substituteAll (ts : List Term) (old : String) (value : Term) : Naming (List Term) :=
  match ts with
  | [] => pure []
  | t :: ts => do
    let t ← t.substitute old value
    return t :: (← substituteAll ts old value)
termination_by sizeAll ts
decreasing_by all_goals simp only [sizeAll]; omega

end

end NormalOrder.Term
