namespace NormalOrder.Text

/-- Membership in increasing inclusive ranges. The search stops at the first range above `n`. -/
def inRanges (n : Nat) : List (Nat × Nat) → Bool
  | [] => false
  | (lo, hi) :: rest => lo ≤ n && (n ≤ hi || inRanges n rest)

end NormalOrder.Text
