import NormalOrder.Proofs.FirstRedex
import NormalOrder.Proofs.Runs

namespace NormalOrder.Term

open Naming

variable {t u : Term} {c d : Int}

/-- Before a state of the reduction there are only states that a step leads on from. -/
theorem exists_step_of_lt {k m : Nat} {s : Term × Int} (h : stateAfter c t k = some s) (hm : m < k) :
    ∃ v e w e', stateAfter c t m = some (v, e) ∧ Yields v.step e (some w) e' := by
  induction m generalizing t c k with
  | zero =>
    obtain ⟨k, rfl⟩ : ∃ l, k = l + 1 := ⟨k - 1, by omega⟩
    obtain ⟨w, e, hw, -⟩ := stateAfter_succ h
    exact ⟨t, c, w, e, rfl, hw⟩
  | succ m ih =>
    obtain ⟨k, rfl⟩ : ∃ l, k = l + 1 := ⟨k - 1, by omega⟩
    obtain ⟨w, e, hw, hrest⟩ := stateAfter_succ h
    obtain ⟨v, e', w', e'', hv, hstep⟩ := ih hrest (by omega)
    exact ⟨v, e', w', e'', by rw [stateAfter_step hw, hv], hstep⟩

/-- A term with none of the names that are still to be drawn is a normal form, or has a next term of
that kind. -/
theorem normal_or_next (hfresh : t.FreshFrom c) :
    Yields t.step c none c ∨ ∃ v d, Yields t.step c (some v) d ∧ v.FreshFrom d := by
  obtain ⟨r, d, hstep, hspec⟩ := step_spec t c hfresh
  cases r with
  | none =>
    obtain ⟨rfl, -⟩ := hspec
    exact .inl hstep
  | some v =>
    obtain ⟨hdrawn, -⟩ := hspec
    exact .inr ⟨v, d, hstep, hdrawn.freshFrom hfresh⟩

/-- A reduction comes to a normal form within `n` steps, or can make one more after them. -/
theorem exists_last_state (hfresh : t.FreshFrom c) (n : Nat) :
    (∃ k u d, k ≤ n ∧ stateAfter c t k = some (u, d) ∧ Yields u.step d none d) ∨
      ∃ u d v e, stateAfter c t n = some (u, d) ∧ Yields u.step d (some v) e := by
  induction n generalizing t c with
  | zero =>
    obtain hnormal | ⟨v, d, hstep, -⟩ := normal_or_next hfresh
    · exact .inl ⟨0, t, c, Nat.le_refl 0, rfl, hnormal⟩
    · exact .inr ⟨t, c, v, d, rfl, hstep⟩
  | succ n ih =>
    obtain hnormal | ⟨v, d, hstep, hv⟩ := normal_or_next hfresh
    · exact .inl ⟨0, t, c, Nat.zero_le _, rfl, hnormal⟩
    · obtain ⟨k, u, e, hk, hu, hnormal⟩ | ⟨u, e, w, e', hu, hnext⟩ := ih hv
      · exact .inl ⟨k + 1, u, e, by omega, by rw [stateAfter_step hstep, hu], hnormal⟩
      · exact .inr ⟨u, e, w, e', by rw [stateAfter_step hstep, hu], hnext⟩

/-- Every budget that is large enough for the normal form gives it. -/
theorem reduceFrom_of_normal {k n : Nat} (hu : stateAfter c t k = some (u, d))
    (hnormal : Yields u.step d none d) (hn : k ≤ n) (i : Nat) :
    reduceFrom c t i n = .ok ⟨u, (i + k : Nat), true⟩ := by
  induction k generalizing t c i n with
  | zero =>
    cases hu
    exact reduceFrom_normal hnormal i n
  | succ k ih =>
    obtain ⟨n, rfl⟩ : ∃ m, n = m + 1 := ⟨n - 1, by omega⟩
    obtain ⟨v, e, hv, hrest⟩ := stateAfter_succ hu
    rw [reduceFrom_step hv, ih hrest (by omega), show i + 1 + k = i + (k + 1) by omega]

/-- A budget that ends before the normal form is used up. -/
theorem reduceFrom_of_step {v : Term} {e : Int} {n : Nat} (hu : stateAfter c t n = some (u, d))
    (hstep : Yields u.step d (some v) e) (i : Nat) :
    reduceFrom c t i n = .ok ⟨u, (i + n : Nat), false⟩ := by
  induction n generalizing t c i with
  | zero =>
    cases hu
    exact reduceFrom_stop hstep i
  | succ n ih =>
    obtain ⟨w, e', hw, hrest⟩ := stateAfter_succ hu
    rw [reduceFrom_step hw, ih hrest, show i + 1 + n = i + (n + 1) by omega]

/-- The term number `k` of the reduction of `t`, counted from zero, is `u`. -/
def Reaches (t : Term) (k : Nat) (u : Term) : Prop :=
  ∃ ts isNormal, t.reducts (k + 1) = .ok (ts, isNormal) ∧ ts[k]? = some u

theorem reductsFrom_of_stateAfter {r : Option Term} {e : Int} {k : Nat}
    (hu : stateAfter c t k = some (u, d)) (hstep : Yields u.step d r e) :
    ∃ ts isNormal, reductsFrom c t (k + 1) = .ok (ts, isNormal) := by
  induction k generalizing t c with
  | zero =>
    cases hu
    cases r with
    | none => exact ⟨[u], true, reductsFrom_normal hstep 0⟩
    | some v => exact ⟨[u], false, by rw [reductsFrom_step hstep]; rfl⟩
  | succ k ih =>
    obtain ⟨v, e', hv, hrest⟩ := stateAfter_succ hu
    obtain ⟨ts, isNormal, hts⟩ := ih hrest
    exact ⟨t :: ts, isNormal, by rw [reductsFrom_step hv, hts]; rfl⟩

theorem reaches_of_stateAfter {r : Option Term} {e : Int} {k : Nat}
    (hu : stateAfter 0 t k = some (u, d)) (hstep : Yields u.step d r e) : t.Reaches k u := by
  obtain ⟨ts, isNormal, hts⟩ := reductsFrom_of_stateAfter hu hstep
  have hterm := reductsFrom_stateAfter hts k
  rw [if_pos (Nat.lt_succ_self k), hu] at hterm
  exact ⟨ts, isNormal, hts, hterm⟩

theorem reduceWithin_of_normal {k n : Nat} (hu : stateAfter 0 t k = some (u, d))
    (hnormal : Yields u.step d none d) (hn : k ≤ n) (hword : (n : Int) + 2 ≤ maxTerms) :
    t.reduceWithin n = .ok ⟨u, k, true⟩ := by
  have hrun := reduceFrom_of_normal hu hnormal hn 0
  rw [reduceWithin_nat, if_pos hword, hrun, Nat.zero_add]
  rfl

theorem reduceWithin_of_step {v : Term} {e : Int} {n : Nat} (hu : stateAfter 0 t n = some (u, d))
    (hstep : Yields u.step d (some v) e) (hword : (n : Int) + 2 ≤ maxTerms) :
    t.reduceWithin n = .ok ⟨u, n, false⟩ := by
  have hrun := reduceFrom_of_step hu hstep 0
  rw [reduceWithin_nat, if_pos hword, hrun, Nat.zero_add]
  rfl

/-- What a reduction of `t` within a budget of `n` steps reports. -/
structure Reports (t : Term) (n : Nat) (last : Term) (steps : Nat) (isNormal : Bool) : Prop where
  result : t.reduceWithin n = .ok ⟨last, steps, isNormal⟩
  within : steps ≤ n
  reached : t.Reaches steps last
  normal : isNormal = true ↔ ∀ p s, last.at? p = some s → s.isRedex = false
  /-- A reduction that is stopped has used up its budget. -/
  stopped : isNormal = false → steps = n
  /-- A larger budget makes no difference to a normal form, nor does a smaller one that is enough. -/
  settled : isNormal = true → ∀ m : Nat, steps ≤ m → (m : Int) + 2 ≤ maxTerms →
    t.reduceWithin m = .ok ⟨last, steps, true⟩
  /-- A budget that is not enough is used up. -/
  earlier : isNormal = true → ∀ m : Nat, m < steps →
    ∃ u, t.Reaches m u ∧ t.reduceWithin m = .ok ⟨u, m, false⟩

theorem reports_of_normal {k n : Nat} (hu : stateAfter 0 t k = some (u, d))
    (hnormal : Yields u.step d none d) (hk : k ≤ n) (hword : (n : Int) + 2 ≤ maxTerms) :
    t.Reports n u k true := by
  refine ⟨reduceWithin_of_normal hu hnormal hk hword, hk, reaches_of_stateAfter hu hnormal, ?normal,
    by simp, fun _ m hm => reduceWithin_of_normal hu hnormal hm, ?earlier⟩
  case normal => exact iff_of_true rfl ((step_eq_none_iff hnormal).mp rfl)
  case earlier =>
    intro _ m hm
    obtain ⟨v, e, w, e', hv, hstep⟩ := exists_step_of_lt hu hm
    have hstop := reduceWithin_of_step hv hstep (by omega)
    exact ⟨v, reaches_of_stateAfter hv hstep, hstop⟩

theorem reports_of_step {v : Term} {e : Int} {n : Nat} (hu : stateAfter 0 t n = some (u, d))
    (hstep : Yields u.step d (some v) e) (hword : (n : Int) + 2 ≤ maxTerms) :
    t.Reports n u n false := by
  refine ⟨reduceWithin_of_step hu hstep hword, Nat.le_refl n, reaches_of_stateAfter hu hstep, ?normal,
    fun _ => rfl, by simp, by simp⟩
  case normal =>
    have hredex : ¬∀ p s, u.at? p = some s → s.isRedex = false := by
      rw [← step_eq_none_iff hstep]
      simp
    exact iff_of_false (by simp) hredex

/-- A reduction within a budget reports the term that it reached, after how many steps, and whether that
is a normal form. It asks for two terms more than the budget has steps, and is refused if those are more
than can be asked for. -/
theorem reduceWithin_reports (t : Term) (hfresh : t.FreshFrom 0) (n : Nat) :
    ((n : Int) + 2 ≤ maxTerms →
      ∃ (last : Term) (steps : Nat) (isNormal : Bool), t.Reports n last steps isNormal) ∧
    (maxTerms < (n : Int) + 2 → t.reduceWithin n = .error (.count .unreadable)) := by
  constructor
  · intro hword
    obtain ⟨k, u, d, hk, hu, hnormal⟩ | ⟨u, d, v, e, hu, hstep⟩ := exists_last_state hfresh n
    · exact ⟨u, k, true, reports_of_normal hu hnormal hk hword⟩
    · exact ⟨u, n, false, reports_of_step hu hstep hword⟩
  · intro hword
    rw [reduceWithin_nat, if_neg (by omega)]

/-- The normal form of `(λx.x x) (λy.y)` is reached in two steps, so a budget of two is just enough. -/
theorem reduceWithin_reports_boundary :
    let i : Term := .lam "y" (.var "y")
    let t : Term := .app (.lam "x" (.app (.var "x") (.var "x") [])) i []
    t.FreshFrom 0 ∧ ((2 : Nat) : Int) + 2 ≤ maxTerms ∧
    t.reduceWithin (2 : Nat) = .ok ⟨i, 2, true⟩ ∧
    t.reduceWithin (1 : Nat) = .ok ⟨.app i i [], 1, false⟩ ∧
    ∃ (last : Term) (steps : Nat) (isNormal : Bool), t.Reports 2 last steps isNormal := by
  intro i t
  have hfresh : t.FreshFrom 0 := freshFrom_of_written (by decide) 0
  have hword : ((2 : Nat) : Int) + 2 ≤ maxTerms := by decide
  have hlast : t.reduceWithin (2 : Nat) = .ok ⟨i, 2, true⟩ := by decide +kernel
  have hstop : t.reduceWithin (1 : Nat) = .ok ⟨.app i i [], 1, false⟩ := by decide +kernel
  exact ⟨hfresh, hword, hlast, hstop, (reduceWithin_reports t hfresh 2).1 hword⟩

/-- The variable `x` is a normal form, and is given as one within a budget of no steps and within the
largest one. With one step more the budget is refused. -/
theorem reduceWithin_refuses_largest :
    (Term.var "x").FreshFrom 0 ∧ 0 ≤ maxTerms - 1 ∧
    (Term.var "x").reduceWithin 0 = .ok ⟨.var "x", 0, true⟩ ∧
    (Term.var "x").reduceWithin (maxTerms - 2) = .ok ⟨.var "x", 0, true⟩ ∧
    (Term.var "x").reduceWithin (maxTerms - 1) = .error (.count .unreadable) := by
  refine ⟨freshFrom_of_written (by decide) 0, by decide, ?_, ?_, ?_⟩
  · decide +kernel
  · decide +kernel
  · decide +kernel

end NormalOrder.Term
