import NormalOrder.Proofs.NamelessStep

namespace NormalOrder.Term

open Naming

/-- The state of the reduction that stands at `t` with the names below `c` drawn, `k` steps later.
There is none if the reduction ends before. -/
def stateAfter (c : Int) (t : Term) : Nat → Option (Term × Int)
  | 0 => some (t, c)
  | k + 1 =>
    match t.step c with
    | (.ok (some u), d) => stateAfter d u k
    | _ => none

theorem stateAfter_step {t u : Term} {c d : Int} (h : Yields t.step c (some u) d) (k : Nat) :
    stateAfter c t (k + 1) = stateAfter d u k := by
  have hstep : t.step c = (.ok (some u), d) := h
  simp only [stateAfter, hstep]

theorem stateAfter_normal {t : Term} {c d : Int} (h : Yields t.step c none d) (k : Nat) :
    stateAfter c t (k + 1) = none := by
  have hstep : t.step c = (.ok none, d) := h
  simp only [stateAfter, hstep]

/-- A run that goes on makes a step. -/
theorem stateAfter_succ {t : Term} {c : Int} {k : Nat} {s : Term × Int}
    (h : stateAfter c t (k + 1) = some s) :
    ∃ u d, Yields t.step c (some u) d ∧ stateAfter d u k = some s := by
  rw [stateAfter] at h
  match hstep : t.step c with
  | (.ok (some u), d) => exact ⟨u, d, hstep, by rw [hstep] at h; exact h⟩
  | (.ok none, d) => rw [hstep] at h; cases h
  | (.error clash, d) => rw [hstep] at h; cases h

/-- What holds at first and is kept by every step holds of every state. -/
theorem stateAfter_invariant {P : Term → Int → Prop}
    (hstep : ∀ t c u d, P t c → Yields t.step c (some u) d → P u d) {t u : Term} {c d : Int} {k : Nat}
    (h : P t c) (hk : stateAfter c t k = some (u, d)) : P u d := by
  induction k generalizing t c with
  | zero =>
    cases hk
    exact h
  | succ k ih =>
    obtain ⟨v, e, hv, hk⟩ := stateAfter_succ hk
    exact ih (hstep t c v e h hv) hk

/-- Two states in a row are one step apart. -/
theorem yields_of_stateAfter {t u v : Term} {c d e : Int} {k : Nat}
    (hu : stateAfter c t k = some (u, d)) (hv : stateAfter c t (k + 1) = some (v, e)) :
    Yields u.step d (some v) e := by
  induction k generalizing t c with
  | zero =>
    cases hu
    obtain ⟨w, e', hw, hv⟩ := stateAfter_succ hv
    cases hv
    exact hw
  | succ k ih =>
    obtain ⟨w, c', hw, hu⟩ := stateAfter_succ hu
    rw [stateAfter_step hw] at hv
    exact ih hu hv

theorem Drawn.trans {c d e : Int} {old mid new : List String} (h : Drawn c d old mid)
    (h' : Drawn d e mid new) : Drawn c e old new := by
  have hcd := h.1
  have hde := h'.1
  refine ⟨by omega, ?_⟩
  intro x hx
  obtain hx | ⟨k, hdk, hke, rfl⟩ := h'.2 x hx
  · obtain hx | ⟨k, hck, hkd, rfl⟩ := h.2 x hx
    · exact .inl hx
    · exact .inr ⟨k, hck, by omega, rfl⟩
  · exact .inr ⟨k, by omega, hke, rfl⟩

/-- A run draws every name that it brings in. -/
theorem drawn_of_stateAfter {t u : Term} {c d : Int} {k : Nat}
    (h : stateAfter c t k = some (u, d)) : Drawn c d t.names u.names := by
  refine stateAfter_invariant (P := fun u d => Drawn c d t.names u.names) ?_
    (drawn_of_subset (List.Subset.refl _)) h
  intro v e w d hv hstep
  have hcontract : Contracts e d v w := outcome_step hstep
  exact hv.trans hcontract.drawn

theorem reductsFrom_normal {t : Term} {c d : Int} (h : Yields t.step c none d) (n : Nat) :
    reductsFrom c t (n + 1) = .ok ([t], true) := by
  have hstep : t.step c = (.ok none, d) := h
  rw [reductsFrom, hstep]

theorem reductsFrom_step {t u : Term} {c d : Int} (h : Yields t.step c (some u) d) (n : Nat) :
    reductsFrom c t (n + 1) = (reductsFrom d u n).map fun run => (t :: run.1, run.2) := by
  have hstep : t.step c = (.ok (some u), d) := h
  simp only [reductsFrom, hstep]
  cases reductsFrom d u n <;> rfl

/-- A list of terms ends at a normal form, or goes on with the list from the next term. -/
theorem reductsFrom_succ {t : Term} {c : Int} {n : Nat} {ts : List Term} {done : Bool}
    (h : reductsFrom c t (n + 1) = .ok (ts, done)) :
    (∃ d, Yields t.step c none d ∧ ts = [t]) ∨
      ∃ u d us, Yields t.step c (some u) d ∧ reductsFrom d u n = .ok (us, done) ∧ ts = t :: us := by
  obtain ⟨r, hr⟩ | ⟨clash, hclash⟩ := yields_or_fails t.step c
  · cases r with
    | none =>
      rw [reductsFrom_normal hr] at h
      cases h
      exact .inl ⟨_, hr, rfl⟩
    | some u =>
      rw [reductsFrom_step hr] at h
      cases hrest : reductsFrom (t.step c).2 u n with
      | error clash => rw [hrest] at h; cases h
      | ok run =>
        rw [hrest] at h
        cases h
        exact .inr ⟨u, _, run.1, hr, hrest, rfl⟩
  · rw [reductsFrom, hclash] at h
    cases h

/-- A reduction lists the terms of its states. -/
theorem reductsFrom_stateAfter {t : Term} {c : Int} {n : Nat} {ts : List Term} {done : Bool}
    (h : reductsFrom c t n = .ok (ts, done)) (k : Nat) :
    ts[k]? = if k < n then (stateAfter c t k).map Prod.fst else none := by
  induction n generalizing t c ts done k with
  | zero =>
    obtain ⟨rfl, -⟩ : [] = ts ∧ false = done := by simpa [reductsFrom] using h
    simp
  | succ n ih =>
    obtain ⟨d, hnormal, rfl⟩ | ⟨u, d, us, hstep, hrest, rfl⟩ := reductsFrom_succ h
    · cases k with
      | zero => simp [stateAfter]
      | succ k => simp [stateAfter_normal hnormal]
    · cases k with
      | zero => simp [stateAfter]
      | succ k => simp [stateAfter_step hstep, ih hrest k]

theorem reduceFrom_step {t u : Term} {c d : Int} (h : Yields t.step c (some u) d) (i n : Nat) :
    reduceFrom c t i (n + 1) = reduceFrom d u (i + 1) n := by
  have hstep : t.step c = (.ok (some u), d) := h
  rw [reduceFrom.eq_def, hstep]

theorem reduceFrom_stop {t u : Term} {c d : Int} (h : Yields t.step c (some u) d) (i : Nat) :
    reduceFrom c t i 0 = .ok ⟨t, i, false⟩ := by
  have hstep : t.step c = (.ok (some u), d) := h
  rw [reduceFrom.eq_def, hstep]

theorem reduceFrom_normal {t : Term} {c d : Int} (h : Yields t.step c none d) (i n : Nat) :
    reduceFrom c t i n = .ok ⟨t, i, true⟩ := by
  have hstep : t.step c = (.ok none, d) := h
  rw [reduceFrom.eq_def, hstep]

/-- A bounded reduction ends at a normal form, is stopped before a step, or goes on with the next
term. -/
theorem reduceFrom_cases {t : Term} {c : Int} {i n : Nat} {r : Reduct}
    (h : reduceFrom c t i n = .ok r) :
    (∃ d, Yields t.step c none d ∧ r = ⟨t, i, true⟩) ∨
      ∃ u d, Yields t.step c (some u) d ∧
        (n = 0 ∧ r = ⟨t, i, false⟩ ∨ ∃ m, n = m + 1 ∧ reduceFrom d u (i + 1) m = .ok r) := by
  obtain ⟨next, hnext⟩ | ⟨clash, hclash⟩ := yields_or_fails t.step c
  · cases next with
    | none =>
      rw [reduceFrom_normal hnext] at h
      exact .inl ⟨_, hnext, (Except.ok.inj h).symm⟩
    | some u =>
      refine .inr ⟨u, _, hnext, ?_⟩
      cases n with
      | zero =>
        rw [reduceFrom_stop hnext] at h
        exact .inl ⟨rfl, (Except.ok.inj h).symm⟩
      | succ m =>
        rw [reduceFrom_step hnext] at h
        exact .inr ⟨m, rfl, h⟩
  · rw [reduceFrom.eq_def, hclash] at h
    cases h

/-- A reduction that was stopped after `n` steps goes on from the state where it stopped. -/
theorem reduceFrom_resume {t u : Term} {c : Int} {i n : Nat} {steps : Int}
    (h : reduceFrom c t i n = .ok ⟨u, steps, false⟩) :
    ∃ d, stateAfter c t n = some (u, d) ∧ steps = (i + n : Nat) ∧
      ∀ m, reduceFrom c t i (n + m) = reduceFrom d u (i + n) m := by
  induction n generalizing t c i with
  | zero =>
    match hstep : t.step c with
    | (.error clash, d) => rw [reduceFrom.eq_def, hstep] at h; cases h
    | (.ok none, d) => rw [reduceFrom_normal hstep] at h; cases h
    | (.ok (some v), d) =>
      rw [reduceFrom_stop hstep] at h
      cases h
      refine ⟨c, rfl, rfl, ?_⟩
      intro m
      rw [Nat.zero_add, Nat.add_zero]
  | succ n ih =>
    match hstep : t.step c with
    | (.error clash, d) => rw [reduceFrom.eq_def, hstep] at h; cases h
    | (.ok none, d) => rw [reduceFrom_normal hstep] at h; cases h
    | (.ok (some v), d) =>
      rw [reduceFrom_step hstep] at h
      obtain ⟨e, hstate, hsteps, hresume⟩ := ih h
      refine ⟨e, by rw [stateAfter_step hstep, hstate], by rw [hsteps]; congr 1; omega, ?_⟩
      intro m
      rw [show n + 1 + m = n + m + 1 by omega, reduceFrom_step hstep, hresume,
        show i + 1 + n = i + (n + 1) by omega]

/-- A budget that is no machine word is refused, and any other lets the reduction run. -/
theorem reduceWithin_nat (t : Term) (n : Nat) :
    t.reduceWithin n = if (n : Int) + 2 ≤ maxTerms then (reduceFrom 0 t 0 n).mapError .clash
      else .error (.count .unreadable) := by
  have hmax : 0 < maxTerms := by decide
  unfold reduceWithin termCount
  by_cases hn : (n : Int) + 2 ≤ maxTerms
  · have hcount : ((n : Int) + 2).toNat = n + 2 := by omega
    have hword : ((n : Int) + 2 = -1 || (n : Int) + 2 < -maxTerms - 1 || maxTerms < (n : Int) + 2)
        = false := by
      simp only [Bool.or_eq_false_iff, decide_eq_false_iff_not]
      omega
    have hsign : ¬(n : Int) + 2 < 0 := by omega
    simp [hn, hword, hsign, hcount]
  · have hword : ((n : Int) + 2 = -1 || (n : Int) + 2 < -maxTerms - 1 || maxTerms < (n : Int) + 2)
        = true := by
      simp only [Bool.or_eq_true, decide_eq_true_eq]
      omega
    simp [hn, hword]

/-- In the next `n` steps, and in the one that is tried after them, the names that are drawn are clear
of the redex. -/
def StaysClear (c : Int) (n : Nat) (t : Term) : Prop :=
  ∀ k u d, k ≤ n → stateAfter c t k = some (u, d) → u.Clear d (u.step d).2

theorem StaysClear.first {c : Int} {t : Term} {n : Nat} (h : t.StaysClear c n) :
    t.Clear c (t.step c).2 := h 0 t c (Nat.zero_le n) rfl

theorem StaysClear.next {t u : Term} {c d : Int} {n : Nat} (h : t.StaysClear c (n + 1))
    (hstep : Yields t.step c (some u) d) : u.StaysClear d n := by
  intro k v e hk hstate
  refine h (k + 1) v e (Nat.succ_le_succ hk) ?_
  rw [stateAfter_step hstep, hstate]

theorem FreshFrom.staysClear {c : Int} {t : Term} (h : t.FreshFrom c) (n : Nat) :
    t.StaysClear c n := by
  intro k u d _ hstate
  have hfresh : u.FreshFrom d := (drawn_of_stateAfter hstate).freshFrom h
  exact hfresh.clear _

end NormalOrder.Term
