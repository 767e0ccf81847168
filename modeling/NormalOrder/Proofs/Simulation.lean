import NormalOrder.Proofs.AlphaEquivalence
import NormalOrder.Proofs.Runs
import Mathlib.Data.List.Forall2

namespace NormalOrder.Term

open Naming

/-- Two steps whose names are clear of their redexes lead from the same image to the same image. -/
theorem step_alike {t u : Term} {c d : Int} (ht : t.Clear c (t.step c).2)
    (hu : u.Clear d (u.step d).2) (himage : t.nameless [] = u.nameless []) :
    (∃ c' d', Yields t.step c none c' ∧ Yields u.step d none d') ∨
      ∃ v w c' d', Yields t.step c (some v) c' ∧ Yields u.step d (some w) d' ∧
        v.nameless [] = w.nameless [] := by
  obtain ⟨r, hr⟩ := yields_step_of_clear ht
  obtain ⟨s, hs⟩ := yields_step_of_clear hu
  have hrs : r.map (nameless []) = s.map (nameless []) := by
    rw [← nameless_step hr ht, ← nameless_step hs hu, himage]
  match r, s, hrs with
  | none, none, _ => exact .inl ⟨_, _, hr, hs⟩
  | some v, some w, hrs => exact .inr ⟨v, w, _, _, hr, hs, Option.some.inj hrs⟩

theorem reductsFrom_alike {t u : Term} {c d : Int} (n : Nat) (ht : t.FreshFrom c)
    (hu : u.FreshFrom d) (himage : t.nameless [] = u.nameless []) :
    ∃ ts us done, reductsFrom c t n = .ok (ts, done) ∧ reductsFrom d u n = .ok (us, done) ∧
      List.Forall₂ (fun v w => v.nameless [] = w.nameless []) ts us := by
  induction n generalizing t u c d with
  | zero => exact ⟨[], [], false, rfl, rfl, .nil⟩
  | succ n ih =>
    obtain ⟨c', d', hr, hs⟩ | ⟨v, w, c', d', hr, hs, hvw⟩ :=
      step_alike (ht.clear _) (hu.clear _) himage
    · exact ⟨[t], [u], true, reductsFrom_normal hr n, reductsFrom_normal hs n, .cons himage .nil⟩
    · have hv : Contracts c c' t v := outcome_step hr
      have hw : Contracts d d' u w := outcome_step hs
      obtain ⟨ts, us, done, hts, hus, hall⟩ := ih (hv.drawn.freshFrom ht) (hw.drawn.freshFrom hu) hvw
      refine ⟨t :: ts, u :: us, done, ?_, ?_, .cons himage hall⟩
      · rw [reductsFrom_step hr, hts]
        rfl
      · rw [reductsFrom_step hs, hus]
        rfl

theorem reduceFrom_alike {t u : Term} {c d : Int} (i j n : Nat)
    (ht : t.StaysClear c n) (hu : u.StaysClear d n)
    (himage : t.nameless [] = u.nameless []) :
    ∃ (v w : Term) (k : Nat) (done : Bool), reduceFrom c t i n = .ok ⟨v, (i + k : Nat), done⟩ ∧
      reduceFrom d u j n = .ok ⟨w, (j + k : Nat), done⟩ ∧ v.nameless [] = w.nameless [] := by
  induction n generalizing t u c d i j with
  | zero =>
    obtain ⟨c', d', hr, hs⟩ | ⟨v, w, c', d', hr, hs, -⟩ := step_alike ht.first hu.first himage
    · exact ⟨t, u, 0, true, reduceFrom_normal hr i 0, reduceFrom_normal hs j 0, himage⟩
    · exact ⟨t, u, 0, false, reduceFrom_stop hr i, reduceFrom_stop hs j, himage⟩
  | succ n ih =>
    obtain ⟨c', d', hr, hs⟩ | ⟨v, w, c', d', hr, hs, hvw⟩ := step_alike ht.first hu.first himage
    · exact ⟨t, u, 0, true, reduceFrom_normal hr i _, reduceFrom_normal hs j _, himage⟩
    · obtain ⟨v', w', k, done, hv', hw', hsame⟩ := ih (i + 1) (j + 1) (ht.next hr) (hu.next hs) hvw
      refine ⟨v', w', k + 1, done, ?_, ?_, hsame⟩
      · rw [reduceFrom_step hr, hv', show i + 1 + k = i + (k + 1) by omega]
      · rw [reduceFrom_step hs, hw', show j + 1 + k = j + (k + 1) by omega]

/-- The reductions of two terms without generated names that are equal up to their bound names go
through terms that are so too, element for element in every application, and end after equally many
steps. Within a budget they give such a pair as well, unless the budget is no machine word. -/
theorem reduction_respects_alphaEq (a b : Term) (ha : a.FreshFrom 0) (hb : b.FreshFrom 0)
    (h : a.alphaEq b = true) :
    (∀ n, ∃ ts us done, a.reducts n = .ok (ts, done) ∧ b.reducts n = .ok (us, done) ∧
      List.Forall₂ (fun t u => t.alphaEq u = true ∧ t.nameless [] = u.nameless []) ts us) ∧
    ∀ budget : Nat,
      ((budget : Int) + 2 ≤ maxTerms → ∃ r s, a.reduceWithin budget = .ok r ∧
        b.reduceWithin budget = .ok s ∧ r.steps = s.steps ∧ r.isNormal = s.isNormal ∧
        r.term.alphaEq s.term = true) ∧
      (maxTerms < (budget : Int) + 2 → a.reduceWithin budget = .error (.count .unreadable) ∧
        b.reduceWithin budget = .error (.count .unreadable)) := by
  have himage := (alphaEq_iff_nameless a b).mp h
  constructor
  · intro n
    obtain ⟨ts, us, done, hts, hus, hall⟩ := reductsFrom_alike n ha hb himage
    refine ⟨ts, us, done, hts, hus, hall.imp ?_⟩
    intro t u htu
    exact ⟨(alphaEq_iff_nameless t u).mpr htu, htu⟩
  · intro budget
    rw [reduceWithin_nat, reduceWithin_nat]
    constructor
    · intro hword
      obtain ⟨v, w, k, done, hv, hw, hvw⟩ :=
        reduceFrom_alike 0 0 budget (ha.staysClear _) (hb.staysClear _) himage
      rw [if_pos hword, if_pos hword, hv, hw]
      exact ⟨_, _, rfl, rfl, rfl, rfl, (alphaEq_iff_nameless v w).mpr hvw⟩
    · intro hword
      rw [if_neg (by omega), if_neg (by omega)]
      exact ⟨rfl, rfl⟩

/-- In `(λx.λx.λy.x) z` the inner binder shadows the one that is put in for, and so it stays as it is;
in `(λx.λu.λy.u) z` it is renamed. The two runs draw different names. -/
theorem reduction_respects_alphaEq_shadowed :
    let a : Term := .app (.lam "x" (.lam "x" (.lam "y" (.var "x")))) (.var "z") []
    let b : Term := .app (.lam "x" (.lam "u" (.lam "y" (.var "u")))) (.var "z") []
    a.FreshFrom 0 ∧ b.FreshFrom 0 ∧ a.alphaEq b = true ∧
    (∀ n, ∃ ts us done, a.reducts n = .ok (ts, done) ∧ b.reducts n = .ok (us, done) ∧
      List.Forall₂ (fun t u => t.alphaEq u = true ∧ t.nameless [] = u.nameless []) ts us) ∧
    ∀ budget : Nat,
      ((budget : Int) + 2 ≤ maxTerms → ∃ r s, a.reduceWithin budget = .ok r ∧
        b.reduceWithin budget = .ok s ∧ r.steps = s.steps ∧ r.isNormal = s.isNormal ∧
        r.term.alphaEq s.term = true) ∧
      (maxTerms < (budget : Int) + 2 → a.reduceWithin budget = .error (.count .unreadable) ∧
        b.reduceWithin budget = .error (.count .unreadable)) := by
  intro a b
  have ha : a.FreshFrom 0 := freshFrom_of_written (by decide) 0
  have hb : b.FreshFrom 0 := freshFrom_of_written (by decide) 0
  have h : a.alphaEq b = true := by decide
  exact ⟨ha, hb, h, reduction_respects_alphaEq a b ha hb h⟩

/-- A reduction of a source that was stopped after `n` steps at `u` is continued by one that starts at
`u`, with names numbered from zero, as long as these stay clear of each redex. -/
theorem resumption_continues (source : String) (t u : Term) (n m : Nat)
    (h : parse (lex source) = .ok t) (hstop : t.reduceWithin n = .ok ⟨u, n, false⟩)
    (hclear : u.StaysClear 0 m) (hword : ((n + m : Nat) : Int) + 2 ≤ maxTerms) :
    ∃ r s, u.reduceWithin m = .ok r ∧ t.reduceWithin (n + m : Nat) = .ok s ∧
      r.term.alphaEq s.term = true ∧ r.isNormal = s.isNormal ∧ s.steps = n + r.steps := by
  have hn : (n : Int) + 2 ≤ maxTerms := by omega
  have hm : (m : Int) + 2 ≤ maxTerms := by omega
  rw [reduceWithin_nat, if_pos hn] at hstop
  rw [reduceWithin_nat, reduceWithin_nat, if_pos hm, if_pos hword]
  have hfirst : reduceFrom 0 t 0 n = .ok ⟨u, n, false⟩ := by
    match hrun : reduceFrom 0 t 0 n with
    | .ok r => simpa [hrun, Except.mapError] using hstop
    | .error clash => simp [hrun, Except.mapError] at hstop
  obtain ⟨c, hstate, -, hresume⟩ := reduceFrom_resume hfirst
  rw [hresume m]
  have hfresh : u.FreshFrom c := (drawn_of_stateAfter hstate).freshFrom (freshFrom_of_parse h 0)
  obtain ⟨v, w, k, done, hv, hw, hvw⟩ :=
    reduceFrom_alike 0 (0 + n) m hclear (hfresh.staysClear m) rfl
  rw [hv, hw]
  refine ⟨_, _, rfl, rfl, (alphaEq_iff_nameless v w).mpr hvw, rfl, ?_⟩
  push_cast
  omega

/-- One step from `(λx p.x ((λq r.q) y)) a` leads to `λ#0.a ((λ#1.λ#2.#1) y)`. The next one draws `#0`
again, which is no name of its redex. -/
theorem resumption_continues_below_binder :
    let t : Term := .app (.lam "x" (.lam "p" (.app (.var "x")
      (.app (.lam "q" (.lam "r" (.var "q"))) (.var "y") []) []))) (.var "a") []
    let u : Term := .lam "#0" (.app (.var "a")
      (.app (.lam "#1" (.lam "#2" (.var "#1"))) (.var "y") []) [])
    parse (lex "(λx p.x ((λq r.q) y)) a") = .ok t ∧
    t.reduceWithin (1 : Nat) = .ok ⟨u, (1 : Nat), false⟩ ∧ u.StaysClear 0 1 ∧
    ((1 + 1 : Nat) : Int) + 2 ≤ maxTerms ∧
    ∃ r s, u.reduceWithin (1 : Nat) = .ok r ∧ t.reduceWithin (1 + 1 : Nat) = .ok s ∧
      r.term.alphaEq s.term = true ∧ r.isNormal = s.isNormal ∧ s.steps = (1 : Nat) + r.steps := by
  intro t u
  have hsource : parse (lex "(λx p.x ((λq r.q) y)) a") = .ok t := by decide
  have hstop : t.reduceWithin (1 : Nat) = .ok ⟨u, (1 : Nat), false⟩ := by decide +kernel
  have hword : ((1 + 1 : Nat) : Int) + 2 ≤ maxTerms := by decide
  have hclear : u.StaysClear 0 1 := by
    intro k v d hk hstate
    obtain rfl | rfl : k = 0 ∨ k = 1 := by omega
    · cases hstate
      have hcounter : (u.step 0).2 = 1 := by decide +kernel
      have hredex : u.redex? = some (.lam "#1" (.lam "#2" (.var "#1")), .var "y") := rfl
      intro f a h hmeets
      obtain ⟨rfl, rfl⟩ : _ = f ∧ _ = a := by simpa [hredex] using h
      obtain ⟨l, hl, hl', hmem⟩ := hmeets
      obtain rfl : l = 0 := by omega
      exact absurd hmem (by decide)
    · have hnext : stateAfter 0 u 1 =
          some (.lam "#0" (.app (.var "a") (.lam "#0" (.var "y")) []), 1) := by decide +kernel
      rw [hnext] at hstate
      cases hstate
      exact clear_of_redex?_eq_none rfl _ _
  exact ⟨hsource, hstop, hclear, hword, resumption_continues _ t u 1 1 hsource hstop hclear hword⟩

/-- A name that the second reduction draws may be one of the first: below its binder it clashes, and
in the value that is put in it is captured without a clash. -/
theorem resumption_meets_names :
    (let t : Term := .app (.lam "x" (.lam "y" (.app (.lam "z" (.lam "w" (.var "y"))) (.var "x") [])))
      (.var "a") []
    let u : Term := .lam "#0" (.app (.lam "#1" (.lam "#2" (.var "#0"))) (.var "a") [])
    parse (lex "(λx y.(λz w.y) x) a") = .ok t ∧ t.reduceWithin 1 = .ok ⟨u, 1, false⟩ ∧
    u.reduceWithin 1 = .error (.clash (.occursFree "#0" (.lam "#2" (.var "#0")))) ∧
    t.reduceWithin 2 = .ok ⟨.lam "#0" (.lam "#3" (.var "#0")), 2, true⟩) ∧
    (let t : Term := .app (.lam "x" (.lam "y" (.app (.lam "z" (.lam "w" (.var "z"))) (.var "y") [])))
      (.var "a") []
    let u : Term := .lam "#0" (.app (.lam "#1" (.lam "#2" (.var "#1"))) (.var "#0") [])
    let captured : Term := .lam "#0" (.lam "#0" (.var "#0"))
    let right : Term := .lam "#0" (.lam "#3" (.var "#0"))
    parse (lex "(λx y.(λz w.z) y) a") = .ok t ∧ t.reduceWithin 1 = .ok ⟨u, 1, false⟩ ∧
    u.reduceWithin 1 = .ok ⟨captured, 1, true⟩ ∧ t.reduceWithin 2 = .ok ⟨right, 2, true⟩ ∧
    captured.alphaEq right = false) := by
  decide +kernel

end NormalOrder.Term
