import NormalOrder.Proofs.Runs
import NormalOrder.Proofs.Standardisation

namespace NormalOrder.Term

open Naming DeBruijn
open Relation (ReflTransGen)

/-- A reduction stops at the first leftmost outermost reduct that is a normal form. -/
theorem reduceFrom_of_leftmostReduct {t : Term} {c : Int} {k : Nat} {n : DeBruijn}
    (hfresh : t.FreshFrom c) (hred : LeftmostReduct k (t.deBruijn []) n) (hn : n.IsNormal) (i : Nat) :
    ∃ u : Term, u.deBruijn [] = n ∧
      ∀ budget, k ≤ budget → reduceFrom c t i budget = .ok ⟨u, (i + k : Nat), true⟩ := by
  induction k generalizing t c i with
  | zero =>
    obtain ⟨r, d, hstep, hspec⟩ := step_spec t c hfresh
    obtain rfl : t.deBruijn [] = n := hred
    cases r with
    | some u => exact absurd (hspec.2 []) (not_leftmost_of_isNormal hn)
    | none => exact ⟨t, rfl, fun budget _ => reduceFrom_normal hstep i budget⟩
  | succ k ih =>
    obtain ⟨s, hs, hred⟩ := hred
    obtain ⟨r, d, hstep, hspec⟩ := step_spec t c hfresh
    cases r with
    | none => exact absurd hs (not_leftmost_of_isNormal (hspec.2 []))
    | some u =>
      obtain ⟨hdrawn, hleft⟩ := hspec
      obtain rfl : s = u.deBruijn [] := leftmost_unique hs (hleft [])
      obtain ⟨v, hv, hrun⟩ := ih (hdrawn.freshFrom hfresh) hred (i + 1)
      refine ⟨v, hv, ?_⟩
      intro budget hbudget
      obtain ⟨budget, rfl⟩ : ∃ b, budget = b + 1 := ⟨budget - 1, by omega⟩
      rw [reduceFrom_step hstep, hrun budget (by omega), show i + 1 + k = i + (k + 1) by omega]

/-- If the term of a source can be reduced to a normal form in any way, then its reduction ends there
after some number of steps: without a limit, and within every budget of at least that many. -/
theorem reduction_finds_normal_form (source : String) (t : Term) (n : DeBruijn)
    (h : parse (lex source) = .ok t) (hred : ReflTransGen Beta (t.deBruijn []) n)
    (hn : n.IsNormal) :
    ∃ (steps : Nat) (u : Term), u.deBruijn [] = n ∧
      (∀ patience, steps ≤ patience → t.reduceFully patience = .ok ⟨u, steps, true⟩) ∧
      ∀ budget : Int, steps ≤ budget → budget + 2 ≤ maxTerms →
        t.reduceWithin budget = .ok ⟨u, steps, true⟩ := by
  obtain ⟨steps, hleft⟩ := leftmostReduct_of_beta hred hn
  obtain ⟨u, hu, hrun⟩ := reduceFrom_of_leftmostReduct (freshFrom_of_parse h 0) hleft hn 0
  rw [Nat.zero_add] at hrun
  refine ⟨steps, u, hu, ?_, ?_⟩
  · intro patience hpatience
    rw [reduceFully, hrun patience hpatience]
    rfl
  · intro budget hsteps hword
    obtain ⟨b, rfl⟩ : ∃ b : Nat, budget = b := ⟨budget.toNat, by omega⟩
    rw [reduceWithin_nat, if_pos hword, hrun b (by omega)]
    rfl

/-- The argument of `(λx.a) ((λx.x x) (λx.x x))` has no normal form, and a step in it leads back to
it; the term has one. -/
theorem reduction_finds_normal_form_discard :
    let t : Term := .app (.lam "x" (.var "a"))
      (.app (.lam "x" (.app (.var "x") (.var "x") [])) (.lam "x" (.app (.var "x") (.var "x") [])) []) []
    parse (lex "(λx.a) ((λx.x x) (λx.x x))") = .ok t ∧
    ReflTransGen Beta (t.deBruijn []) (.free "a") ∧ (DeBruijn.free "a").IsNormal ∧
    ∃ (steps : Nat) (u : Term), u.deBruijn [] = .free "a" ∧
      (∀ patience, steps ≤ patience → t.reduceFully patience = .ok ⟨u, steps, true⟩) ∧
      ∀ budget : Int, steps ≤ budget → budget + 2 ≤ maxTerms →
        t.reduceWithin budget = .ok ⟨u, steps, true⟩ := by
  intro t
  have hsource : parse (lex "(λx.a) ((λx.x x) (λx.x x))") = .ok t := by decide
  have hinner : Beta (t.deBruijn []) (t.deBruijn []) := ⟨[.arg], by decide⟩
  have houter : Beta (t.deBruijn []) (.free "a") := ⟨[], by decide⟩
  have hred : ReflTransGen Beta (t.deBruijn []) (.free "a") := .tail (.single hinner) houter
  have hnormal := isNormal_free "a"
  exact ⟨hsource, hred, hnormal, reduction_finds_normal_form _ t _ hsource hred hnormal⟩

end NormalOrder.Term
