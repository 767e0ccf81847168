import NormalOrder.Proofs.Budgets
import NormalOrder.Proofs.Normalisation
import NormalOrder.Proofs.Printing
import Mathlib.Algebra.Group.Nat.Defs

namespace NormalOrder

open Relation (ReflTransGen)

namespace DeBruijn

theorem LeftmostReduct.trans {j k : Nat} {t u v : DeBruijn} (h : LeftmostReduct j t u)
    (h' : LeftmostReduct k u v) : LeftmostReduct (j + k) t v := by
  induction j generalizing t with
  | zero =>
    obtain rfl : t = u := h
    rwa [Nat.zero_add]
  | succ j ih =>
    obtain ⟨s, hs, hrest⟩ := h
    rw [Nat.add_right_comm]
    exact ⟨s, hs, ih hrest⟩

theorem LeftmostReduct.beta {k : Nat} {t u : DeBruijn} (h : LeftmostReduct k t u) :
    ReflTransGen Beta t u := by
  induction k generalizing t with
  | zero =>
    obtain rfl : t = u := h
    exact .refl
  | succ k ih =>
    obtain ⟨s, ⟨p, hp, -⟩, hrest⟩ := h
    exact .head ⟨p, hp⟩ (ih hrest)

@[simp] theorem lift_zero (t : DeBruijn) (k : Nat) : t.lift 0 k = t := by
  induction t generalizing k with
  | free x => rfl
  | bound i => simp [lift]
  | lam b ih => simp [lift, ih]
  | app f a hf ha => simp [lift, hf, ha]

/-- `λf x.f (f x)`. -/
def twice : DeBruijn := .lam (.lam (.app (.bound 1) (.app (.bound 1) (.bound 0))))

/-- The identity, or `twice` applied to the doubling before. -/
def doubling : Nat → DeBruijn
  | 0 => .lam (.bound 0)
  | k + 1 => .app twice (doubling k)

@[simp] theorem lift_doubling (k d j : Nat) : (doubling k).lift d j = doubling k := by
  induction k with
  | zero => simp [doubling, lift]
  | succ k ih => simp [doubling, twice, lift, ih]

@[simp] theorem subst_doubling (k j : Nat) (v : DeBruijn) :
    (doubling k).subst j v = doubling k := by
  induction k with
  | zero => simp [doubling, subst]
  | succ k ih => simp [doubling, twice, subst, ih]

/-- A doubling gives its argument back. It hands it to the doubling before twice, so it takes twice
as many steps, and two more. -/
theorem leftmostReduct_doubling (k : Nat) (v : DeBruijn) :
    LeftmostReduct (3 * 2 ^ k - 2) (.app (doubling k) v) v := by
  induction k generalizing v with
  | zero =>
    have hstep := leftmost_beta (.bound 0) v
    simp only [subst, Nat.lt_irrefl, if_false, if_true, lift_zero] at hstep
    exact ⟨v, hstep, rfl⟩
  | succ k ih =>
    have hunfold : Leftmost (.app (doubling (k + 1)) v)
        (.app (.lam (.app (doubling k) (.app (doubling k) (.bound 0)))) v) := by
      have hbeta := leftmost_beta (.lam (.app (.bound 1) (.app (.bound 1) (.bound 0)))) (doubling k)
      simp only [subst, lift_doubling, Nat.reduceAdd, Nat.lt_irrefl, Nat.zero_lt_one, if_false,
        if_true] at hbeta
      exact leftmost_fn v rfl hbeta
    have happly := leftmost_beta (.app (doubling k) (.app (doubling k) (.bound 0))) v
    simp only [subst, subst_doubling, Nat.lt_irrefl, if_false, if_true, lift_zero] at happly
    have hpos : 0 < 2 ^ k := Nat.two_pow_pos k
    have hlength : 3 * 2 ^ (k + 1) - 2 = 3 * 2 ^ k - 2 + (3 * 2 ^ k - 2) + 1 + 1 := by
      rw [Nat.pow_succ]
      omega
    rw [hlength]
    exact ⟨_, hunfold, _, happly, (ih (.app (doubling k) v)).trans (ih v)⟩

end DeBruijn

namespace Term

open DeBruijn (LeftmostReduct)
open Naming

/-- A budget for fewer steps than there are to the normal form is used up. -/
theorem reduceWithin_of_leftmostReduct_lt {t : Term} {n : DeBruijn} {steps budget : Nat}
    (hfresh : t.FreshFrom 0) (hred : LeftmostReduct steps (t.deBruijn []) n) (hn : n.IsNormal)
    (hbudget : budget < steps) (hword : (budget : Int) + 2 ≤ maxTerms) :
    ∃ u, t.reduceWithin budget = .ok ⟨u, budget, false⟩ := by
  obtain ⟨k, u, d, hk, hu, hnormal⟩ | ⟨u, d, v, e, hu, hstep⟩ := exists_last_state hfresh budget
  · -- the normal form would be reached after two numbers of steps
    obtain ⟨w, -, hrun⟩ := reduceFrom_of_leftmostReduct hfresh hred hn 0
    have hsame := (reduceFrom_of_normal hu hnormal (n := steps) (by omega) 0).symm.trans
      (hrun steps (Nat.le_refl _))
    have hsteps : ((0 + k : Nat) : Int) = (0 + steps : Nat) :=
      congrArg Reduct.steps (Except.ok.inj hsame)
    omega
  · exact ⟨u, reduceWithin_of_step hu hstep hword⟩

/-- A negative budget, if it is not refused, gives the term itself. -/
theorem term_of_reduceWithin_negative {t : Term} {budget : Int} (hbudget : budget < 0) {r : Reduct}
    (h : t.reduceWithin budget = .ok r) : r.term = t := by
  unfold reduceWithin at h
  split at h
  · cases h
  · cases h
    rfl
  · cases h
    rfl
  · rename_i n hcount
    unfold termCount at hcount
    split_ifs at hcount
    have hnat : (budget + 2).toNat = n + 2 := Except.ok.inj hcount
    omega

def twice : Term := .lam "f" (.lam "x" (.app (.var "f") (.app (.var "f") (.var "x") []) []))

/-- The doubling as it is written. -/
def doubling : Nat → Term
  | 0 => .lam "x" (.var "x")
  | k + 1 => .app twice (doubling k) []

theorem deBruijn_doubling (k : Nat) : (doubling k).deBruijn [] = DeBruijn.doubling k := by
  induction k with
  | zero => decide
  | succ k ih =>
    rw [doubling, deBruijn_app, List.map_cons, ih]
    rfl

theorem written_doubling (k : Nat) : ∀ x ∈ (doubling k).names, IsWritten x := by
  induction k with
  | zero => decide
  | succ k ih =>
    have htwice : ∀ x ∈ twice.names, IsWritten x := by decide
    intro x hx
    obtain hx | hx | ⟨t, ht, -⟩ := mem_names_app.mp hx
    · exact htwice x hx
    · exact ih x hx
    · cases ht

/-- A doubling applied to a variable: its text grows with `k`, and its reduction with `2 ^ k`. -/
def doubled (k : Nat) : Term := .app (doubling k) (.var "a") []

theorem written_doubled (k : Nat) : ∀ x ∈ (doubled k).names, IsWritten x := by
  intro x hx
  obtain hx | hx | ⟨t, ht, -⟩ := mem_names_app.mp hx
  · exact written_doubling k x hx
  · obtain rfl : x = "a" := List.mem_singleton.mp hx
    decide
  · cases ht

theorem leftmostReduct_doubled (k : Nat) :
    LeftmostReduct (3 * 2 ^ k - 2) ((doubled k).deBruijn []) (.free "a") := by
  rw [doubled, deBruijn_app, List.map_singleton, deBruijn_doubling]
  exact DeBruijn.leftmostReduct_doubling k _

/-- Of the budgets that are not refused, those are enough that allow `3 * 2 ^ k - 2` steps. -/
theorem reduceWithin_doubled (k budget : Nat) (hword : (budget : Int) + 2 ≤ maxTerms) :
    ∃ r, (doubled k).reduceWithin budget = .ok r ∧
      (r.isNormal = true ↔ 3 * 2 ^ k - 2 ≤ budget) := by
  have hfresh : (doubled k).FreshFrom 0 := freshFrom_of_written (written_doubled k) 0
  have hred := leftmostReduct_doubled k
  have hnormal := DeBruijn.isNormal_free "a"
  by_cases hbudget : 3 * 2 ^ k - 2 ≤ budget
  · obtain ⟨u, -, hrun⟩ := reduceFrom_of_leftmostReduct hfresh hred hnormal 0
    refine ⟨⟨u, (0 + (3 * 2 ^ k - 2) : Nat), true⟩, ?_, iff_of_true rfl hbudget⟩
    rw [reduceWithin_nat, if_pos hword, hrun budget hbudget]
    rfl
  · obtain ⟨u, hrun⟩ :=
      reduceWithin_of_leftmostReduct_lt hfresh hred hnormal (by omega) hword
    exact ⟨_, hrun, iff_of_false (by simp) hbudget⟩

/-- A term with the normal form `a` that no budget is enough for: one that allows all the steps asks
for more terms than can be asked for. -/
theorem reduction_outlasts_budgets :
    let t := doubled 62
    parse (lex t.text) = .ok t ∧
    ReflTransGen DeBruijn.Beta (t.deBruijn []) (.free "a") ∧ (DeBruijn.free "a").IsNormal ∧
    ¬∃ (budget : Int) (r : Reduct),
      t.reduceWithin budget = .ok r ∧ r.isNormal = true ∧ r.term.deBruijn [] = .free "a" := by
  intro t
  refine ⟨parse_text t (written_doubled 62), (leftmostReduct_doubled 62).beta,
    DeBruijn.isNormal_free "a", ?_⟩
  rintro ⟨budget, r, hr, hnormal, hterm⟩
  by_cases hnegative : budget < 0
  · rw [term_of_reduceWithin_negative hnegative hr] at hterm
    cases hterm
  · obtain ⟨n, rfl⟩ : ∃ n : Nat, budget = n := ⟨budget.toNat, by omega⟩
    by_cases hword : (n : Int) + 2 ≤ maxTerms
    · obtain ⟨r', hr', hiff⟩ := reduceWithin_doubled 62 n hword
      obtain rfl : r = r' := Except.ok.inj (hr.symm.trans hr')
      have hsteps := hiff.mp hnormal
      have hmax : maxTerms = 2 ^ 63 - 1 := by decide
      omega
    · rw [reduceWithin_nat, if_neg hword] at hr
      cases hr

end Term

end NormalOrder
