import NormalOrder.Proofs.NamelessStep
import NormalOrder.Proofs.OpenBinders

namespace NormalOrder

namespace Term

open Nameless Bindings

/-- The two sides have the same partners for every name. -/
def Pairing.Same (s s' : Pairing) : Prop :=
  (∀ x, s.left.partners x = s'.left.partners x) ∧ ∀ x, s.right.partners x = s'.right.partners x

/-- A comparison closes every binder that it opened, whichever way it ends. -/
theorem compare_same (s : Pairing) (t u : Term) : (compare s t u).2.Same s := by
  obtain ⟨hleft, hright⟩ := compare_grows s t u
  exact ⟨hleft.restores.partners_eq, hright.restores.partners_eq⟩

/-- The partners of `x` among the paired binders, of which the innermost comes first. -/
def opened (x : String) : List (String × String) → List String
  | [] => []
  | (y, p) :: pairs => if y = x then opened x pairs ++ [p] else opened x pairs

/-- The open binders are the given pairs. -/
def Pairing.Holds (s : Pairing) (pairs : List (String × String)) : Prop :=
  (∀ x, s.left.partners x = opened x pairs) ∧
    ∀ y, s.right.partners y = opened y (pairs.map Prod.swap)

theorem Pairing.Holds.enter {s : Pairing} {pairs : List (String × String)} (h : s.Holds pairs)
    (x y : String) : (s.enter x y).Holds ((x, y) :: pairs) := by
  constructor
  · intro z
    simp only [Pairing.enter, partners_push, opened, h.1 z]
  · intro z
    simp only [Pairing.enter, partners_push, opened, List.map_cons, Prod.swap_prod_mk, h.2 z]

theorem Pairing.Holds.same {s s' : Pairing} {pairs : List (String × String)} (h : s.Holds pairs)
    (hs : s'.Same s) : s'.Holds pairs :=
  ⟨fun x => (hs.1 x).trans (h.1 x), fun y => (hs.2 y).trans (h.2 y)⟩

/-- Room for one more binder keeps variables apart. -/
theorem resolve_lift_inj (scope scope' : List String) (x y : String) :
    (resolve scope x).lift 1 0 = (resolve scope' y).lift 1 0 ↔
      resolve scope x = resolve scope' y := by
  unfold resolve
  split_ifs <;> simp [lift]

theorem resolve_lift_ne_zero (scope : List String) (x : String) :
    (resolve scope x).lift 1 0 ≠ .bound 0 := by
  unfold resolve
  split_ifs <;> simp [lift]

/-- Two variables agree if neither has a partner and they are the same, or each is the other's. -/
theorem agree_iff_partner? (s : Pairing) (x y : String) :
    agree s x y = true ↔
      (s.left.partner? x = none ∧ s.right.partner? y = none ∧ x = y) ∨
        s.left.partner? x = some y ∧ s.right.partner? y = some x := by
  unfold agree
  cases s.left.partner? x <;> cases s.right.partner? y <;> simp

/-- Two variables agree if they stand for the same binder, counted from inside, or for the same free
name. -/
theorem agree_iff_resolve {s : Pairing} {pairs : List (String × String)} (h : s.Holds pairs)
    (x y : String) :
    agree s x y = true ↔ resolve (pairs.map Prod.fst) x = resolve (pairs.map Prod.snd) y := by
  rw [agree_iff_partner?, partner?, partner?, h.1, h.2]
  clear h
  induction pairs with
  | nil => simp [opened, resolve]
  | cons pair pairs ih =>
    obtain ⟨a, b⟩ := pair
    simp only [List.map_cons, Prod.swap_prod_mk, opened, resolve_cons]
    by_cases ha : a = x
    · by_cases hb : b = y
      · simp [ha, hb]
      · simp [ha, hb, Ne.symm hb, (resolve_lift_ne_zero _ _).symm]
    · by_cases hb : b = y
      · simp [ha, hb, Ne.symm ha, resolve_lift_ne_zero]
      · simpa [ha, hb, Ne.symm ha, Ne.symm hb, resolve_lift_inj] using ih

theorem compareAll_iff {pairs : List (String × String)} {ts us : List Term}
    (ih : ∀ t ∈ ts, ∀ s u, s.Holds pairs → ((compare s t u).1 = true ↔
      t.nameless (pairs.map Prod.fst) = u.nameless (pairs.map Prod.snd)))
    {s : Pairing} (h : s.Holds pairs) (hlen : ts.length = us.length) :
    (compareAll s ts us).1 = true ↔
      ts.map (nameless (pairs.map Prod.fst)) = us.map (nameless (pairs.map Prod.snd)) := by
  induction ts generalizing s us with
  | nil =>
    obtain rfl : us = [] := List.eq_nil_of_length_eq_zero hlen.symm
    simp [compareAll]
  | cons t ts ihts =>
    cases us with
    | nil => cases hlen
    | cons u us =>
      have ht := ih t (by simp) s u h
      have hts := ihts (fun v hv => ih v (List.mem_cons_of_mem _ hv)) (h.same (compare_same s t u))
        (Nat.succ.inj hlen)
      simp only [compareAll, List.map_cons, List.cons.injEq]
      by_cases hsame : (compare s t u).1 = true
      · simp only [hsame, if_true, hts, ht.mp hsame, true_and]
      · simp only [hsame, if_false, ht.not.mp hsame, false_and, Bool.false_eq_true]

/-- Below paired binders, a comparison decides whether the images are the same. -/
theorem compare_iff {s : Pairing} {pairs : List (String × String)} (h : s.Holds pairs) (t u : Term) :
    (compare s t u).1 = true ↔
      t.nameless (pairs.map Prod.fst) = u.nameless (pairs.map Prod.snd) := by
  induction t generalizing s pairs u with
  | var x =>
    cases u with
    | var y => exact agree_iff_resolve h x y
    | lam y c => simp [compare, nameless, resolve_ne_lam]
    | app g b others => simp [compare, nameless, resolve_ne_app]
  | lam x b ih =>
    cases u with
    | var y => simp [compare, nameless, (resolve_ne_lam _ _ _).symm]
    | lam y c => simpa [compare, nameless] using ih (h.enter x y) c
    | app g b others => simp [compare, nameless]
  | app f a rest hf ha hrest =>
    cases u with
    | var y => simp [compare, nameless, (resolve_ne_app _ _ _ _ _).symm]
    | lam y c => simp [compare, nameless]
    | app g b others =>
      simp only [compare, nameless, namelessAll_eq_map, Nameless.app.injEq]
      by_cases hlen : rest.length = others.length
      · have h₁ := h.same (compare_same s f g)
        have h₂ := h₁.same (compare_same (compare s f g).2 a b)
        have hfn := hf h g
        have harg := ha h₁ b
        have hall := compareAll_iff (fun t ht s u hs => hrest t ht hs u) h₂ hlen
        rw [if_pos hlen, ← hfn, ← harg, ← hall]
        split_ifs with hone htwo <;> simp [*]
      · have hne : rest.map (nameless (pairs.map Prod.fst)) ≠
            others.map (nameless (pairs.map Prod.snd)) := by
          intro heq
          have hl := congrArg List.length heq
          simp only [List.length_map] at hl
          exact hlen hl
        simp [hlen, hne]

/-- Two terms are equal up to their bound names if and only if their nameless images are equal. -/
theorem alphaEq_iff_nameless (t u : Term) :
    t.alphaEq u = true ↔ t.nameless [] = u.nameless [] := by
  have hnone : Pairing.Holds ⟨[], []⟩ [] := ⟨fun _ => rfl, fun _ => rfl⟩
  exact compare_iff hnone t u

/-- The comparison decides whether two terms have the same nameless image, whatever their names are.
So it is an equivalence relation, and terms that are related have the same free occurrences of
variables, in the same order. -/
theorem alphaEq_decides_nameless :
    (∀ t u : Term, t.alphaEq u = true ↔ t.nameless [] = u.nameless []) ∧
    Equivalence (fun t u : Term => t.alphaEq u = true) ∧
    ∀ t u : Term, t.alphaEq u = true → t.free [] = u.free [] := by
  refine ⟨alphaEq_iff_nameless, ⟨?refl, ?symm, ?trans⟩, ?free⟩
  case refl =>
    intro t
    exact (alphaEq_iff_nameless t t).mpr rfl
  case symm =>
    intro t u h
    exact (alphaEq_iff_nameless u t).mpr ((alphaEq_iff_nameless t u).mp h).symm
  case trans =>
    intro t u v htu huv
    have himage := ((alphaEq_iff_nameless t u).mp htu).trans ((alphaEq_iff_nameless u v).mp huv)
    exact (alphaEq_iff_nameless t v).mpr himage
  case free =>
    intro t u h
    rw [← names_nameless, ← names_nameless, (alphaEq_iff_nameless t u).mp h]

/-- In `λx.λx.x z` the inner binder shadows the outer one, in `λy.λx.x z` it does not, and the name of
the unused binder makes no difference. Crossing the binders does. -/
theorem alphaEq_decides_nameless_shadowed :
    let t : Term := .lam "x" (.lam "x" (.app (.var "x") (.var "z") []))
    let u : Term := .lam "y" (.lam "x" (.app (.var "x") (.var "z") []))
    let v : Term := .lam "x" (.lam "y" (.app (.var "x") (.var "z") []))
    t.alphaEq u = true ∧ t.nameless [] = u.nameless [] ∧ t.free [] = u.free [] ∧
      t.nameless [] ≠ v.nameless [] := by
  intro t u v
  obtain ⟨hdecides, -, hfree⟩ := alphaEq_decides_nameless
  have htu : t.alphaEq u = true := by decide
  have htv : ¬t.alphaEq v = true := by decide
  exact ⟨htu, (hdecides t u).mp htu, hfree t u htu, fun himage => htv ((hdecides t v).mpr himage)⟩

end Term

end NormalOrder
