import NormalOrder.Proofs.Terms
import NormalOrder.Term.Alpha

namespace NormalOrder

namespace Bindings

/-- The names that are known, with or without partners. -/
def names (bs : Bindings) : List String := bs.map Prod.fst

/-- The bindings with the names `xs` made known. -/
def acquaint (bs : Bindings) (xs : List String) : Bindings := bs ++ xs.map fun x => (x, [])

theorem partners_push (bs : Bindings) (x p z : String) :
    (bs.push x p).partners z = if x = z then bs.partners z ++ [p] else bs.partners z := by
  induction bs with
  | nil => by_cases hx : x = z <;> simp [push, partners, hx]
  | cons b bs ih =>
    obtain ⟨y, ps⟩ := b
    by_cases hy : y = x
    · by_cases hx : x = z <;> simp [push, partners, hy, hx]
    · by_cases hz : y = z
      · subst hz
        simp [push, partners, hy, Ne.symm hy]
      · simp [push, partners, hy, hz, ih]

@[simp] theorem partners_acquaint (bs : Bindings) (xs : List String) (z : String) :
    (bs.acquaint xs).partners z = bs.partners z := by
  induction bs with
  | nil =>
    induction xs with
    | nil => rfl
    | cons x xs ih =>
      have hrest : partners z (xs.map fun x => (x, [])) = [] := ih
      simp [acquaint, partners, hrest]
  | cons b bs ih =>
    obtain ⟨y, ps⟩ := b
    have hrest : partners z (bs ++ xs.map fun x => (x, [])) = partners z bs := ih
    simp [acquaint, partners, hrest]

@[simp] theorem names_acquaint (bs : Bindings) (xs : List String) :
    (bs.acquaint xs).names = bs.names ++ xs := by
  simp [names, acquaint, Function.comp_def]

theorem acquaint_nil (bs : Bindings) : bs.acquaint [] = bs := List.append_nil bs

theorem acquaint_acquaint (bs : Bindings) (xs ys : List String) :
    (bs.acquaint xs).acquaint ys = bs.acquaint (xs ++ ys) := by
  simp [acquaint]

theorem mem_names_push (bs : Bindings) (x p z : String) :
    z ∈ (bs.push x p).names ↔ z ∈ bs.names ∨ z = x := by
  induction bs with
  | nil => simp [push, names]
  | cons b bs ih =>
    obtain ⟨y, ps⟩ := b
    have hrest : z ∈ (push x p bs).map Prod.fst ↔ z ∈ bs.map Prod.fst ∨ z = x := ih
    by_cases hy : y = x
    · by_cases hz : z = x <;> simp [push, names, hy, hz]
    · simp [push, names, hy, hrest, or_assoc]

/-- Closing a binder that was just opened leaves at most its name behind. -/
theorem pop_push (bs : Bindings) (x p : String) :
    (bs.push x p).pop x = bs.acquaint (if x ∈ bs.names then [] else [x]) := by
  induction bs with
  | nil => simp [push, pop, names, acquaint]
  | cons b bs ih =>
    obtain ⟨y, ps⟩ := b
    by_cases hy : y = x
    · simp [push, pop, names, acquaint, hy]
    · have hx : x ∈ names ((y, ps) :: bs) ↔ x ∈ names bs := by simp [names, Ne.symm hy]
      simp only [push, pop, hy, if_false, ih, hx]
      rfl

theorem pop_acquaint {bs : Bindings} {x : String} (hx : x ∈ bs.names) (xs : List String) :
    (bs.acquaint xs).pop x = (bs.pop x).acquaint xs := by
  induction bs with
  | nil => simp [names] at hx
  | cons b bs ih =>
    obtain ⟨y, ps⟩ := b
    by_cases hy : y = x
    · simp [acquaint, pop, hy]
    · have hrest : x ∈ names bs := by simpa [names, Ne.symm hy] using hx
      have hpop : pop x (bs ++ xs.map fun x => (x, [])) = pop x bs ++ xs.map fun x => (x, []) :=
        ih hrest
      simp [acquaint, pop, hy, hpop]

/-- The bindings `after` are those of `before`, and some of the names `xs` have become known. -/
def Grows (xs : List String) (before after : Bindings) : Prop :=
  ∃ added, after = before.acquaint added ∧ added.Nodup ∧ ∀ x ∈ added, x ∉ before.names ∧ x ∈ xs

theorem grows_refl (xs : List String) (bs : Bindings) : Grows xs bs bs :=
  ⟨[], (acquaint_nil bs).symm, List.nodup_nil, by simp⟩

theorem Grows.mono {xs ys : List String} {before after : Bindings} (h : Grows xs before after)
    (hsub : xs ⊆ ys) : Grows ys before after := by
  obtain ⟨added, hafter, hnodup, hadded⟩ := h
  exact ⟨added, hafter, hnodup, fun x hx => ⟨(hadded x hx).1, hsub (hadded x hx).2⟩⟩

theorem Grows.trans {xs : List String} {before between after : Bindings}
    (h : Grows xs before between) (h' : Grows xs between after) : Grows xs before after := by
  obtain ⟨first, rfl, hfirst, hnew⟩ := h
  obtain ⟨second, rfl, hsecond, hnew'⟩ := h'
  simp only [names_acquaint, List.mem_append, not_or] at hnew'
  refine ⟨first ++ second, acquaint_acquaint _ _ _, ?_, ?_⟩
  · refine List.nodup_append.mpr ⟨hfirst, hsecond, ?_⟩
    rintro x hx y hy rfl
    exact (hnew' x hy).1.2 hx
  · intro x hx
    rcases List.mem_append.mp hx with hx | hx
    · exact hnew x hx
    · exact ⟨(hnew' x hx).1.1, (hnew' x hx).2⟩

/-- What happens while a binder is open leaves its own names behind, and the binder at most one
more. -/
theorem Grows.pop {xs : List String} {before after : Bindings} {x p : String}
    (h : Grows xs (before.push x p) after) : Grows (x :: xs) before (after.pop x) := by
  obtain ⟨added, rfl, hnodup, hnew⟩ := h
  have hx : x ∈ (before.push x p).names := (mem_names_push before x p x).mpr (.inr rfl)
  simp only [mem_names_push, not_or] at hnew
  rw [pop_acquaint hx, pop_push, acquaint_acquaint]
  have hadded : ∀ z ∈ added, z ∉ before.names ∧ z ∈ x :: xs :=
    fun z hz => ⟨(hnew z hz).1.1, List.mem_cons_of_mem _ (hnew z hz).2⟩
  by_cases hknown : x ∈ before.names
  · exact ⟨added, by simp [hknown], hnodup, hadded⟩
  · refine ⟨x :: added, by simp [hknown], ?_, ?_⟩
    · exact List.nodup_cons.mpr ⟨fun hmem => (hnew x hmem).1.2 rfl, hnodup⟩
    · exact List.forall_mem_cons.mpr ⟨⟨hknown, List.mem_cons_self⟩, hadded⟩

/-- The bindings `after` give every name the partners that it has in `before`, no name has been
forgotten, and those that have become known are among `xs`. -/
structure Restores (xs : List String) (before after : Bindings) : Prop where
  partners_eq : ∀ z, after.partners z = before.partners z
  kept : before.names ⊆ after.names
  added : ∀ z ∈ after.names, z ∉ before.names → z ∈ xs
  /-- The entries themselves are as they were, and in their order; those that have come are behind
  them, without partners and one for each name. -/
  behind : Grows xs before after

theorem Grows.restores {xs : List String} {before after : Bindings} (h : Grows xs before after) :
    Restores xs before after := by
  obtain ⟨added, hafter, -, hnew⟩ := id h
  refine ⟨?_, ?_, ?_, h⟩
  · intro z
    rw [hafter, partners_acquaint]
  · rw [hafter, names_acquaint]
    exact List.subset_append_left _ _
  · intro z hz hunknown
    rw [hafter, names_acquaint] at hz
    rcases List.mem_append.mp hz with hz | hz
    · exact absurd hz hunknown
    · exact (hnew z hz).2

end Bindings

namespace Term

mutual

/-- The parameters of the abstractions in the term, in text order. -/
def params : Term → List String
  | .var _ => []
  | .lam x b => x :: b.params
  | .app f a rest => f.params ++ a.params ++ paramsAll rest

def paramsAll : List Term → List String
  | [] => []
  | t :: ts => t.params ++ paramsAll ts

end

/-- Both sides of a comparison may have come to know some more names. -/
def Pairing.Grows (xs ys : List String) (s s' : Pairing) : Prop :=
  s.left.Grows xs s'.left ∧ s.right.Grows ys s'.right

theorem Pairing.grows_refl (xs ys : List String) (s : Pairing) : s.Grows xs ys s :=
  ⟨Bindings.grows_refl xs s.left, Bindings.grows_refl ys s.right⟩

theorem Pairing.Grows.mono {xs xs' ys ys' : List String} {s s' : Pairing} (h : s.Grows xs ys s')
    (hxs : xs ⊆ xs') (hys : ys ⊆ ys') : s.Grows xs' ys' s' :=
  ⟨h.1.mono hxs, h.2.mono hys⟩

theorem Pairing.Grows.trans {xs ys : List String} {s s' s'' : Pairing} (h : s.Grows xs ys s')
    (h' : s'.Grows xs ys s'') : s.Grows xs ys s'' :=
  ⟨h.1.trans h'.1, h.2.trans h'.2⟩

theorem Pairing.Grows.leave {xs ys : List String} {s s' : Pairing} {x y : String}
    (h : (s.enter x y).Grows xs ys s') : s.Grows (x :: xs) (y :: ys) (s'.leave x y) :=
  ⟨h.1.pop, h.2.pop⟩

theorem compareAll_grows {ts : List Term}
    (ih : ∀ t ∈ ts, ∀ s u, Pairing.Grows t.params u.params s (compare s t u).2) (s : Pairing)
    (us : List Term) : s.Grows (paramsAll ts) (paramsAll us) (compareAll s ts us).2 := by
  induction ts generalizing s us with
  | nil => exact s.grows_refl _ _
  | cons t ts ihts =>
    cases us with
    | nil => exact s.grows_refl _ _
    | cons u us =>
      have ht := (ih t (by simp) s u).mono (List.subset_append_left _ (paramsAll ts))
        (List.subset_append_left _ (paramsAll us))
      have hts := (ihts (fun v hv => ih v (List.mem_cons_of_mem _ hv)) (compare s t u).2 us).mono
        (List.subset_append_right t.params _) (List.subset_append_right u.params _)
      simp only [compareAll]
      split
      · exact ht.trans hts
      · exact ht

/-- What a comparison leaves behind are parameters of the terms that it compares. -/
theorem compare_grows (s : Pairing) (t u : Term) :
    s.Grows t.params u.params (compare s t u).2 := by
  induction t generalizing s u with
  | var x => cases u <;> exact s.grows_refl _ _
  | lam x b ih =>
    cases u with
    | lam y c => exact (ih (s.enter x y) c).leave
    | _ => exact s.grows_refl _ _
  | app f a rest hf ha hrest =>
    cases u with
    | app g b others =>
      let xs := params (.app f a rest)
      let ys := params (.app g b others)
      let s₁ := (compare s f g).2
      let s₂ := (compare s₁ a b).2
      have hfn : s.Grows xs ys s₁ := (hf s g).mono (by simp [xs, params]) (by simp [ys, params])
      have harg : s₁.Grows xs ys s₂ := (ha s₁ b).mono (by simp [xs, params]) (by simp [ys, params])
      have hall : s₂.Grows xs ys (compareAll s₂ rest others).2 :=
        (compareAll_grows hrest s₂ others).mono (by simp [xs, params]) (by simp [ys, params])
      simp only [compare]
      split
      · split
        · split
          · exact hfn.trans (harg.trans hall)
          · exact hfn.trans harg
        · exact hfn
      · exact s.grows_refl _ _
    | _ => exact s.grows_refl _ _

/-- A comparison, whichever way it ends, gives back the binders that were open on both sides, and
makes known only parameters of the term on that side. -/
theorem comparison_restores_binders (s : Pairing) (t u : Term) :
    s.left.Restores t.params (compare s t u).2.left ∧
      s.right.Restores u.params (compare s t u).2.right :=
  ⟨(compare_grows s t u).1.restores, (compare_grows s t u).2.restores⟩

/-- The outer `x` has a partner again in the end, and the names of the inner binders stay known. -/
example : compare ⟨[("x", ["p"])], []⟩ (.lam "x" (.lam "z" (.var "x")))
    (.lam "y" (.lam "y" (.var "y"))) = (false, ⟨[("x", ["p"]), ("z", [])], [("y", [])]⟩) := by
  decide

end Term

end NormalOrder
