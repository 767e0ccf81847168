import NormalOrder.Reduction.Renaming

namespace NormalOrder.Term

@[elab_as_elim, induction_eliminator]
theorem induct {motive : Term → Prop} (var : ∀ x, motive (.var x))
    (lam : ∀ x b, motive b → motive (.lam x b))
    (app : ∀ f a rest, motive f → motive a → (∀ t ∈ rest, motive t) → motive (.app f a rest))
    (t : Term) : motive t := by
  refine @Term.rec motive (fun ts => ∀ t ∈ ts, motive t) var lam app ?_ ?_ t
  · intro t ht
    cases ht
  · intro u us hu hus
    exact List.forall_mem_cons.mpr ⟨hu, hus⟩

theorem namesAll_eq_flatMap (ts : List Term) : namesAll ts = ts.flatMap names := by
  induction ts with
  | nil => rfl
  | cons t ts ih => simp [namesAll, ih]

theorem freeAll_eq_flatMap (bound : List String) (ts : List Term) :
    freeAll bound ts = ts.flatMap (free bound) := by
  induction ts with
  | nil => rfl
  | cons t ts ih => simp [freeAll, ih]

theorem size_lt_sizeAll {t : Term} {ts : List Term} (h : t ∈ ts) : t.size < sizeAll ts := by
  induction ts with
  | nil => cases h
  | cons u us ih =>
    simp only [sizeAll]
    rcases List.mem_cons.mp h with rfl | h
    · omega
    · have hu := ih h
      omega

theorem renameAll_eq_map (old new : String) (ts : List Term) :
    renameAll old new ts = ts.map (rename old new) := by
  induction ts with
  | nil => rfl
  | cons t ts ih => simp [renameAll, ih]

end NormalOrder.Term
