import NormalOrder.Proofs.Contraction
import NormalOrder.Proofs.Positions

namespace NormalOrder.Term

open Naming

/-- An application whose first element is an abstraction. -/
def isRedex : Term → Bool
  | .app (.lam _ _) _ _ => true
  | _ => false

theorem isRedex_app {f : Term} (hf : ∀ x b, f ≠ .lam x b) (a : Term) (rest : List Term) :
    (Term.app f a rest).isRedex = false := by
  cases f with
  | lam x b => exact absurd rfl (hf x b)
  | _ => rfl

/-- The first redex among the subterms, with its position. -/
def firstRedexAt? (t : Term) : Option (Position × Term) := t.preorder.find? (·.2.isRedex)

/-- The first redex inside the parts from number `i` on. -/
def firstRedexAmong? (i : Nat) (ts : List Term) : Option (Position × Term) :=
  (preorderAll i ts).find? (·.2.isRedex)

theorem firstRedexAt?_of_isRedex {t : Term} (h : t.isRedex = true) :
    t.firstRedexAt? = some ([], t) := by
  simp only [firstRedexAt?, preorder_eq, List.find?_cons, h]

theorem firstRedexAt?_of_not_isRedex {t : Term} (h : t.isRedex = false) :
    t.firstRedexAt? = firstRedexAmong? 0 t.parts := by
  simp only [firstRedexAt?, preorder_eq, List.find?_cons, h, firstRedexAmong?]

theorem firstRedexAmong?_cons (i : Nat) (t : Term) (ts : List Term) :
    firstRedexAmong? i (t :: ts) =
      (t.firstRedexAt?.map (ofPart i)).or (firstRedexAmong? (i + 1) ts) := by
  rw [firstRedexAmong?, preorderAll, List.find?_append, List.find?_map]
  rfl

/-- The search finds nothing exactly when no position leads to a redex. -/
theorem firstRedexAt?_eq_none_iff {t : Term} :
    t.firstRedexAt? = none ↔ ∀ p s, t.at? p = some s → s.isRedex = false := by
  simp only [firstRedexAt?, List.find?_eq_none, Prod.forall, mem_preorder, Bool.not_eq_true]

theorem at?_of_firstRedexAt? {t s : Term} {p : Position} (h : t.firstRedexAt? = some (p, s)) :
    t.at? p = some s := mem_preorder.mp (List.mem_of_find?_eq_some h)

theorem redex?_of_not_isRedex {t : Term} (h : t.isRedex = false) : t.redex? = firstRedex? t.parts := by
  cases t with
  | var x => rfl
  | lam x b => simp [redex?, parts, firstRedex?]
  | app f a rest =>
    have hf : ∀ x b, f ≠ .lam x b := by
      rintro x b rfl
      cases h
    exact redex?_app hf a rest

theorem firstRedex?_eq_none_iff {ts : List Term}
    (ih : ∀ t ∈ ts, t.redex? = none ↔ t.firstRedexAt? = none) (i : Nat) :
    firstRedex? ts = none ↔ firstRedexAmong? i ts = none := by
  induction ts generalizing i with
  | nil => simp [firstRedex?, firstRedexAmong?, preorderAll]
  | cons t ts ihts =>
    obtain ⟨ht, hts⟩ := List.forall_mem_cons.mp ih
    rw [firstRedex?, firstRedexAmong?_cons, Option.or_eq_none_iff, Option.or_eq_none_iff,
      Option.map_eq_none_iff, ht, ihts hts (i + 1)]

/-- What a step looks for is there exactly when a redex is. -/
theorem redex?_eq_none_iff {t : Term} : t.redex? = none ↔ t.firstRedexAt? = none := by
  induction t using inductParts with
  | parts t ih =>
    cases h : t.isRedex with
    | true =>
      have hsome : t.redex? ≠ none := by
        match t, h with
        | .app (.lam x b) a rest, _ => simp [redex?]
      simp [firstRedexAt?_of_isRedex h, hsome]
    | false =>
      rw [redex?_of_not_isRedex h, firstRedexAt?_of_not_isRedex h]
      exact firstRedex?_eq_none_iff ih 0

/-- The redex `s` becomes `w` when it is contracted with the names from number `c` on; the next one is
then number `d`. -/
def Contractum (c d : Int) (s w : Term) : Prop :=
  ∃ x b a rest v, s = .app (.lam x b) a rest ∧ Yields (b.substitute x a) c v d ∧
    collapse (v :: rest) = .ok w

/-- The term `u` is `t` with the contractum of its first redex in the place of that. -/
def ContractsFirst (c d : Int) (t u : Term) : Prop :=
  ∃ p s w, t.firstRedexAt? = some (p, s) ∧ Contractum c d s w ∧ u = t.replaceAt p w

theorem firstRedexAt?_of_step_none {t : Term} {c d : Int} (h : Yields t.step c none d) :
    t.firstRedexAt? = none ∧ d = c := by
  obtain ⟨hnone, hdc⟩ : t.redex? = none ∧ d = c := outcome_step h
  exact ⟨redex?_eq_none_iff.mp hnone, hdc⟩

/-- A step in a list of terms, numbered from `i` on, contracts the first redex among them. -/
theorem contractsFirst_stepFirst {ts us : List Term} {c d : Int}
    (ih : ∀ t ∈ ts, ∀ u c d, Yields t.step c (some u) d → ContractsFirst c d t u)
    (h : Yields (stepFirst ts) c (some us) d) (i : Nat) :
    ∃ j p s w, firstRedexAmong? i ts = some ((i + j) :: p, s) ∧ Contractum c d s w ∧
      us = ts.modify j fun t => t.replaceAt p w := by
  induction ts generalizing c us i with
  | nil =>
    obtain ⟨hnone, -⟩ := yields_stepFirst_nil.mp h
    cases hnone
  | cons t ts ihts =>
    rw [firstRedexAmong?_cons]
    obtain ⟨u, hu, hus⟩ | ⟨e, vs, ht, hvs, hus⟩ := yields_stepFirst_cons.mp h
    · obtain ⟨p, s, w, hfirst, hw, rfl⟩ := ih t (by simp) u c d hu
      obtain rfl := Option.some.inj hus
      exact ⟨0, p, s, w, by rw [hfirst]; rfl, hw, rfl⟩
    · obtain ⟨hnone, rfl⟩ := firstRedexAt?_of_step_none ht
      obtain ⟨vs, rfl, rfl⟩ := Option.map_eq_some_iff.mp hus.symm
      obtain ⟨j, p, s, w, hfirst, hw, rfl⟩ :=
        ihts (fun u hu => ih u (List.mem_cons_of_mem _ hu)) hvs (i + 1)
      have hnumber : i + 1 + j = i + (j + 1) := by omega
      rw [hnumber] at hfirst
      exact ⟨j + 1, p, s, w, by rw [hnone, hfirst]; rfl, hw, rfl⟩

/-- A step contracts the first redex where it is. -/
theorem contractsFirst_step {t u : Term} {c d : Int} (h : Yields t.step c (some u) d) :
    ContractsFirst c d t u := by
  induction t generalizing u c d with
  | var x =>
    obtain ⟨hnone, -⟩ := yields_step_var.mp h
    cases hnone
  | lam x b ih =>
    obtain ⟨r, hr, hu⟩ := yields_step_lam.mp h
    obtain ⟨b', rfl, rfl⟩ := Option.map_eq_some_iff.mp hu.symm
    obtain ⟨p, s, w, hfirst, hw, rfl⟩ := ih hr
    refine ⟨0 :: p, s, w, ?_, hw, rfl⟩
    rw [firstRedexAt?_of_not_isRedex rfl, parts, firstRedexAmong?_cons, hfirst]
    rfl
  | app f a rest hf ha hrest =>
    by_cases hlam : ∃ x b, f = .lam x b
    · obtain ⟨x, b, rfl⟩ := hlam
      obtain ⟨v, hv, hu⟩ := yields_step_redex.mp h
      obtain rfl := Option.some.inj hu
      exact ⟨[], _, _, firstRedexAt?_of_isRedex rfl, ⟨x, b, a, rest, v, rfl, hv, rfl⟩, rfl⟩
    · have hlam' : ∀ x b, f ≠ .lam x b := fun x b hx => hlam ⟨x, b, hx⟩
      -- the step tries the head on its own, so the search is split there too
      have hsearch : (Term.app f a rest).firstRedexAt? =
          (f.firstRedexAt?.map (ofPart 0)).or (firstRedexAmong? 1 (a :: rest)) := by
        rw [firstRedexAt?_of_not_isRedex (isRedex_app hlam' a rest), parts, firstRedexAmong?_cons]
      obtain ⟨f', hf', hu⟩ | ⟨e, us, hn, hus, hu⟩ := (yields_step_app hlam').mp h
      · obtain ⟨p, s, w, hfirst, hw, rfl⟩ := hf hf'
        obtain rfl := Option.some.inj hu
        exact ⟨0 :: p, s, w, by rw [hsearch, hfirst]; rfl, hw, rfl⟩
      · obtain ⟨hnone, rfl⟩ := firstRedexAt?_of_step_none hn
        obtain ⟨us, rfl, rfl⟩ := Option.map_eq_some_iff.mp hu.symm
        obtain ⟨j, p, s, w, hfirst, hw, rfl⟩ := contractsFirst_stepFirst
          (List.forall_mem_cons.mpr ⟨fun _ _ _ => ha, fun t ht _ _ _ => hrest t ht⟩) hus 1
        rw [Nat.add_comm] at hfirst
        refine ⟨(j + 1) :: p, s, w, by rw [hsearch, hnone, hfirst]; rfl, hw, ?_⟩
        cases j <;> rfl

/-- A step finds nothing to do exactly in a term without a redex. -/
theorem step_eq_none_iff {t : Term} {r : Option Term} {c d : Int} (h : Yields t.step c r d) :
    r = none ↔ ∀ p s, t.at? p = some s → s.isRedex = false := by
  rw [← firstRedexAt?_eq_none_iff]
  cases r with
  | none =>
    obtain ⟨hnone, -⟩ := firstRedexAt?_of_step_none h
    exact iff_of_true rfl hnone
  | some u =>
    obtain ⟨p, s, w, hfirst, -⟩ := contractsFirst_step h
    simp [hfirst]

/-- A step puts the contractum of the first redex in the place of that. Outside this place every name and
every grouping of an application stays as it is. Where the step finds nothing to do there is no redex,
and it comes to one of these ends if the names that it draws are not names of the term. -/
theorem step_replaces_first_redex (t : Term) (c : Int) :
    (∀ u d, t.step c = (.ok (some u), d) → ∃ p x b a rest v w,
      t.firstRedexAt? = some (p, .app (.lam x b) a rest) ∧
      t.at? p = some (.app (.lam x b) a rest) ∧
      b.substitute x a c = (.ok v, d) ∧ collapse (v :: rest) = .ok w ∧ u = t.replaceAt p w ∧
      ∀ q, ¬p <+: q → (u.at? q).map node = (t.at? q).map node) ∧
    (∀ d, t.step c = (.ok none, d) → ∀ p s, t.at? p = some s → s.isRedex = false) ∧
    (t.FreshFrom c → ∃ r d, t.step c = (.ok r, d)) := by
  refine ⟨?replaced, ?normal, ?total⟩
  case replaced =>
    intro u d h
    obtain ⟨p, s, w, hfirst, ⟨x, b, a, rest, v, rfl, hv, hw⟩, rfl⟩ := contractsFirst_step h
    exact ⟨p, x, b, a, rest, v, w, hfirst, at?_of_firstRedexAt? hfirst, hv, hw, rfl,
      fun q hq => node_at?_replaceAt t w hq⟩
  case normal =>
    intro d h
    exact (step_eq_none_iff h).mp rfl
  case total =>
    intro hfresh
    obtain ⟨r, d, hstep, -⟩ := step_spec t c hfresh
    exact ⟨r, d, hstep⟩

/-- In `f ((λx.λy.x y) y) ((λz.z) w)` the first redex is the second element. The third one is met later,
and stays. -/
theorem step_replaces_first_redex_between :
    let b : Term := .lam "y" (.app (.var "x") (.var "y") [])
    let last : Term := .app (.lam "z" (.var "z")) (.var "w") []
    let t : Term := .app (.var "f") (.app (.lam "x" b) (.var "y") []) [last]
    let w : Term := .lam "#0" (.app (.var "y") (.var "#0") [])
    t.FreshFrom 0 ∧ t.step 0 = (.ok (some (t.replaceAt [1] w)), 1) ∧
    t.firstRedexAt? = some ([1], .app (.lam "x" b) (.var "y") []) ∧
    (t.replaceAt [1] w).at? [2] = some last ∧
    (∃ p x b a rest v w', t.firstRedexAt? = some (p, .app (.lam x b) a rest) ∧
      t.at? p = some (.app (.lam x b) a rest) ∧
      b.substitute x a 0 = (.ok v, 1) ∧ collapse (v :: rest) = .ok w' ∧
      t.replaceAt [1] w = t.replaceAt p w' ∧
      ∀ q, ¬p <+: q → ((t.replaceAt [1] w).at? q).map node = (t.at? q).map node) ∧
    ∃ r d, t.step 0 = (.ok r, d) := by
  intro b last t w
  have hfresh : t.FreshFrom 0 := freshFrom_of_written (by decide) 0
  have hstep : t.step 0 = (.ok (some (t.replaceAt [1] w)), 1) := by
    change @Eq (Except Clash (Option Term) × Int) _ _
    decide +kernel
  obtain ⟨hreplaced, -, htotal⟩ := step_replaces_first_redex t 0
  exact ⟨hfresh, hstep, by decide, by decide, hreplaced _ 1 hstep, htotal hfresh⟩

end NormalOrder.Term
