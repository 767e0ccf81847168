import NormalOrder.Proofs.Contraction

namespace NormalOrder

namespace Nameless

/-- Applies `t` to the given arguments, which may be none. -/
def applyTo (t : Nameless) : List Nameless → Nameless
  | [] => t
  | a :: rest => .app t a rest

mutual

/-- The term after one step of normal-order reduction, or nothing if it is a normal form. -/
def step : Nameless → Option Nameless
  | .free _ => none
  | .bound _ => none
  | .lam b => b.step.map .lam
  | .app (.lam b) a rest => some ((b.subst 0 a).applyTo rest)
  | .app f a rest =>
    match f.step with
    | some f => some (.app f a rest)
    | none =>
      match a.step with
      | some a => some (.app f a rest)
      | none => (stepFirst rest).map (.app f a)

def stepFirst : List Nameless → Option (List Nameless)
  | [] => none
  | t :: ts =>
    match t.step with
    | some t => some (t :: ts)
    | none => (stepFirst ts).map (t :: ·)

end

theorem step_app {f : Nameless} (hf : ∀ b, f ≠ .lam b) (a : Nameless) (rest : List Nameless) :
    (app f a rest).step = match f.step with
      | some f' => some (f'.applyTo (a :: rest))
      | none => (stepFirst (a :: rest)).map f.applyTo := by
  rw [step.eq_5 f a rest hf, stepFirst]
  cases f.step with
  | some f' => rfl
  | none =>
    cases a.step with
    | some a' => rfl
    | none => cases stepFirst rest <;> rfl

mutual

/-- The names that occur free, in text order. -/
def names : Nameless → List String
  | .free x => [x]
  | .bound _ => []
  | .lam b => b.names
  | .app f a rest => f.names ++ a.names ++ namesAll rest

def namesAll : List Nameless → List String
  | [] => []
  | t :: ts => t.names ++ namesAll ts

end

theorem namesAll_eq_flatMap (ts : List Nameless) : namesAll ts = ts.flatMap names := by
  induction ts with
  | nil => rfl
  | cons t ts ih => simp [namesAll, ih]

theorem mem_names_app {x : String} {f a : Nameless} {rest : List Nameless} :
    x ∈ (app f a rest).names ↔ x ∈ f.names ∨ x ∈ a.names ∨ ∃ t ∈ rest, x ∈ t.names := by
  simp [names, namesAll_eq_flatMap]

theorem mem_names_applyTo {x : String} {t : Nameless} {ts : List Nameless} :
    x ∈ (t.applyTo ts).names ↔ x ∈ t.names ∨ ∃ u ∈ ts, x ∈ u.names := by
  cases ts with
  | nil => simp [applyTo]
  | cons a rest => simp [applyTo, mem_names_app]

theorem mem_names_lift {x : String} {d k : Nat} {t : Nameless} :
    x ∈ (t.lift d k).names ↔ x ∈ t.names := by
  induction t generalizing k with
  | free y => rfl
  | bound i => simp [lift, names]
  | lam b ih => exact ih
  | app f a rest hf ha hrest =>
    simp only [lift, liftAll_eq_map, mem_names_app, hf, ha, List.mem_map, exists_exists_and_eq_and]
    have hall : (∃ t ∈ rest, x ∈ (t.lift d k).names) ↔ ∃ t ∈ rest, x ∈ t.names :=
      exists_congr fun t => and_congr_right fun ht => hrest t ht
    rw [hall]

/-- Nothing but the value brings in names. -/
theorem mem_names_subst {x : String} {t v : Nameless} {k : Nat} (h : x ∈ (t.subst k v).names) :
    x ∈ t.names ∨ x ∈ v.names := by
  induction t generalizing k with
  | free y => exact .inl h
  | bound i =>
    simp only [subst] at h
    split_ifs at h
    · exact .inl h
    · exact .inr (mem_names_lift.mp h)
    · exact .inl h
  | lam b ih => exact ih h
  | app f a rest hf ha hrest =>
    simp only [subst, substAll_eq_map, mem_names_app, List.mem_map,
      exists_exists_and_eq_and] at h ⊢
    obtain h | h | ⟨t, ht, h⟩ := h
    · exact (hf h).imp_left .inl
    · exact (ha h).imp_left (.inr ∘ .inl)
    · exact (hrest t ht h).imp_left fun hx => .inr (.inr ⟨t, ht, hx⟩)

theorem mem_names_stepFirst {ts us : List Nameless}
    (ih : ∀ t ∈ ts, ∀ u, t.step = some u → ∀ x ∈ u.names, x ∈ t.names)
    (h : stepFirst ts = some us) {x : String} (hx : ∃ u ∈ us, x ∈ u.names) :
    ∃ t ∈ ts, x ∈ t.names := by
  induction ts generalizing us with
  | nil => cases h
  | cons t ts ihts =>
    rw [stepFirst] at h
    cases ht : t.step with
    | some t' =>
      obtain rfl : t' :: ts = us := by simpa [ht] using h
      obtain ⟨u, hu, hx⟩ := hx
      obtain rfl | hu := List.mem_cons.mp hu
      · exact ⟨t, by simp, ih t (by simp) u ht x hx⟩
      · exact ⟨u, List.mem_cons_of_mem _ hu, hx⟩
    | none =>
      obtain ⟨vs, hvs, rfl⟩ : ∃ vs, stepFirst ts = some vs ∧ t :: vs = us := by simpa [ht] using h
      obtain ⟨u, hu, hx⟩ := hx
      obtain rfl | hu := List.mem_cons.mp hu
      · exact ⟨u, by simp, hx⟩
      · obtain ⟨v, hv, hx⟩ := ihts (fun w hw => ih w (List.mem_cons_of_mem _ hw)) hvs ⟨u, hu, hx⟩
        exact ⟨v, List.mem_cons_of_mem _ hv, hx⟩

/-- A step makes no name free. -/
theorem mem_names_step {t u : Nameless} (h : t.step = some u) {x : String} (hx : x ∈ u.names) :
    x ∈ t.names := by
  induction t generalizing u x with
  | free y => cases h
  | bound i => cases h
  | lam b ih =>
    obtain ⟨b', hb', rfl⟩ := Option.map_eq_some_iff.mp h
    exact ih hb' hx
  | app f a rest hf ha hrest =>
    by_cases hlam : ∃ b, f = .lam b
    · obtain ⟨b, rfl⟩ := hlam
      obtain rfl : (b.subst 0 a).applyTo rest = u := Option.some.inj h
      rw [mem_names_applyTo] at hx
      rw [mem_names_app]
      obtain hx | hx := hx
      · exact (mem_names_subst hx).imp_right .inl
      · exact .inr (.inr hx)
    · rw [step_app fun b hb => hlam ⟨b, hb⟩] at h
      rw [mem_names_app]
      cases hstep : f.step with
      | some f' =>
        obtain rfl : f'.applyTo (a :: rest) = u := by simpa [hstep] using h
        obtain hx | hx := mem_names_app.mp hx
        · exact .inl (hf hstep hx)
        · exact .inr hx
      | none =>
        obtain ⟨us, hus, rfl⟩ : ∃ us, stepFirst (a :: rest) = some us ∧ f.applyTo us = u := by
          simpa [hstep] using h
        obtain hx | hx := mem_names_applyTo.mp hx
        · exact .inl hx
        · have hfirst := mem_names_stepFirst
            (List.forall_mem_cons.mpr ⟨fun _ hs _ => ha hs, fun t ht _ hs _ => hrest t ht hs⟩) hus hx
          exact .inr (by simpa using hfirst)

end Nameless

namespace Term

open Naming Nameless

/-- The free occurrences in a term are the names in its image. -/
theorem names_nameless (scope : List String) (t : Term) :
    (t.nameless scope).names = t.free scope := by
  induction t generalizing scope with
  | var x =>
    simp only [nameless, free, resolve]
    split_ifs <;> rfl
  | lam x b ih => exact ih (x :: scope)
  | app f a rest hf ha hrest =>
    have hall : (rest.map (nameless scope)).flatMap Nameless.names = rest.flatMap (free scope) := by
      rw [List.flatMap_map]
      exact List.flatMap_congr fun t ht => hrest t ht scope
    simp only [nameless, Nameless.names, free, Nameless.namesAll_eq_flatMap, namelessAll_eq_map,
      freeAll_eq_flatMap, hf, ha, hall]

theorem nameless_applyTo (scope : List String) (t : Term) (ts : List Term) :
    (t.applyTo ts).nameless scope = (t.nameless scope).applyTo (ts.map (nameless scope)) := by
  cases ts with
  | nil => rfl
  | cons a rest =>
    simp only [applyTo, nameless, Nameless.applyTo, List.map_cons, namelessAll_eq_map]

theorem nameless_ne_lam {t : Term} (ht : ∀ x b, t ≠ .lam x b) (scope : List String) (b : Nameless) :
    t.nameless scope ≠ .lam b := by
  cases t with
  | var x => exact resolve_ne_lam scope x b
  | lam x b => exact absurd rfl (ht x b)
  | app f a rest => simp [nameless]

/-- None of the names numbered from `c` on but before `d` is a name of the function of the leftmost
outermost redex or free in its argument. -/
def Clear (c d : Int) (t : Term) : Prop :=
  ∀ f a, t.redex? = some (f, a) → ¬Meets c d (f.names ++ a.free [])

theorem clear_of_redex?_eq_none {t : Term} (h : t.redex? = none) (c d : Int) : t.Clear c d := by
  intro f a hredex
  rw [h] at hredex
  cases hredex

theorem FreshFrom.clear {c : Int} {t : Term} (h : t.FreshFrom c) (d : Int) : t.Clear c d := by
  intro f a hredex hmeets
  obtain ⟨k, hck, -, hk⟩ := hmeets
  have hsub : f.names ++ a.names ⊆ t.names := names_redex? hredex
  refine h k hck (hsub ?_)
  rw [List.mem_append] at hk ⊢
  exact hk.imp_right mem_names_of_mem_free

theorem nameless_stepFirst {ts : List Term} {r : Option (List Term)} {c d : Int}
    {scope : List String}
    (ih : ∀ t ∈ ts, ∀ r c d, Yields t.step c r d → t.Clear c d →
      (t.nameless scope).step = r.map (nameless scope))
    (h : Yields (stepFirst ts) c r d)
    (hclear : ∀ f a, firstRedex? ts = some (f, a) → ¬Meets c d (f.names ++ a.free [])) :
    Nameless.stepFirst (ts.map (nameless scope)) = r.map (List.map (nameless scope)) := by
  induction ts generalizing r c with
  | nil =>
    obtain ⟨rfl, -⟩ := yields_stepFirst_nil.mp h
    rfl
  | cons t ts ihts =>
    rw [List.map_cons, Nameless.stepFirst]
    rw [firstRedex?] at hclear
    obtain ⟨u, hu, rfl⟩ | ⟨e, us, ht, hus, rfl⟩ := yields_stepFirst_cons.mp h
    · have ht : t.Clear c d := fun f a hredex => hclear f a (by rw [hredex, Option.some_or])
      have hstep := ih t (by simp) (some u) c d hu ht
      simp [hstep]
    · obtain ⟨hnone, rfl⟩ : t.redex? = none ∧ e = c := outcome_step ht
      rw [hnone, Option.none_or] at hclear
      have hstep := ih t (by simp) none e e ht (clear_of_redex?_eq_none hnone e e)
      have hrest := ihts (fun u hu => ih u (List.mem_cons_of_mem _ hu)) hus hclear
      rw [hstep, hrest]
      cases us <;> rfl

/-- A step whose names are clear of its redex is a step of the image. -/
theorem nameless_step {t : Term} {r : Option Term} {c d : Int} (h : Yields t.step c r d)
    (hclear : t.Clear c d) (scope : List String) :
    (t.nameless scope).step = r.map (nameless scope) := by
  induction t generalizing r c d scope with
  | var x =>
    obtain ⟨rfl, -⟩ := yields_step_var.mp h
    simp only [nameless, resolve]
    split_ifs <;> rfl
  | lam x b ih =>
    obtain ⟨s, hs, rfl⟩ := yields_step_lam.mp h
    have hb := ih hs hclear (x :: scope)
    rw [nameless, Nameless.step, hb]
    cases s <;> rfl
  | app f a rest hf ha hrest =>
    by_cases hlam : ∃ x b, f = .lam x b
    · obtain ⟨x, b, rfl⟩ := hlam
      obtain ⟨u, hu, rfl⟩ := yields_step_redex.mp h
      have hredex := hclear (.lam x b) a rfl
      have hapart : Apart c d x a := by
        intro k hck hkd
        constructor
        · rintro rfl
          exact hredex ⟨k, hck, hkd, by simp [names]⟩
        · intro hk
          exact hredex ⟨k, hck, hkd, List.mem_append_right _ hk⟩
      have himage := nameless_substitute [] scope hu hapart (by simp) (by simp)
      simp only [List.nil_append, List.length_nil] at himage
      rw [Option.map_some, nameless_applyTo, himage, nameless, nameless, namelessAll_eq_map,
        Nameless.step]
    · have hlam' : ∀ x b, f ≠ .lam x b := fun x b hx => hlam ⟨x, b, hx⟩
      rw [Clear, redex?_app hlam'] at hclear
      rw [nameless, Nameless.step_app (nameless_ne_lam hlam' scope), namelessAll_eq_map,
        ← List.map_cons]
      obtain ⟨u, hu, rfl⟩ | ⟨e, us, hn, hus, rfl⟩ := (yields_step_app hlam').mp h
      · have hfn : f.Clear c d := fun g b hredex => hclear g b (by rw [hredex, Option.some_or])
        rw [hf hu hfn scope]
        simp [nameless_applyTo]
      · obtain ⟨hnone, rfl⟩ : f.redex? = none ∧ e = c := outcome_step hn
        rw [hnone, Option.none_or] at hclear
        have hstep := hf hn (clear_of_redex?_eq_none hnone e e) scope
        have hfirst := nameless_stepFirst
          (List.forall_mem_cons.mpr ⟨fun _ _ _ hy hcl => ha hy hcl scope,
            fun t ht _ _ _ hy hcl => hrest t ht hy hcl scope⟩) hus hclear
        rw [hstep, hfirst]
        cases us with
        | none => rfl
        | some us => simp [nameless_applyTo]

/-- A step whose names are clear of its redex meets no clash. -/
theorem yields_step_of_clear {t : Term} {c : Int} (h : t.Clear c (t.step c).2) :
    ∃ r, Yields t.step c r (t.step c).2 := by
  obtain hyields | hfails := yields_or_fails t.step c
  · exact hyields
  · obtain ⟨f, a, hredex, hmeets⟩ := clashes_step hfails
    exact absurd (hmeets.mono (Int.le_refl c) (List.subset_append_left _ _)) (h f a hredex)

end Term

end NormalOrder
