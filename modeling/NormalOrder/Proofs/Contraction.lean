import NormalOrder.Proofs.Reduction

namespace NormalOrder

namespace Naming

variable {α β : Type}

/-- Beginning with name number `c`, the computation meets a clash, and the next name is then number
`d`. -/
def Fails (m : Naming α) (c d : Int) : Prop := ∃ clash, m c = (.error clash, d)

theorem yields_or_fails (m : Naming α) (c : Int) :
    (∃ a, Yields m c a (m c).2) ∨ Fails m c (m c).2 := by
  unfold Yields Fails
  match m c with
  | (.ok a, d) => exact .inl ⟨a, rfl⟩
  | (.error clash, d) => exact .inr ⟨clash, rfl⟩

theorem not_fails_pure (a : α) (c d : Int) : ¬Fails (pure a) c d := by
  intro h
  obtain ⟨clash, h⟩ := h
  cases h

theorem not_fails_fresh (c d : Int) : ¬Fails fresh c d := by
  intro h
  obtain ⟨clash, h⟩ := h
  cases h

theorem fails_lift {e : Except Clash α} {c d : Int} (h : Fails (liftM e) c d) :
    (∀ a, e ≠ .ok a) ∧ d = c := by
  obtain ⟨clash, h⟩ := h
  cases e with
  | ok a => cases h
  | error clash' =>
    cases h
    exact ⟨fun a => by simp, rfl⟩

theorem fails_bind {m : Naming α} {f : α → Naming β} {c d : Int} (h : Fails (m >>= f) c d) :
    Fails m c d ∨ ∃ a e, Yields m c a e ∧ Fails (f a) e d := by
  obtain ⟨clash, h⟩ := h
  rw [run_bind] at h
  match hm : m c with
  | (.ok a, e) =>
    rw [hm] at h
    exact .inr ⟨a, e, hm, clash, h⟩
  | (.error clash', e) =>
    rw [hm] at h
    cases h
    exact .inl ⟨clash, hm⟩

theorem fails_bind_return {m : Naming α} {g : α → β} {c d : Int}
    (h : Fails (m >>= fun a => pure (g a)) c d) : Fails m c d := by
  obtain h | ⟨a, e, -, h⟩ := fails_bind h
  · exact h
  · exact absurd h (not_fails_pure _ _ _)

/-- Where a result that was found is only handed on, a clash comes before it or without one. -/
theorem fails_bind_option {m : Naming (Option α)} {f : Option α → Naming β} {c d : Int}
    (h : Fails (m >>= f) c d) (hsome : ∀ a c d, ¬Fails (f (some a)) c d) :
    Fails m c d ∨ ∃ e, Yields m c none e ∧ Fails (f none) e d := by
  obtain h | ⟨r, e, hr, h⟩ := fails_bind h
  · exact .inl h
  · cases r with
    | some a => exact absurd h (hsome a e d)
    | none => exact .inr ⟨e, hr, h⟩

end Naming

namespace Term

open Naming

/-- One of the names numbered from `c` on but before `d` is among the given ones. -/
def Meets (c d : Int) (names : List String) : Prop := ∃ k, c ≤ k ∧ k < d ∧ generated k ∈ names

theorem Meets.mono {c c' d : Int} {names names' : List String} (h : Meets c' d names) (hc : c ≤ c')
    (hnames : names ⊆ names') : Meets c d names' := by
  obtain ⟨k, hck, hkd, hk⟩ := h
  exact ⟨k, Int.le_trans hc hck, hkd, hnames hk⟩

theorem meets_substituteAll {ts : List Term} {old : String} {value : Term} {c d : Int}
    (ih : ∀ t ∈ ts, ∀ c d, Fails (t.substitute old value) c d → Meets c d t.names)
    (h : Fails (substituteAll ts old value) c d) : Meets c d (namesAll ts) := by
  induction ts generalizing c with
  | nil =>
    rw [substituteAll] at h
    exact absurd h (not_fails_pure _ _ _)
  | cons t ts ihts =>
    rw [substituteAll] at h
    obtain h | ⟨t', e, ht, h⟩ := fails_bind h
    · exact (ih t (by simp) c d h).mono (Int.le_refl c) (List.subset_append_left _ _)
    · have htail := ihts (fun u hu => ih u (List.mem_cons_of_mem _ hu)) (fails_bind_return h)
      exact htail.mono (drawn_substitute ht).1 (List.subset_append_right _ _)

/-- A substitution fails only at a name of its term that it drew. -/
theorem meets_substitute {t value : Term} {old : String} {c d : Int}
    (h : Fails (t.substitute old value) c d) : Meets c d t.names := by
  induction t using inductRename generalizing c d with
  | var x =>
    rw [substitute] at h
    exact absurd h (not_fails_pure _ _ _)
  | lam x b ih =>
    rw [substitute] at h
    split_ifs at h with hx
    · exact absurd h (not_fails_pure _ _ _)
    obtain h | ⟨new, e, hnew, h⟩ := fails_bind h
    · exact absurd h (not_fails_fresh _ _)
    obtain ⟨rfl, rfl⟩ := (yields_fresh _ _ _).mp hnew
    obtain h | ⟨⟨⟩, e, hcheck, h⟩ := fails_bind h
    · -- the new name is in the body
      obtain ⟨hcheck, rfl⟩ := fails_lift h
      have hmem : generated c ∈ b.names := by
        by_contra hmem
        exact hcheck () (checkRename_ok hmem)
      exact ⟨c, Int.le_refl c, by omega, List.mem_cons_of_mem _ hmem⟩
    · -- a later name is in the renamed body, hence in the body itself
      obtain ⟨-, rfl⟩ := (yields_lift _ _ _ _).mp hcheck
      obtain ⟨k, hck, hkd, hk⟩ := ih (generated c) (fails_bind_return h)
      obtain hk | hk := mem_names_rename hk
      · exact ⟨k, by omega, hkd, List.mem_cons_of_mem _ hk⟩
      · have hkc := generated_injective hk
        omega
  | app f a rest hf ha hrest =>
    rw [substitute] at h
    obtain h | ⟨f', c₁, hf', h⟩ := fails_bind h
    · exact (hf h).mono (Int.le_refl c) (by grind [names])
    have h₁ : c ≤ c₁ := (drawn_substitute hf').1
    obtain h | ⟨a', c₂, ha', h⟩ := fails_bind h
    · exact (ha h).mono h₁ (by grind [names])
    have h₂ : c₁ ≤ c₂ := (drawn_substitute ha').1
    have hall := meets_substituteAll (fun t ht c d hfail => hrest t ht hfail) (fails_bind_return h)
    exact hall.mono (by omega) (by grind [names])

mutual

/-- The function and the argument of the leftmost outermost redex. -/
def redex? : Term → Option (Term × Term)
  | .var _ => none
  | .lam _ b => b.redex?
  | .app (.lam x b) a _ => some (.lam x b, a)
  | .app f a rest => f.redex?.or (a.redex?.or (firstRedex? rest))

def firstRedex? : List Term → Option (Term × Term)
  | [] => none
  | t :: ts => t.redex?.or (firstRedex? ts)

end

theorem redex?_app {f : Term} (hf : ∀ x b, f ≠ .lam x b) (a : Term) (rest : List Term) :
    (Term.app f a rest).redex? = f.redex?.or (firstRedex? (a :: rest)) := by
  rw [redex?.eq_4 f a rest hf, firstRedex?]

theorem names_firstRedex? {ts : List Term} {f a : Term}
    (ih : ∀ t ∈ ts, t.redex? = some (f, a) → f.names ++ a.names ⊆ t.names)
    (h : firstRedex? ts = some (f, a)) : f.names ++ a.names ⊆ namesAll ts := by
  induction ts with
  | nil => cases h
  | cons t ts ihts =>
    rw [firstRedex?, Option.or_eq_some_iff] at h
    obtain h | ⟨-, h⟩ := h
    · exact List.subset_append_of_subset_left _ (ih t (by simp) h)
    · have htail := ihts (fun u hu => ih u (List.mem_cons_of_mem _ hu)) h
      exact List.subset_append_of_subset_right _ htail

/-- The names of the redex are names of the term. -/
theorem names_redex? {t f a : Term} (h : t.redex? = some (f, a)) : f.names ++ a.names ⊆ t.names := by
  induction t with
  | var x => cases h
  | lam x b ih => exact List.subset_cons_of_subset _ (ih h)
  | app g b rest hg hb hrest =>
    by_cases hlam : ∃ x c, g = .lam x c
    · obtain ⟨x, c, rfl⟩ := hlam
      cases h
      exact List.subset_append_left _ _
    · rw [redex?_app fun x c hx => hlam ⟨x, c, hx⟩, Option.or_eq_some_iff] at h
      have hnames : (Term.app g b rest).names = g.names ++ namesAll (b :: rest) := by
        simp [names, namesAll]
      rw [hnames]
      obtain h | ⟨-, h⟩ := h
      · exact List.subset_append_of_subset_left _ (hg h)
      · have hfirst := names_firstRedex? (List.forall_mem_cons.mpr ⟨hb, hrest⟩) h
        exact List.subset_append_of_subset_right _ hfirst

/-- One redex of `t` is contracted, drawing the names from number `c` on but before `d`. -/
inductive Contracts (c d : Int) : Term → Term → Prop where
  | redex {x : String} {b a u : Term} (rest : List Term) :
    Yields (b.substitute x a) c u d → Contracts c d (.app (.lam x b) a rest) (u.applyTo rest)
  | body (x : String) {b b' : Term} : Contracts c d b b' → Contracts c d (.lam x b) (.lam x b')
  | function {f f' : Term} (a : Term) (rest : List Term) :
    Contracts c d f f' → Contracts c d (.app f a rest) (.app f' a rest)
  | argument (f : Term) (before : List Term) {t t' : Term} (after : List Term) :
    Contracts c d t t' →
      Contracts c d (f.applyTo (before ++ t :: after)) (f.applyTo (before ++ t' :: after))

/-- What a step to `r` did. -/
def Outcome (c d : Int) (t : Term) : Option Term → Prop
  | none => t.redex? = none ∧ d = c
  | some u => Contracts c d t u

theorem outcome_stepFirst {ts : List Term} {r : Option (List Term)} {c d : Int}
    (ih : ∀ t ∈ ts, ∀ r c d, Yields t.step c r d → t.Outcome c d r)
    (h : Yields (stepFirst ts) c r d) :
    (r = none ∧ firstRedex? ts = none ∧ d = c) ∨ ∃ before t t' after, ts = before ++ t :: after ∧
      r = some (before ++ t' :: after) ∧ Contracts c d t t' := by
  induction ts generalizing r c with
  | nil =>
    obtain ⟨rfl, rfl⟩ := yields_stepFirst_nil.mp h
    exact .inl ⟨rfl, rfl, rfl⟩
  | cons t ts ihts =>
    obtain ⟨u, hu, rfl⟩ | ⟨e, us, ht, hus, rfl⟩ := yields_stepFirst_cons.mp h
    · have hstep := ih t (by simp) (some u) c d hu
      exact .inr ⟨[], t, u, ts, rfl, rfl, hstep⟩
    · obtain ⟨hnone, rfl⟩ := ih t (by simp) none c e ht
      obtain ⟨rfl, hfirst, rfl⟩ | ⟨before, v, v', after, rfl, rfl, hstep⟩ :=
        ihts (fun u hu => ih u (List.mem_cons_of_mem _ hu)) hus
      · exact .inl ⟨rfl, by rw [firstRedex?, hnone, hfirst, Option.none_or], rfl⟩
      · exact .inr ⟨t :: before, v, v', after, rfl, rfl, hstep⟩

/-- A step that succeeds finds no redex and draws nothing, or contracts one redex. -/
theorem outcome_step {t : Term} {r : Option Term} {c d : Int} (h : Yields t.step c r d) :
    t.Outcome c d r := by
  induction t generalizing r c d with
  | var x =>
    obtain ⟨rfl, rfl⟩ := yields_step_var.mp h
    exact ⟨rfl, rfl⟩
  | lam x b ih =>
    obtain ⟨s, hs, rfl⟩ := yields_step_lam.mp h
    have hb := ih hs
    cases s with
    | none => exact hb
    | some b' => exact .body x hb
  | app f a rest hf ha hrest =>
    by_cases hlam : ∃ x b, f = .lam x b
    · obtain ⟨x, b, rfl⟩ := hlam
      obtain ⟨u, hu, rfl⟩ := yields_step_redex.mp h
      exact .redex rest hu
    · have hlam' : ∀ x b, f ≠ .lam x b := fun x b hx => hlam ⟨x, b, hx⟩
      obtain ⟨u, hu, rfl⟩ | ⟨e, us, hn, hus, rfl⟩ := (yields_step_app hlam').mp h
      · exact .function a rest (hf hu)
      · obtain ⟨hnone, rfl⟩ : f.redex? = none ∧ e = c := hf hn
        have hargs := outcome_stepFirst
          (List.forall_mem_cons.mpr ⟨fun _ _ _ => ha, fun t ht _ _ _ => hrest t ht⟩) hus
        obtain ⟨rfl, hfirst, rfl⟩ | ⟨before, v, v', after, hts, rfl, hstep⟩ := hargs
        · exact ⟨by rw [redex?_app hlam', hnone, hfirst, Option.none_or], rfl⟩
        · have hcontract : Contracts e d _ _ := .argument f before after hstep
          rw [← hts] at hcontract
          exact hcontract

theorem mem_names_applyTo {x : String} {f : Term} {ts : List Term} :
    x ∈ (f.applyTo ts).names ↔ x ∈ f.names ∨ ∃ t ∈ ts, x ∈ t.names := by
  simp [names_applyTo, namesAll_eq_flatMap]

/-- Names that stay may be added to both sides. -/
theorem Drawn.frame {c d : Int} {old old' new new' : List String} (h : Drawn c d old new)
    (hold : old ⊆ old') (hnew : ∀ x ∈ new', x ∈ new ∨ x ∈ old') : Drawn c d old' new' := by
  refine ⟨h.1, ?_⟩
  intro x hx
  obtain hx | hx := hnew x hx
  · exact (h.2 x hx).imp_left fun hx => hold hx
  · exact .inl hx

/-- A step brings in only the names that it draws. -/
theorem Contracts.drawn {t u : Term} {c d : Int} (h : Contracts c d t u) :
    Drawn c d t.names u.names := by
  induction h with
  | redex rest hu =>
    refine (drawn_substitute hu).frame ?_ ?_
    · grind [names]
    · intro y hy
      rw [mem_names_applyTo] at hy
      rw [mem_names_app]
      exact hy.imp_right fun hrest => .inr (.inr hrest)
  | body x _ ih =>
    refine ih.frame (List.subset_cons_self _ _) ?_
    intro y hy
    obtain rfl | hy := List.mem_cons.mp hy
    · exact .inr (by simp [names])
    · exact .inl hy
  | function a rest _ ih =>
    refine ih.frame ?_ ?_
    · grind [names]
    · grind [names]
  | argument f before after _ ih =>
    refine ih.frame ?_ ?_
    · intro y hy
      exact mem_names_applyTo.mpr (.inr ⟨_, by simp, hy⟩)
    · intro y hy
      simp only [mem_names_applyTo, List.mem_append, List.mem_cons] at hy ⊢
      grind

/-- A name numbered from `c` on but before `d` is a name of the redex's function. -/
def Clashes (c d : Int) (redex : Option (Term × Term)) : Prop :=
  ∃ f a, redex = some (f, a) ∧ Meets c d f.names

theorem Clashes.or_left {c d : Int} {r : Option (Term × Term)} (h : Clashes c d r)
    (s : Option (Term × Term)) : Clashes c d (r.or s) := by
  obtain ⟨f, a, rfl, hmeets⟩ := h
  exact ⟨f, a, rfl, hmeets⟩

theorem clashes_stepFirst {ts : List Term} {c d : Int}
    (ih : ∀ t ∈ ts, ∀ c d, Fails t.step c d → Clashes c d t.redex?)
    (h : Fails (stepFirst ts) c d) : Clashes c d (firstRedex? ts) := by
  induction ts generalizing c with
  | nil =>
    rw [stepFirst] at h
    exact absurd h (not_fails_pure _ _ _)
  | cons t ts ihts =>
    rw [stepFirst] at h
    rw [firstRedex?]
    obtain hfail | ⟨e, hr, hnext⟩ := fails_bind_option h fun _ => not_fails_pure _
    · exact (ih t (by simp) c d hfail).or_left _
    · obtain ⟨hnone, rfl⟩ : t.redex? = none ∧ e = c := outcome_step hr
      rw [hnone, Option.none_or]
      exact ihts (fun u hu => ih u (List.mem_cons_of_mem _ hu)) (fails_bind_return hnext)

/-- A step fails only at a name that it drew and that the function of its redex has. -/
theorem clashes_step {t : Term} {c d : Int} (h : Fails t.step c d) : Clashes c d t.redex? := by
  induction t generalizing c d with
  | var x =>
    rw [step] at h
    exact absurd h (not_fails_pure _ _ _)
  | lam x b ih =>
    rw [step] at h
    exact ih (fails_bind_return h)
  | app f a rest hf ha hrest =>
    by_cases hlam : ∃ x b, f = .lam x b
    · obtain ⟨x, b, rfl⟩ := hlam
      rw [step] at h
      have hmeets := meets_substitute (fails_bind_return h)
      exact ⟨.lam x b, a, rfl, hmeets.mono (Int.le_refl c) (List.subset_cons_self _ _)⟩
    · have hlam' : ∀ x b, f ≠ .lam x b := fun x b hx => hlam ⟨x, b, hx⟩
      rw [step.eq_4 f a rest hlam'] at h
      rw [redex?.eq_4 f a rest hlam']
      obtain hfail | ⟨e, hr, hnext⟩ := fails_bind_option h fun _ => not_fails_pure _
      · exact (hf hfail).or_left _
      obtain ⟨hnone, rfl⟩ : f.redex? = none ∧ e = c := outcome_step hr
      rw [hnone, Option.none_or]
      obtain hfail | ⟨e', hs, hlast⟩ := fails_bind_option hnext fun _ => not_fails_pure _
      · exact (ha hfail).or_left _
      obtain ⟨hnone', rfl⟩ : a.redex? = none ∧ e' = e := outcome_step hs
      rw [hnone', Option.none_or]
      exact clashes_stepFirst (fun t ht _ _ => hrest t ht) (fails_bind_return hlast)

end Term

end NormalOrder
