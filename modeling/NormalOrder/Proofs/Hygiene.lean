import NormalOrder.Proofs.Runs

namespace NormalOrder.Term

open Naming Nameless

mutual

/-- The binders on the way to each variable, outermost first. -/
def binderPaths : Term → List (List String)
  | .var _ => [[]]
  | .lam x b => b.binderPaths.map (x :: ·)
  | .app f a rest => f.binderPaths ++ a.binderPaths ++ binderPathsAll rest

def binderPathsAll : List Term → List (List String)
  | [] => []
  | t :: ts => t.binderPaths ++ binderPathsAll ts

end

mutual

/-- The elements of each application in the term. -/
def applications : Term → List (List Term)
  | .var _ => []
  | .lam _ b => b.applications
  | .app f a rest => (f :: a :: rest) :: (f.applications ++ a.applications ++ applicationsAll rest)

def applicationsAll : List Term → List (List Term)
  | [] => []
  | t :: ts => t.applications ++ applicationsAll ts

end

theorem binderPathsAll_eq_flatMap (ts : List Term) : binderPathsAll ts = ts.flatMap binderPaths := by
  induction ts with
  | nil => rfl
  | cons t ts ih => simp [binderPathsAll, ih]

theorem applicationsAll_eq_flatMap (ts : List Term) :
    applicationsAll ts = ts.flatMap applications := by
  induction ts with
  | nil => rfl
  | cons t ts ih => simp [applicationsAll, ih]

theorem two_le_length_of_mem_applications {t : Term} {ts : List Term} (h : ts ∈ t.applications) :
    2 ≤ ts.length := by
  induction t with
  | var x => cases h
  | lam x b ih => exact ih h
  | app f a rest hf ha hrest =>
    simp only [applications, applicationsAll_eq_flatMap, List.mem_cons, List.mem_append,
      List.mem_flatMap] at h
    obtain rfl | (h | h) | ⟨t, ht, h⟩ := h
    · simp
    · exact hf h
    · exact ha h
    · exact hrest t ht h

theorem mem_binderPaths_app {p : List String} {f a : Term} {rest : List Term} :
    p ∈ (Term.app f a rest).binderPaths ↔
      p ∈ f.binderPaths ∨ p ∈ a.binderPaths ∨ ∃ t ∈ rest, p ∈ t.binderPaths := by
  simp [binderPaths, binderPathsAll_eq_flatMap]

theorem mem_binderPaths_applyTo {p : List String} {t : Term} {ts : List Term} :
    p ∈ (t.applyTo ts).binderPaths ↔ p ∈ t.binderPaths ∨ ∃ u ∈ ts, p ∈ u.binderPaths := by
  cases ts with
  | nil => simp [applyTo]
  | cons a rest => simp [applyTo, mem_binderPaths_app]

theorem mem_names_of_mem_binderPaths {x : String} {p : List String} {t : Term}
    (hp : p ∈ t.binderPaths) (hx : x ∈ p) : x ∈ t.names := by
  induction t generalizing p with
  | var y =>
    obtain rfl : p = [] := by simpa [binderPaths] using hp
    cases hx
  | lam y b ih =>
    obtain ⟨q, hq, rfl⟩ := List.mem_map.mp hp
    obtain rfl | hx := List.mem_cons.mp hx
    · simp [names]
    · exact List.mem_cons_of_mem _ (ih hq hx)
  | app f a rest hf ha hrest =>
    rw [mem_names_app]
    obtain hp | hp | ⟨t, ht, hp⟩ := mem_binderPaths_app.mp hp
    · exact .inl (hf hp hx)
    · exact .inr (.inl (ha hp hx))
    · exact .inr (.inr ⟨t, ht, hrest t ht hp hx⟩)

theorem binderPaths_rename (old new : String) (t : Term) :
    (t.rename old new).binderPaths = t.binderPaths := by
  induction t with
  | var x => rfl
  | lam x b ih =>
    simp only [rename]
    split_ifs
    · rfl
    · rw [binderPaths, binderPaths, ih]
  | app f a rest hf ha hrest =>
    have hall : (rest.map (rename old new)).flatMap binderPaths = rest.flatMap binderPaths := by
      rw [List.flatMap_map]
      exact List.flatMap_congr hrest
    simp only [rename, binderPaths, binderPathsAll_eq_flatMap, renameAll_eq_map, hf, ha, hall]

/-- The path `p` has the generated names of `q`, and besides names numbered from `c` on but before `d`,
each of them at most once. -/
def Extends (c d : Int) (p q : List String) : Prop :=
  ∀ k, p.count (generated k) ≤ q.count (generated k) + if c ≤ k ∧ k < d then 1 else 0

theorem extends_refl (c d : Int) (p : List String) : Extends c d p p :=
  fun _ => Nat.le_add_right _ _

theorem Extends.mono {c c' d d' : Int} {p q : List String} (h : Extends c d p q) (hc : c' ≤ c)
    (hd : d ≤ d') : Extends c' d' p q := by
  intro k
  have hk := h k
  split_ifs at hk ⊢ <;> omega

theorem Extends.cons {c d : Int} {p q : List String} (h : Extends c d p q) (x : String) :
    Extends c d (x :: p) (x :: q) := by
  intro k
  have hk := h k
  simp only [List.count_cons]
  omega

theorem Extends.below {c d : Int} {p q : List String} (h : Extends c d p q) (x : String) :
    Extends c d p (x :: q) := by
  intro k
  have hk := h k
  simp only [List.count_cons]
  omega

/-- A binder with the next name goes on top of a path without it. -/
theorem Extends.fresh {c d : Int} {p q : List String} (h : Extends (c + 1) d p q) (hcd : c < d) :
    Extends c d (generated c :: p) q := by
  intro k
  have hk := h k
  by_cases hkc : k = c
  · subst hkc
    rw [List.count_cons_self]
    split_ifs at hk ⊢ <;> omega
  · have hne : generated c ≠ generated k := fun heq => hkc (generated_injective heq).symm
    rw [List.count_cons_of_ne hne]
    split_ifs at hk ⊢ <;> omega

theorem extends_substituteAll {ts us : List Term} {old : String} {value : Term} {c d : Int}
    (ih : ∀ t ∈ ts, ∀ u c d, Yields (t.substitute old value) c u d → ∀ p ∈ u.binderPaths,
      ∃ q, (q ∈ t.binderPaths ∨ q ∈ value.binderPaths) ∧ Extends c d p q)
    (h : Yields (substituteAll ts old value) c us d) {u : Term} (hu : u ∈ us) {p : List String}
    (hp : p ∈ u.binderPaths) :
    ∃ q, ((∃ t ∈ ts, q ∈ t.binderPaths) ∨ q ∈ value.binderPaths) ∧ Extends c d p q := by
  induction ts generalizing c us with
  | nil =>
    obtain ⟨rfl, -⟩ := yields_substituteAll_nil.mp h
    cases hu
  | cons t ts ihts =>
    obtain ⟨t', e, ts', ht, hts, rfl⟩ := yields_substituteAll_cons.mp h
    have hce : c ≤ e := (drawn_substitute ht).1
    have hed : e ≤ d := (drawn_substituteAll (fun _ _ _ _ _ => drawn_substitute) hts).1
    obtain rfl | hu := List.mem_cons.mp hu
    · obtain ⟨q, hq, hext⟩ := ih t (by simp) u c e ht p hp
      exact ⟨q, hq.imp_left fun hq => ⟨t, by simp, hq⟩, hext.mono (Int.le_refl c) hed⟩
    · obtain ⟨q, hq, hext⟩ := ihts (fun v hv => ih v (List.mem_cons_of_mem _ hv)) hts hu
      refine ⟨q, hq.imp_left ?_, hext.mono hce (Int.le_refl d)⟩
      rintro ⟨v, hv, hq⟩
      exact ⟨v, List.mem_cons_of_mem _ hv, hq⟩

/-- A path of a substituted term passes only new binders before it goes on along a path of the term,
where the variable is bound again, or of the value. -/
theorem extends_substitute {t value u : Term} {old : String} {c d : Int}
    (h : Yields (t.substitute old value) c u d) {p : List String} (hp : p ∈ u.binderPaths) :
    ∃ q, (q ∈ t.binderPaths ∨ q ∈ value.binderPaths) ∧ Extends c d p q := by
  induction t using inductRename generalizing c u d p with
  | var x =>
    obtain ⟨rfl, -⟩ := yields_substitute_var.mp h
    split_ifs at hp
    · exact ⟨p, .inr hp, extends_refl c d p⟩
    · exact ⟨p, .inl hp, extends_refl c d p⟩
  | lam x b ih =>
    by_cases hx : x = old
    · subst hx
      obtain ⟨rfl, -⟩ := yields_substitute_lam_self.mp h
      exact ⟨p, .inl hp, extends_refl c d p⟩
    · obtain ⟨-, b', hb', rfl⟩ := (yields_substitute_lam hx).mp h
      have hcd : c + 1 ≤ d := (drawn_substitute hb').1
      obtain ⟨p', hp', rfl⟩ := List.mem_map.mp hp
      obtain ⟨q, hq, hext⟩ := ih (generated c) hb' hp'
      rw [binderPaths_rename] at hq
      obtain hq | hq := hq
      · exact ⟨x :: q, .inl (List.mem_map_of_mem hq), (hext.fresh (by omega)).below x⟩
      · exact ⟨q, .inr hq, hext.fresh (by omega)⟩
  | app f a rest hf ha hrest =>
    obtain ⟨f', c₁, a', c₂, rest', hf', ha', hrest', rfl⟩ := yields_substitute_app.mp h
    have h₁ : c ≤ c₁ := (drawn_substitute hf').1
    have h₂ : c₁ ≤ c₂ := (drawn_substitute ha').1
    have h₃ : c₂ ≤ d := (drawn_substituteAll (fun _ _ _ _ _ => drawn_substitute) hrest').1
    simp only [mem_binderPaths_app]
    obtain hp | hp | ⟨v, hv, hp⟩ := mem_binderPaths_app.mp hp
    · obtain ⟨q, hq, hext⟩ := hf hf' hp
      exact ⟨q, hq.imp_left .inl, hext.mono (by omega) (by omega)⟩
    · obtain ⟨q, hq, hext⟩ := ha ha' hp
      exact ⟨q, hq.imp_left (.inr ∘ .inl), hext.mono (by omega) (by omega)⟩
    · obtain ⟨q, hq, hext⟩ := extends_substituteAll
        (fun t ht _ _ _ hy _ hp => hrest t ht hy hp) hrest' hv hp
      exact ⟨q, hq.imp_left (.inr ∘ .inr), hext.mono (by omega) (by omega)⟩

/-- A step only puts new binders on the paths of a term. -/
theorem Contracts.extends {t u : Term} {c d : Int} (h : Contracts c d t u) {p : List String}
    (hp : p ∈ u.binderPaths) : ∃ q ∈ t.binderPaths, Extends c d p q := by
  induction h generalizing p with
  | @redex x b a u rest hu =>
    simp only [mem_binderPaths_app]
    obtain hp | hp := mem_binderPaths_applyTo.mp hp
    · obtain ⟨q, hq | hq, hext⟩ := extends_substitute hu hp
      · exact ⟨x :: q, .inl (List.mem_map_of_mem hq), hext.below x⟩
      · exact ⟨q, .inr (.inl hq), hext⟩
    · exact ⟨p, .inr (.inr hp), extends_refl c d p⟩
  | body x _ ih =>
    obtain ⟨p', hp', rfl⟩ := List.mem_map.mp hp
    obtain ⟨q, hq, hext⟩ := ih hp'
    exact ⟨x :: q, List.mem_map_of_mem hq, hext.cons x⟩
  | function a rest _ ih =>
    simp only [mem_binderPaths_app]
    obtain hp | hp := mem_binderPaths_app.mp hp
    · obtain ⟨q, hq, hext⟩ := ih hp
      exact ⟨q, .inl hq, hext⟩
    · exact ⟨p, .inr hp, extends_refl c d p⟩
  | @argument f before t t' after _ ih =>
    simp only [mem_binderPaths_applyTo]
    obtain hp | ⟨v, hv, hpv⟩ := mem_binderPaths_applyTo.mp hp
    · exact ⟨p, .inl hp, extends_refl c d p⟩
    · obtain hv | rfl | hv : v ∈ before ∨ v = t' ∨ v ∈ after := by simpa using hv
      · exact ⟨p, .inr ⟨v, by simp [hv], hpv⟩, extends_refl c d p⟩
      · obtain ⟨q, hq, hext⟩ := ih hpv
        exact ⟨q, .inr ⟨t, by simp, hq⟩, hext⟩
      · exact ⟨p, .inr ⟨v, by simp [hv], hpv⟩, extends_refl c d p⟩

/-- No two binders on the way to a variable have the same generated name. -/
def BoundOnce (t : Term) : Prop := ∀ p ∈ t.binderPaths, ∀ k, p.count (generated k) ≤ 1

theorem Contracts.boundOnce {t u : Term} {c d : Int} (h : Contracts c d t u) (hfresh : t.FreshFrom c)
    (ht : t.BoundOnce) : u.BoundOnce := by
  intro p hp k
  obtain ⟨q, hq, hext⟩ := h.extends hp
  have hk := hext k
  by_cases hck : c ≤ k
  · -- a name that was still to be drawn is not on the old path
    have hzero : q.count (generated k) = 0 := by
      rw [List.count_eq_zero]
      exact fun hmem => hfresh k hck (mem_names_of_mem_binderPaths hq hmem)
    split_ifs at hk <;> omega
  · have hone := ht q hq k
    rw [if_neg (by omega)] at hk
    omega

theorem boundOnce_of_not_mem_names {t : Term} (h : ∀ k, generated k ∉ t.names) : t.BoundOnce := by
  intro p hp k
  have hzero : p.count (generated k) = 0 := by
    rw [List.count_eq_zero]
    exact fun hmem => h k (mem_names_of_mem_binderPaths hp hmem)
  omega

/-- A step makes no variable free. -/
theorem free_subset_of_step {t u : Term} {c d : Int} (h : Yields t.step c (some u) d)
    (hclear : t.Clear c d) : u.free [] ⊆ t.free [] := by
  intro x hx
  have himage : (t.nameless []).step = some (u.nameless []) := nameless_step h hclear []
  rw [← names_nameless] at hx ⊢
  exact mem_names_step himage hx

/-- What is true of a term `u` that the reduction of `t` reaches when the next name is number `c`. -/
structure Hygienic (t u : Term) (c : Int) : Prop where
  /-- Every name is a name of `t` or was drawn before. -/
  known : ∀ x ∈ u.names, x ∈ t.names ∨ ∃ k, 0 ≤ k ∧ k < c ∧ x = generated k
  closed : ∀ k, generated k ∉ u.free []
  boundOnce : u.BoundOnce
  wide : ∀ ts ∈ u.applications, 2 ≤ ts.length
  /-- The next step meets no clash. -/
  steps : ∃ r d, u.step c = (.ok r, d)

theorem hygienic_of_stateAfter {t u : Term} {c : Int} {k : Nat} (ht : ∀ k, generated k ∉ t.names)
    (h : stateAfter 0 t k = some (u, c)) : Hygienic t u c := by
  have hfresh : ∀ (v : Term) (d : Int), Drawn 0 d t.names v.names → v.FreshFrom d :=
    fun v d hv => hv.freshFrom fun k _ => ht k
  have hrun : Drawn 0 c t.names u.names ∧ u.BoundOnce ∧ u.free [] ⊆ t.free [] := by
    refine stateAfter_invariant
      (P := fun v d => Drawn 0 d t.names v.names ∧ v.BoundOnce ∧ v.free [] ⊆ t.free []) ?_ ?_ h
    · intro v d w e hv hstep
      obtain ⟨hdrawn, honce, hfree⟩ := hv
      have hcontract : Contracts d e v w := outcome_step hstep
      have hv := hfresh v d hdrawn
      exact ⟨hdrawn.trans hcontract.drawn, hcontract.boundOnce hv honce,
        List.Subset.trans (free_subset_of_step hstep (hv.clear e)) hfree⟩
    · exact ⟨drawn_of_subset (List.Subset.refl _), boundOnce_of_not_mem_names ht, List.Subset.refl _⟩
  obtain ⟨hdrawn, honce, hfree⟩ := hrun
  obtain ⟨r, d, hstep, -⟩ := step_spec u c (hfresh u c hdrawn)
  exact ⟨hdrawn.2, fun k hk => ht k (mem_names_of_mem_free (hfree hk)), honce,
    fun _ => two_le_length_of_mem_applications, r, d, hstep⟩

/-- The reduction of a source meets no clash, and each of its states is hygienic; from one term to the
next no variable becomes free. -/
theorem reduction_hygienic (source : String) (t : Term) (h : parse (lex source) = .ok t) :
    (∀ n, ∃ ts done, t.reducts n = .ok (ts, done) ∧
      ∀ k, ts[k]? = if k < n then (stateAfter 0 t k).map Prod.fst else none) ∧
    ∀ k u c, stateAfter 0 t k = some (u, c) → Hygienic t u c ∧
      ∀ v d, stateAfter 0 t (k + 1) = some (v, d) → v.free [] ⊆ u.free [] := by
  have ht : ∀ k, generated k ∉ t.names := fun k => freshFrom_of_parse h k k (Int.le_refl k)
  constructor
  · intro n
    obtain ⟨ts, done, hrun, -⟩ := reductsFrom_spec t 0 n (freshFrom_of_parse h 0)
    exact ⟨ts, done, hrun, reductsFrom_stateAfter hrun⟩
  · intro k u c hu
    refine ⟨hygienic_of_stateAfter ht hu, ?_⟩
    intro v d hv
    have hfresh : u.FreshFrom c := (drawn_of_stateAfter hu).freshFrom fun k _ => ht k
    exact free_subset_of_step (yields_of_stateAfter hu hv) (hfresh.clear d)

/-- The second step from `(λx.x x) (λy z.y z)` puts the abstraction into itself, and the third one
renames the binder that came in with it. -/
theorem reduction_hygienic_duplicated :
    let t : Term := .app (.lam "x" (.app (.var "x") (.var "x") []))
      (.lam "y" (.lam "z" (.app (.var "y") (.var "z") []))) []
    parse (lex "(λx.x x) (λy z.y z)") = .ok t ∧
    stateAfter 0 t 3 = some (.lam "#0" (.lam "#1" (.app (.var "#0") (.var "#1") [])), 2) ∧
    (∀ n, ∃ ts done, t.reducts n = .ok (ts, done) ∧
      ∀ k, ts[k]? = if k < n then (stateAfter 0 t k).map Prod.fst else none) ∧
    ∀ k u c, stateAfter 0 t k = some (u, c) → Hygienic t u c ∧
      ∀ v d, stateAfter 0 t (k + 1) = some (v, d) → v.free [] ⊆ u.free [] := by
  intro t
  have hsource : parse (lex "(λx.x x) (λy z.y z)") = .ok t := by decide
  have hstate : stateAfter 0 t 3 =
      some (.lam "#0" (.lam "#1" (.app (.var "#0") (.var "#1") [])), 2) := by decide +kernel
  exact ⟨hsource, hstate, reduction_hygienic _ t hsource⟩

end NormalOrder.Term
