import NormalOrder.Proofs.DeBruijn
import NormalOrder.Proofs.SourceNames
import NormalOrder.Reduction.Sequence
import Mathlib.Tactic.Tauto

namespace NormalOrder.Term

open Naming Nameless DeBruijn

/-- The term below the binders `scope` as a nameless λ-term of two-place applications. -/
def deBruijn (scope : List String) (t : Term) : DeBruijn := (t.nameless scope).curry

theorem deBruijn_app (scope : List String) (f a : Term) (rest : List Term) :
    (Term.app f a rest).deBruijn scope =
      spine (f.deBruijn scope) ((a :: rest).map (deBruijn scope)) := by
  have hrest : curryAll (namelessAll scope rest) = rest.map (deBruijn scope) := by
    rw [curryAll_eq_map, namelessAll_eq_map, List.map_map]
    rfl
  rw [deBruijn, nameless, curry, hrest]
  rfl

theorem deBruijn_applyTo (scope : List String) (t : Term) (args : List Term) :
    (t.applyTo args).deBruijn scope = spine (t.deBruijn scope) (args.map (deBruijn scope)) := by
  cases args with
  | nil => rfl
  | cons a rest => exact deBruijn_app scope t a rest

theorem isLam_deBruijn {t : Term} (ht : ∀ x b, t ≠ .lam x b) (scope : List String) :
    (t.deBruijn scope).isLam = false := by
  cases t with
  | var x =>
    simp only [deBruijn, nameless, resolve]
    split_ifs <;> rfl
  | lam x b => exact absurd rfl (ht x b)
  | app f a rest =>
    rw [deBruijn_app]
    exact isLam_spine_app _ _ _

/-- Contracting a redex is substituting in the image. -/
theorem deBruijn_substitute {b a u : Term} {x : String} {c d : Int} (scope : List String)
    (h : Yields (b.substitute x a) c u d) (hapart : Apart c d x a) :
    u.deBruijn scope = (b.deBruijn (x :: scope)).subst 0 (a.deBruijn scope) := by
  have himage := nameless_substitute [] scope h hapart (by simp) (by simp)
  rw [deBruijn, deBruijn, deBruijn, ← curry_subst]
  exact congrArg curry himage

theorem yields_step_var {x : String} {c d : Int} {r : Option Term} :
    Yields (Term.var x).step c r d ↔ r = none ∧ d = c := by
  rw [step, yields_pure, eq_comm, @eq_comm _ c]

theorem yields_step_lam {x : String} {b : Term} {c d : Int} {r : Option Term} :
    Yields (Term.lam x b).step c r d ↔ ∃ s, Yields b.step c s d ∧ r = s.map (.lam x) := by
  rw [step, yields_bind_return]

theorem yields_step_redex {x : String} {b a : Term} {rest : List Term} {c d : Int}
    {r : Option Term} :
    Yields (Term.app (.lam x b) a rest).step c r d ↔
      ∃ u, Yields (b.substitute x a) c u d ∧ r = some (u.applyTo rest) := by
  rw [step, yields_bind_return]

theorem yields_stepFirst_nil {c d : Int} {r : Option (List Term)} :
    Yields (stepFirst []) c r d ↔ r = none ∧ d = c := by
  rw [stepFirst, yields_pure, eq_comm, @eq_comm _ c]

theorem yields_stepFirst_cons {t : Term} {ts : List Term} {c d : Int} {r : Option (List Term)} :
    Yields (stepFirst (t :: ts)) c r d ↔
      (∃ u, Yields t.step c (some u) d ∧ r = some (u :: ts)) ∨
        ∃ e us, Yields t.step c none e ∧ Yields (stepFirst ts) e us d ∧ r = us.map (t :: ·) := by
  rw [stepFirst, yields_bind_option]
  simp only [yields_bind_return, yields_pure]
  constructor
  · intro h
    obtain ⟨u, e, hu, rfl, rfl⟩ | ⟨e, ht, us, hus, rfl⟩ := h
    · exact .inl ⟨u, hu, rfl⟩
    · exact .inr ⟨e, us, ht, hus, rfl⟩
  · intro h
    obtain ⟨u, hu, rfl⟩ | ⟨e, us, ht, hus, rfl⟩ := h
    · exact .inl ⟨u, d, hu, rfl, rfl⟩
    · exact .inr ⟨e, ht, us, hus, rfl⟩

/-- An application that is no redex makes its step in the first element that is no normal form. -/
theorem yields_step_app {f a : Term} {rest : List Term} (hf : ∀ x b, f ≠ .lam x b) {c d : Int}
    {r : Option Term} :
    Yields (Term.app f a rest).step c r d ↔
      (∃ u, Yields f.step c (some u) d ∧ r = some (u.applyTo (a :: rest))) ∨
        ∃ e us, Yields f.step c none e ∧ Yields (stepFirst (a :: rest)) e us d ∧
          r = us.map f.applyTo := by
  rw [step.eq_4 f a rest hf, yields_bind_option]
  simp only [yields_stepFirst_cons, yields_pure]
  constructor
  · intro h
    obtain ⟨u, e, hu, rfl, rfl⟩ | ⟨e, hn, h⟩ := h
    · exact .inl ⟨u, hu, rfl⟩
    · obtain ⟨u, e', hu, h⟩ | ⟨e', ha, h⟩ := (yields_bind_option _ _ _ _ _).mp h
      · obtain ⟨rfl, rfl⟩ := (yields_pure _ _ _ _).mp h
        exact .inr ⟨e, _, hn, .inl ⟨u, hu, rfl⟩, rfl⟩
      · obtain ⟨us, hus, rfl⟩ := (yields_bind_return _ _ _ _ _).mp h
        exact .inr ⟨e, _, hn, .inr ⟨e', us, ha, hus, rfl⟩, by cases us <;> rfl⟩
  · intro h
    obtain ⟨u, hu, rfl⟩ | ⟨e, us, hn, h, rfl⟩ := h
    · exact .inl ⟨u, d, hu, rfl, rfl⟩
    · refine .inr ⟨e, hn, (yields_bind_option _ _ _ _ _).mpr ?_⟩
      obtain ⟨u, hu, rfl⟩ | ⟨e', vs, ha, hvs, rfl⟩ := h
      · exact .inl ⟨u, d, hu, (yields_pure _ _ _ _).mpr ⟨rfl, rfl⟩⟩
      · refine .inr ⟨e', ha, (yields_bind_return _ _ _ _ _).mpr ⟨vs, hvs, ?_⟩⟩
        cases vs <;> rfl

/-- What a step that ends with the counter at `d` has done to `t`: nothing, as there was no redex, or
it contracted the leftmost outermost one. -/
def Stepped (c : Int) (t : Term) : Option Term → Int → Prop
  | none, d => d = c ∧ ∀ scope, (t.deBruijn scope).IsNormal
  | some u, d =>
    Drawn c d t.names u.names ∧ ∀ scope, Leftmost (t.deBruijn scope) (u.deBruijn scope)

/-- The same for a step in one of the arguments `ts` of a head that has no redex. -/
def SteppedFirst (c : Int) (ts : List Term) : Option (List Term) → Int → Prop
  | none, d => d = c ∧ ∀ t ∈ ts, ∀ scope, (t.deBruijn scope).IsNormal
  | some us, d =>
    Drawn c d (namesAll ts) (namesAll us) ∧ ∀ scope h, h.isLam = false → h.IsNormal →
      Leftmost (spine h (ts.map (deBruijn scope))) (spine h (us.map (deBruijn scope)))

theorem stepFirst_spec (ts : List Term) (c : Int)
    (ih : ∀ t ∈ ts, ∀ c, t.FreshFrom c → ∃ r d, Yields t.step c r d ∧ t.Stepped c r d)
    (h : ∀ t ∈ ts, t.FreshFrom c) :
    ∃ r d, Yields (stepFirst ts) c r d ∧ SteppedFirst c ts r d := by
  induction ts with
  | nil => exact ⟨none, c, yields_stepFirst_nil.mpr ⟨rfl, rfl⟩, rfl, by simp⟩
  | cons t ts ihts =>
    obtain ⟨r, d, hstep, hspec⟩ := ih t (by simp) c (h t (by simp))
    cases r with
    | some u =>
      obtain ⟨hdrawn, hleft⟩ := hspec
      refine ⟨some (u :: ts), d, yields_stepFirst_cons.mpr (.inl ⟨u, hstep, rfl⟩), ?_, ?_⟩
      · exact (hdrawn.mono (List.subset_append_left _ _)).append
          (drawn_of_subset (List.subset_append_right _ _))
      · intro scope h hlam hnorm
        exact leftmost_spine _ rfl (leftmost_arg hlam hnorm (hleft scope))
    | none =>
      obtain ⟨rfl, hnormal⟩ := hspec
      obtain ⟨us, d, hfirst, hspec⟩ := ihts (fun u hu => ih u (List.mem_cons_of_mem _ hu))
        (fun u hu => h u (List.mem_cons_of_mem _ hu))
      refine ⟨us.map (t :: ·), d, yields_stepFirst_cons.mpr (.inr ⟨_, us, hstep, hfirst, rfl⟩), ?_⟩
      cases us with
      | none => exact ⟨hspec.1, List.forall_mem_cons.mpr ⟨hnormal, hspec.2⟩⟩
      | some us =>
        obtain ⟨hdrawn, hleft⟩ := hspec
        refine ⟨?_, ?_⟩
        · exact (drawn_of_subset (List.subset_append_left _ _)).append
            (hdrawn.mono (List.subset_append_right _ _))
        · intro scope h hlam hnorm
          exact hleft scope _ rfl (isNormal_app hlam hnorm (hnormal scope))

theorem step_redex_spec (x : String) (b a : Term) (rest : List Term) (c : Int)
    (h : (Term.app (.lam x b) a rest).FreshFrom c) :
    ∃ r d, Yields (Term.app (.lam x b) a rest).step c r d ∧
      (Term.app (.lam x b) a rest).Stepped c r d := by
  obtain ⟨hfn, ha, -⟩ := freshFrom_app_iff.mp h
  obtain ⟨hx, hb⟩ := freshFrom_lam_iff.mp hfn
  obtain ⟨u, d, hu, -⟩ := substitute_total b x a c hb
  have hdrawn : Drawn c d (b.names ++ a.names) u.names := drawn_substitute hu
  refine ⟨some (u.applyTo rest), d, yields_step_redex.mpr ⟨u, hu, rfl⟩, ?_, ?_⟩
  · rw [names_applyTo]
    have hsub : b.names ++ a.names ⊆ (Term.app (.lam x b) a rest).names := by
      intro y hy
      simp only [names, List.mem_append, List.mem_cons] at hy ⊢
      tauto
    exact (hdrawn.mono hsub).append (drawn_of_subset (List.subset_append_right _ _))
  · intro scope
    have hapart : Apart c d x a := fun k hk _ =>
      ⟨hx k hk, fun hfree => ha k hk (mem_names_of_mem_free hfree)⟩
    rw [deBruijn_applyTo, deBruijn_app, deBruijn_substitute scope hu hapart]
    exact leftmost_spine _ rfl (leftmost_beta _ _)

theorem step_app_spec (f a : Term) (rest : List Term) (c : Int) (hf : ∀ x b, f ≠ .lam x b)
    (hstep : ∃ r d, Yields f.step c r d ∧ f.Stepped c r d)
    (hfirst : ∃ r d, Yields (stepFirst (a :: rest)) c r d ∧ SteppedFirst c (a :: rest) r d) :
    ∃ r d, Yields (Term.app f a rest).step c r d ∧ (Term.app f a rest).Stepped c r d := by
  have hnames : (Term.app f a rest).names = f.names ++ namesAll (a :: rest) := by
    simp [names, namesAll]
  have hlam := isLam_deBruijn hf
  obtain ⟨r, d, hr, hspec⟩ := hstep
  cases r with
  | some u =>
    obtain ⟨hdrawn, hleft⟩ := hspec
    refine ⟨_, d, (yields_step_app hf).mpr (.inl ⟨u, hr, rfl⟩), ?_, ?_⟩
    · rw [hnames, names_applyTo]
      exact (hdrawn.mono (List.subset_append_left _ _)).append
        (drawn_of_subset (List.subset_append_right _ _))
    · intro scope
      rw [deBruijn_applyTo, deBruijn_app]
      exact leftmost_spine _ (hlam scope) (hleft scope)
  | none =>
    obtain ⟨rfl, hnormal⟩ := hspec
    obtain ⟨us, e, hus, hspec⟩ := hfirst
    refine ⟨_, e, (yields_step_app hf).mpr (.inr ⟨_, us, hr, hus, rfl⟩), ?_⟩
    cases us with
    | none =>
      refine ⟨hspec.1, fun scope => ?_⟩
      rw [deBruijn_app]
      apply isNormal_spine (hlam scope) (hnormal scope)
      intro v hv
      obtain ⟨t, ht, rfl⟩ := List.mem_map.mp hv
      exact hspec.2 t ht scope
    | some us =>
      obtain ⟨hdrawn, hleft⟩ := hspec
      refine ⟨?_, fun scope => ?_⟩
      · rw [hnames, names_applyTo]
        exact (drawn_of_subset (List.subset_append_left _ _)).append
          (hdrawn.mono (List.subset_append_right _ _))
      · rw [deBruijn_applyTo, deBruijn_app]
        exact hleft scope _ (hlam scope) (hnormal scope)

/-- A step that draws from above the names of its term meets no clash, and contracts the leftmost
outermost redex if there is one. -/
theorem step_spec (t : Term) (c : Int) (h : t.FreshFrom c) :
    ∃ r d, Yields t.step c r d ∧ t.Stepped c r d := by
  induction t generalizing c with
  | var x =>
    refine ⟨none, c, yields_step_var.mpr ⟨rfl, rfl⟩, rfl, fun scope => ?_⟩
    simp only [deBruijn, nameless, resolve]
    split_ifs
    · exact isNormal_bound _
    · exact isNormal_free x
  | lam x b ih =>
    obtain ⟨r, d, hr, hspec⟩ := ih c (freshFrom_lam_iff.mp h).2
    refine ⟨r.map (.lam x), d, yields_step_lam.mpr ⟨r, hr, rfl⟩, ?_⟩
    cases r with
    | none => exact ⟨hspec.1, fun scope => isNormal_lam (hspec.2 (x :: scope))⟩
    | some u =>
      obtain ⟨hdrawn, hleft⟩ := hspec
      have hhead : Drawn c c (x :: b.names) [x] := drawn_of_subset (by simp)
      exact ⟨hhead.append (hdrawn.mono (List.subset_cons_self _ _)),
        fun scope => leftmost_lam (hleft (x :: scope))⟩
  | app f a rest hf ha hrest =>
    by_cases hlam : ∃ x b, f = .lam x b
    · obtain ⟨x, b, rfl⟩ := hlam
      exact step_redex_spec x b a rest c h
    · obtain ⟨hff, hfa, hfrest⟩ := freshFrom_app_iff.mp h
      have hargs : ∀ t ∈ a :: rest, t.FreshFrom c := List.forall_mem_cons.mpr ⟨hfa, hfrest⟩
      have hfirst := stepFirst_spec (a :: rest) c (List.forall_mem_cons.mpr ⟨ha, hrest⟩) hargs
      exact step_app_spec f a rest c (fun x b hx => hlam ⟨x, b, hx⟩) (hf c hff) hfirst

/-- The terms `ts` are the first `n` of the leftmost outermost reduction of `t`, or all of them if
there are not so many, and `done` says whether the last of them ends it. -/
structure LeftmostRun (t : Term) (n : Nat) (ts : List Term) (done : Bool) : Prop where
  /-- The `k`-th term is the `k`-th reduct, as long as there is one. -/
  reduct : ∀ k s, (ts.map (deBruijn []))[k]? = some s ↔ k < n ∧ LeftmostReduct k (t.deBruijn []) s
  /-- Exactly the term that ends the run has no redex. -/
  stops : ∀ k u, ts[k]? = some u → ((u.deBruijn []).IsNormal ↔ k + 1 = ts.length ∧ done = true)
  ends : done = true → ts ≠ []

theorem leftmostRun_zero (t : Term) : LeftmostRun t 0 [] false :=
  ⟨by simp, by simp, by simp⟩

theorem leftmostRun_normal {t : Term} (n : Nat) (h : (t.deBruijn []).IsNormal) :
    LeftmostRun t (n + 1) [t] true := by
  refine ⟨?_, ?_, by simp⟩
  · intro k s
    cases k with
    | zero => simp [LeftmostReduct]
    | succ k =>
      have hnone : ¬LeftmostReduct (k + 1) (t.deBruijn []) s := by
        intro hred
        obtain ⟨s', hs', -⟩ := hred
        exact not_leftmost_of_isNormal h hs'
      simp [hnone]
  · intro k u hk
    cases k with
    | zero =>
      obtain rfl : t = u := by simpa using hk
      simpa using h
    | succ k => simp at hk

theorem leftmostRun_step {t u : Term} {n : Nat} {ts : List Term} {done : Bool}
    (h : Leftmost (t.deBruijn []) (u.deBruijn [])) (hrun : LeftmostRun u n ts done) :
    LeftmostRun t (n + 1) (t :: ts) done := by
  refine ⟨?_, ?_, by simp⟩
  · intro k s
    cases k with
    | zero => simp [LeftmostReduct]
    | succ k =>
      have hreduct : LeftmostReduct (k + 1) (t.deBruijn []) s ↔ LeftmostReduct k (u.deBruijn []) s := by
        constructor
        · intro hred
          obtain ⟨s', hs', hred⟩ := hred
          exact leftmost_unique hs' h ▸ hred
        · intro hred
          exact ⟨_, h, hred⟩
      simpa [hreduct] using hrun.reduct k s
  · intro k v hk
    cases k with
    | zero =>
      obtain rfl : t = v := by simpa using hk
      have hnot : ¬(t.deBruijn []).IsNormal := fun hn => not_leftmost_of_isNormal hn h
      have hends : ¬(0 + 1 = (t :: ts).length ∧ done = true) := by
        intro hlast
        have hnil : ts = [] := by simpa using hlast.1
        exact hrun.ends hlast.2 hnil
      exact iff_of_false hnot hends
    | succ k =>
      have hstops := hrun.stops k v (by simpa using hk)
      rw [hstops, List.length_cons, Nat.add_right_cancel_iff]

/-- A run that draws from above the names of its term meets no clash and follows the leftmost
outermost reduction. -/
theorem reductsFrom_spec (t : Term) (c : Int) (n : Nat) (h : t.FreshFrom c) :
    ∃ ts done, reductsFrom c t n = .ok (ts, done) ∧ LeftmostRun t n ts done := by
  induction n generalizing t c with
  | zero => exact ⟨[], false, rfl, leftmostRun_zero t⟩
  | succ n ih =>
    obtain ⟨r, d, hstep, hspec⟩ := step_spec t c h
    have hstep' : t.step c = (.ok r, d) := hstep
    cases r with
    | none => exact ⟨[t], true, by simp [reductsFrom, hstep'], leftmostRun_normal n (hspec.2 [])⟩
    | some u =>
      obtain ⟨hdrawn, hleft⟩ := hspec
      obtain ⟨ts, done, hrun, hfollows⟩ := ih u d (hdrawn.freshFrom h)
      refine ⟨t :: ts, done, ?_, leftmostRun_step (hleft []) hfollows⟩
      simp [reductsFrom, hstep', hrun, bind, Except.bind, pure, Except.pure]

theorem not_written_generated (k : Int) : ¬IsWritten (generated k) := by
  intro h
  have hhash : '#' ∈ (generated k).toList := by simp [generated]
  have halpha := (h.2 '#' hhash).1
  exact absurd halpha (by decide)

theorem freshFrom_of_written {t : Term} (h : ∀ x ∈ t.names, IsWritten x) (c : Int) : t.FreshFrom c :=
  fun k _ hk => not_written_generated k (h _ hk)

theorem freshFrom_of_parse {source : String} {t : Term} (h : parse (lex source) = .ok t) (c : Int) :
    t.FreshFrom c :=
  freshFrom_of_written (written_of_parse h) c

/-- A step is a step of leftmost outermost reduction: it fails to find a redex exactly in a normal
form, and what it gives otherwise is the one contractum. Hence the run of a source follows the
leftmost outermost reduction of its term, and stops exactly at the first term without a redex. -/
theorem step_leftmost_outermost :
    (∀ (t : Term) (c : Int), t.FreshFrom c →
      ∃ r d, t.step c = (.ok r, d) ∧ (r = none ↔ (t.deBruijn []).IsNormal) ∧ (r = none → d = c) ∧
        ∀ u, r = some u → ∀ s, Leftmost (t.deBruijn []) s ↔ s = u.deBruijn []) ∧
    ∀ (source : String) (t : Term), parse (lex source) = .ok t → ∀ n,
      ∃ ts done, t.reducts n = .ok (ts, done) ∧ LeftmostRun t n ts done := by
  constructor
  · intro t c h
    obtain ⟨r, d, hstep, hspec⟩ := step_spec t c h
    refine ⟨r, d, hstep, ?_⟩
    cases r with
    | none => exact ⟨by simpa using hspec.2 [], fun _ => hspec.1, by simp⟩
    | some u =>
      have hleft := hspec.2 []
      have hnot : ¬(t.deBruijn []).IsNormal := fun hn => not_leftmost_of_isNormal hn hleft
      refine ⟨by simpa using hnot, by simp, ?_⟩
      intro v hv s
      obtain rfl : u = v := by simpa using hv
      exact ⟨fun hs => leftmost_unique hs hleft, fun hs => hs ▸ hleft⟩
  · intro source t h n
    exact reductsFrom_spec t 0 n (freshFrom_of_parse h 0)

/-- The redex `(λx.λ#0.x #0) #0`, where the argument is the name of the inner binder. -/
theorem step_leftmost_outermost_capture :
    let t : Term := .app (.lam "x" (.lam "#0" (.app (.var "x") (.var "#0") []))) (.var "#0") []
    let u : Term := .app (.lam "x" (.app (.var "x") (.var "x") [])) (.lam "y" (.var "y")) [.var "z"]
    (t.FreshFrom 1 ∧ ∃ r d, t.step 1 = (.ok r, d) ∧ (r = none ↔ (t.deBruijn []).IsNormal) ∧
      (r = none → d = 1) ∧ ∀ v, r = some v → ∀ s, Leftmost (t.deBruijn []) s ↔ s = v.deBruijn []) ∧
    parse (lex "(\\x.x x) (λy . y) z") = .ok u ∧
      ∃ ts done, u.reducts 4 = .ok (ts, done) ∧ LeftmostRun u 4 ts done := by
  intro t u
  have hfresh : t.FreshFrom 1 := by
    intro k hk hmem
    have hnames : generated k = "x" ∨ generated k = generated 0 := by
      have hlist : generated k ∈ ["x", "#0", "x", "#0", "#0"] := hmem
      simp only [List.mem_cons, List.not_mem_nil, or_false] at hlist
      obtain h | h | h | h | h := hlist
      · exact .inl h
      · exact .inr h
      · exact .inl h
      · exact .inr h
      · exact .inr h
    obtain h | h := hnames
    · have hchars := congrArg String.toList h
      simp [generated] at hchars
    · have hzero := generated_injective h
      omega
  have hsource : parse (lex "(\\x.x x) (λy . y) z") = .ok u := by decide
  exact ⟨⟨hfresh, step_leftmost_outermost.1 t 1 hfresh⟩, hsource,
    step_leftmost_outermost.2 _ u hsource 4⟩

end NormalOrder.Term
