import NormalOrder.Proofs.Terms
import NormalOrder.Reduction.Substitution
import Mathlib.Tactic.SplitIfs

namespace NormalOrder

theorem toDigits_injective {m n : Nat} (h : Nat.toDigits 10 m = Nat.toDigits 10 n) : m = n := by
  have hvalue := congrArg (Nat.ofDigitChars 10 · 0) h
  simpa only [Nat.ofDigitChars_ten_toDigits] using hvalue

theorem minus_notMem_repr (n : Nat) : '-' ∉ n.repr.toList := by
  intro h
  rw [Nat.toList_repr] at h
  have hdigit := Nat.isDigit_of_mem_toDigits (by decide) (by decide) h
  exact absurd hdigit (by decide)

/-- Different numbers give different names. -/
theorem generated_injective {k l : Int} (h : generated k = generated l) : k = l := by
  have hrepr : (k.repr).toList = (l.repr).toList := by
    have hlist := congrArg String.toList h
    simpa [generated, Int.toString_eq_repr] using hlist
  match k, l with
  | .ofNat m, .ofNat n =>
    have hdigits : m.repr.toList = n.repr.toList := hrepr
    have hmn : m = n := toDigits_injective (by simpa using hdigits)
    rw [hmn]
  | .negSucc m, .negSucc n =>
    have htail : ("-" ++ (m + 1).repr).toList = ("-" ++ (n + 1).repr).toList := hrepr
    have hmn : m + 1 = n + 1 := toDigits_injective (by simpa using htail)
    rw [Nat.succ.inj hmn]
  | .ofNat m, .negSucc n =>
    have hsign : m.repr.toList = ("-" ++ (n + 1).repr).toList := hrepr
    exact absurd (by simp [hsign]) (minus_notMem_repr m)
  | .negSucc m, .ofNat n =>
    have hsign : ("-" ++ (m + 1).repr).toList = n.repr.toList := hrepr
    exact absurd (by simp [← hsign]) (minus_notMem_repr n)

namespace Naming

variable {α β : Type}

/-- Beginning with name number `c`, the computation succeeds with `a`, and the next name is then
number `d`. -/
def Yields (m : Naming α) (c : Int) (a : α) (d : Int) : Prop := m c = (.ok a, d)

theorem yields_pure (a b : α) (c d : Int) : Yields (pure a) c b d ↔ a = b ∧ c = d := by
  constructor
  · intro h
    cases h
    exact ⟨rfl, rfl⟩
  · intro h
    obtain ⟨rfl, rfl⟩ := h
    rfl

theorem run_bind (m : Naming α) (f : α → Naming β) (c : Int) :
    (m >>= f) c = match m c with
      | (.ok a, e) => f a e
      | (.error clash, e) => (.error clash, e) := by
  change (ExceptT.bindCont f (m c).1) (m c).2 = _
  match m c with
  | (.ok a, e) => rfl
  | (.error clash, e) => rfl

theorem yields_bind (m : Naming α) (f : α → Naming β) (c d : Int) (b : β) :
    Yields (m >>= f) c b d ↔ ∃ a e, Yields m c a e ∧ Yields (f a) e b d := by
  unfold Yields
  rw [run_bind]
  match m c with
  | (.ok a, e) =>
    constructor
    · intro h
      exact ⟨a, e, rfl, h⟩
    · intro h
      obtain ⟨a', e', ha, hf⟩ := h
      cases ha
      exact hf
  | (.error clash, e) =>
    constructor
    · intro h
      cases h
    · intro h
      obtain ⟨a', e', ha, -⟩ := h
      cases ha

/-- What is done with the last result draws no more names. -/
theorem yields_bind_return (m : Naming α) (g : α → β) (c d : Int) (b : β) :
    Yields (m >>= fun a => pure (g a)) c b d ↔ ∃ a, Yields m c a d ∧ b = g a := by
  simp only [yields_bind, yields_pure]
  constructor
  · intro h
    obtain ⟨a, e, ha, hb, rfl⟩ := h
    exact ⟨a, ha, hb.symm⟩
  · intro h
    obtain ⟨a, ha, hb⟩ := h
    exact ⟨a, d, ha, hb.symm, rfl⟩

theorem yields_bind_option (m : Naming (Option α)) (f : Option α → Naming β) (c d : Int) (b : β) :
    Yields (m >>= f) c b d ↔
      (∃ a e, Yields m c (some a) e ∧ Yields (f (some a)) e b d) ∨
        ∃ e, Yields m c none e ∧ Yields (f none) e b d := by
  rw [yields_bind]
  constructor
  · intro h
    obtain ⟨s, e, hs, hf⟩ := h
    cases s with
    | some a => exact .inl ⟨a, e, hs, hf⟩
    | none => exact .inr ⟨e, hs, hf⟩
  · intro h
    obtain ⟨a, e, hs, hf⟩ | ⟨e, hs, hf⟩ := h
    · exact ⟨some a, e, hs, hf⟩
    · exact ⟨none, e, hs, hf⟩

theorem yields_fresh (c d : Int) (x : String) :
    Yields fresh c x d ↔ x = generated c ∧ d = c + 1 := by
  constructor
  · intro h
    cases h
    exact ⟨rfl, rfl⟩
  · intro h
    obtain ⟨rfl, rfl⟩ := h
    rfl

theorem yields_lift (e : Except Clash α) (c d : Int) (a : α) :
    Yields (liftM e) c a d ↔ e = .ok a ∧ c = d := by
  cases e with
  | error clash =>
    constructor
    · intro h
      cases h
    · intro h
      cases h.1
  | ok b =>
    constructor
    · intro h
      cases h
      exact ⟨rfl, rfl⟩
    · intro h
      obtain ⟨hb, rfl⟩ := h
      cases hb
      rfl

end Naming

namespace Term

open Naming

theorem mem_names_app {x : String} {f a : Term} {rest : List Term} :
    x ∈ (Term.app f a rest).names ↔ x ∈ f.names ∨ x ∈ a.names ∨ ∃ t ∈ rest, x ∈ t.names := by
  simp [names, namesAll_eq_flatMap]

theorem mem_names_of_mem_free {x : String} {bound : List String} {t : Term}
    (h : x ∈ t.free bound) : x ∈ t.names := by
  induction t generalizing bound with
  | var y =>
    simp only [free] at h
    split at h
    · simp at h
    · exact h
  | lam y b ih => exact List.mem_cons_of_mem _ (ih h)
  | app f a rest hf ha hrest =>
    simp only [free, freeAll_eq_flatMap, List.mem_append, List.mem_flatMap] at h
    rw [mem_names_app]
    obtain (h | h) | ⟨t, ht, h⟩ := h
    · exact .inl (hf h)
    · exact .inr (.inl (ha h))
    · exact .inr (.inr ⟨t, ht, hrest t ht h⟩)

theorem mem_names_rename {x old new : String} {t : Term} (h : x ∈ (t.rename old new).names) :
    x ∈ t.names ∨ x = new := by
  induction t with
  | var y =>
    by_cases hy : y = old
    · simp [rename, names, hy] at h
      exact .inr h
    · exact .inl (by simpa [rename, names, hy] using h)
  | lam y b ih =>
    by_cases hy : y = old
    · exact .inl (by simpa [rename, hy] using h)
    · simp only [rename, hy, if_false, names, List.mem_cons] at h ⊢
      obtain h | h := h
      · exact .inl (.inl h)
      · obtain h | h := ih h
        · exact .inl (.inr h)
        · exact .inr h
  | app f a rest hf ha hrest =>
    simp only [rename, renameAll_eq_map, mem_names_app, List.mem_map] at h ⊢
    obtain h | h | ⟨u, ⟨t, ht, rfl⟩, h⟩ := h
    · exact (hf h).imp_left .inl
    · exact (ha h).imp_left (.inr ∘ .inl)
    · exact (hrest t ht h).imp_left fun hx => .inr (.inr ⟨t, ht, hx⟩)

/-- No name of the term is generated as number `c` or later. -/
def FreshFrom (c : Int) (t : Term) : Prop := ∀ k, c ≤ k → generated k ∉ t.names

theorem FreshFrom.mono {c d : Int} {t : Term} (h : t.FreshFrom c) (hcd : c ≤ d) : t.FreshFrom d :=
  fun k hk => h k (Int.le_trans hcd hk)

theorem FreshFrom.rename {c : Int} {old : String} {t : Term} (h : t.FreshFrom c) :
    (t.rename old (generated c)).FreshFrom (c + 1) := by
  intro k hk hmem
  obtain hmem | heq := mem_names_rename hmem
  · exact h k (by omega) hmem
  · have hkc := generated_injective heq
    omega

theorem freshFrom_lam_iff {c : Int} {x : String} {b : Term} :
    (Term.lam x b).FreshFrom c ↔ (∀ k, c ≤ k → generated k ≠ x) ∧ b.FreshFrom c := by
  simp only [FreshFrom, names, List.mem_cons, not_or, forall_and]

theorem freshFrom_app_iff {c : Int} {f a : Term} {rest : List Term} :
    (Term.app f a rest).FreshFrom c ↔
      f.FreshFrom c ∧ a.FreshFrom c ∧ ∀ t ∈ rest, t.FreshFrom c := by
  simp only [FreshFrom, mem_names_app, not_or, not_exists, not_and, forall_and]
  refine and_congr_right fun _ => and_congr_right fun _ => ?_
  exact ⟨fun h t ht k hk => h k hk t ht, fun h k hk t ht => h t ht k hk⟩

/-- Induction that lets the body of an abstraction be renamed first. -/
theorem inductRename {motive : Term → Prop} (var : ∀ x, motive (.var x))
    (lam : ∀ x b, (∀ new, motive (b.rename x new)) → motive (.lam x b))
    (app : ∀ f a rest, motive f → motive a → (∀ t ∈ rest, motive t) → motive (.app f a rest))
    (t : Term) : motive t := by
  have hsize : ∀ n, ∀ t : Term, t.size ≤ n → motive t := by
    intro n
    induction n with
    | zero =>
      intro t ht
      cases t <;> simp [size] at ht
    | succ n ih =>
      intro t ht
      cases t with
      | var x => exact var x
      | lam x b =>
        simp only [size] at ht
        apply lam
        intro new
        exact ih _ (by rw [size_rename]; omega)
      | app f a rest =>
        simp only [size] at ht
        refine app f a rest (ih f (by omega)) (ih a (by omega)) ?_
        intro t hmem
        have hlt := size_lt_sizeAll hmem
        exact ih t (by omega)
  exact hsize t.size t (Nat.le_refl _)

theorem yields_substitute_var {x old : String} {value u : Term} {c d : Int} :
    Yields ((Term.var x).substitute old value) c u d ↔
      u = (if x = old then value else .var x) ∧ d = c := by
  rw [substitute, yields_pure, eq_comm, @eq_comm _ c]

theorem yields_substitute_lam_self {x : String} {b value u : Term} {c d : Int} :
    Yields ((Term.lam x b).substitute x value) c u d ↔ u = .lam x b ∧ d = c := by
  rw [substitute, if_pos rfl, yields_pure, eq_comm, @eq_comm _ c]

theorem yields_substitute_lam {x old : String} {b value u : Term} {c d : Int} (hx : x ≠ old) :
    Yields ((Term.lam x b).substitute old value) c u d ↔
      checkRename x b (generated c) = .ok () ∧
        ∃ b', Yields ((b.rename x (generated c)).substitute old value) (c + 1) b' d ∧
          u = .lam (generated c) b' := by
  rw [substitute, if_neg hx]
  simp only [yields_bind, yields_fresh, yields_lift, yields_pure]
  constructor
  · intro h
    obtain ⟨new, e, ⟨rfl, rfl⟩, ⟨⟩, e', ⟨hcheck, rfl⟩, b', e'', hb, rfl, rfl⟩ := h
    exact ⟨hcheck, b', hb, rfl⟩
  · intro h
    obtain ⟨hcheck, b', hb, rfl⟩ := h
    exact ⟨_, _, ⟨rfl, rfl⟩, (), _, ⟨hcheck, rfl⟩, b', d, hb, rfl, rfl⟩

theorem yields_substitute_app {f a value u : Term} {rest : List Term} {old : String} {c d : Int} :
    Yields ((Term.app f a rest).substitute old value) c u d ↔
      ∃ f' c₁ a' c₂ rest', Yields (f.substitute old value) c f' c₁ ∧
        Yields (a.substitute old value) c₁ a' c₂ ∧
        Yields (substituteAll rest old value) c₂ rest' d ∧ u = .app f' a' rest' := by
  rw [substitute]
  simp only [yields_bind, yields_pure]
  constructor
  · intro h
    obtain ⟨f', c₁, hf, a', c₂, ha, rest', e, hrest, rfl, rfl⟩ := h
    exact ⟨f', c₁, a', c₂, rest', hf, ha, hrest, rfl⟩
  · intro h
    obtain ⟨f', c₁, a', c₂, rest', hf, ha, hrest, rfl⟩ := h
    exact ⟨f', c₁, hf, a', c₂, ha, rest', d, hrest, rfl, rfl⟩

theorem yields_substituteAll_nil {old : String} {value : Term} {us : List Term} {c d : Int} :
    Yields (substituteAll [] old value) c us d ↔ us = [] ∧ d = c := by
  rw [substituteAll, yields_pure, eq_comm, @eq_comm _ c]

theorem yields_substituteAll_cons {t value : Term} {ts us : List Term} {old : String} {c d : Int} :
    Yields (substituteAll (t :: ts) old value) c us d ↔
      ∃ t' e ts', Yields (t.substitute old value) c t' e ∧
        Yields (substituteAll ts old value) e ts' d ∧ us = t' :: ts' := by
  rw [substituteAll]
  simp only [yields_bind, yields_pure]
  constructor
  · intro h
    obtain ⟨t', e, ht, ts', e', hts, rfl, rfl⟩ := h
    exact ⟨t', e, ts', ht, hts, rfl⟩
  · intro h
    obtain ⟨t', e, ts', ht, hts, rfl⟩ := h
    exact ⟨t', e, ht, ts', d, hts, rfl, rfl⟩

theorem checkRename_ok {x new : String} {b : Term} (h : new ∉ b.names) :
    checkRename x b new = .ok () := by
  have hfree : new ∉ b.free [x] := fun hmem => h (mem_names_of_mem_free hmem)
  simp [checkRename, hfree, h]

theorem substituteAll_total (ts : List Term) (old : String) (value : Term) (c : Int)
    (ih : ∀ t ∈ ts, ∀ c, t.FreshFrom c → ∃ u d, Yields (t.substitute old value) c u d ∧ c ≤ d)
    (h : ∀ t ∈ ts, t.FreshFrom c) :
    ∃ us d, Yields (substituteAll ts old value) c us d ∧ c ≤ d := by
  induction ts generalizing c with
  | nil => exact ⟨[], c, yields_substituteAll_nil.mpr ⟨rfl, rfl⟩, Int.le_refl c⟩
  | cons t ts ihts =>
    obtain ⟨t', e, ht, hce⟩ := ih t (by simp) c (h t (by simp))
    have hfresh : ∀ u ∈ ts, u.FreshFrom e := fun u hu => (h u (List.mem_cons_of_mem _ hu)).mono hce
    obtain ⟨ts', d, hts, hed⟩ := ihts e (fun u hu => ih u (List.mem_cons_of_mem _ hu)) hfresh
    exact ⟨t' :: ts', d, yields_substituteAll_cons.mpr ⟨t', e, ts', ht, hts, rfl⟩, by omega⟩

/-- A substitution that draws from above the names of its term meets no clash. -/
theorem substitute_total (t : Term) (old : String) (value : Term) (c : Int) (h : t.FreshFrom c) :
    ∃ u d, Yields (t.substitute old value) c u d ∧ c ≤ d := by
  induction t using inductRename generalizing c with
  | var x => exact ⟨_, c, yields_substitute_var.mpr ⟨rfl, rfl⟩, Int.le_refl c⟩
  | lam x b ih =>
    by_cases hx : x = old
    · subst hx
      exact ⟨_, c, yields_substitute_lam_self.mpr ⟨rfl, rfl⟩, Int.le_refl c⟩
    · have hb : b.FreshFrom c := (freshFrom_lam_iff.mp h).2
      have hcheck : checkRename x b (generated c) = .ok () := checkRename_ok (hb c (Int.le_refl c))
      obtain ⟨b', d, hb', hcd⟩ := ih (generated c) (c + 1) hb.rename
      have hlam := (yields_substitute_lam hx).mpr ⟨hcheck, b', hb', rfl⟩
      exact ⟨_, d, hlam, by omega⟩
  | app f a rest hf ha hrest =>
    obtain ⟨hff, hfa, hfrest⟩ := freshFrom_app_iff.mp h
    obtain ⟨f', c₁, hf', h₁⟩ := hf c hff
    obtain ⟨a', c₂, ha', h₂⟩ := ha c₁ (hfa.mono h₁)
    have hfrest' : ∀ t ∈ rest, t.FreshFrom c₂ := fun t ht => (hfrest t ht).mono (by omega)
    obtain ⟨rest', d, hrest', h₃⟩ := substituteAll_total rest old value c₂ hrest hfrest'
    have happ := yields_substitute_app.mpr ⟨f', c₁, a', c₂, rest', hf', ha', hrest', rfl⟩
    exact ⟨_, d, happ, by omega⟩

/-- Every name in `new` is one of `old`, or was generated as number `c` or later but before `d`. -/
def Drawn (c d : Int) (old new : List String) : Prop :=
  c ≤ d ∧ ∀ x ∈ new, x ∈ old ∨ ∃ k, c ≤ k ∧ k < d ∧ x = generated k

theorem drawn_of_subset {c : Int} {old new : List String} (h : new ⊆ old) : Drawn c c old new :=
  ⟨Int.le_refl c, fun _ hx => .inl (h hx)⟩

theorem Drawn.mono {c d : Int} {old old' new : List String} (h : Drawn c d old new)
    (hold : old ⊆ old') : Drawn c d old' new :=
  ⟨h.1, fun x hx => (h.2 x hx).imp_left fun hx => hold hx⟩

theorem Drawn.append {c d e : Int} {old new new' : List String} (h : Drawn c e old new)
    (h' : Drawn e d old new') : Drawn c d old (new ++ new') := by
  have hce := h.1
  have hed := h'.1
  refine ⟨by omega, ?_⟩
  intro x hx
  rcases List.mem_append.mp hx with hx | hx
  · obtain hx | ⟨k, hck, hke, rfl⟩ := h.2 x hx
    · exact .inl hx
    · exact .inr ⟨k, hck, by omega, rfl⟩
  · obtain hx | ⟨k, hek, hkd, rfl⟩ := h'.2 x hx
    · exact .inl hx
    · exact .inr ⟨k, by omega, hkd, rfl⟩

theorem Drawn.freshFrom {c d : Int} {t u : Term} (h : Drawn c d t.names u.names)
    (ht : t.FreshFrom c) : u.FreshFrom d := by
  intro k hk hmem
  obtain hmem | ⟨l, -, hld, heq⟩ := h.2 _ hmem
  · exact ht k (Int.le_trans h.1 hk) hmem
  · have hkl := generated_injective heq
    omega

/-- Renaming a binder to the next name and going on with its body. -/
theorem Drawn.lam {c d : Int} {x : String} {b b' : Term} {others : List String}
    (h : Drawn (c + 1) d ((b.rename x (generated c)).names ++ others) b'.names) :
    Drawn c d ((Term.lam x b).names ++ others) (Term.lam (generated c) b').names := by
  have hcd := h.1
  refine ⟨by omega, ?_⟩
  intro y hy
  rcases List.mem_cons.mp hy with rfl | hy
  · exact .inr ⟨c, by omega, by omega, rfl⟩
  · obtain hy | ⟨k, hck, hkd, rfl⟩ := h.2 y hy
    · rcases List.mem_append.mp hy with hy | hy
      · obtain hy | rfl := mem_names_rename hy
        · exact .inl (by simp [Term.names, hy])
        · exact .inr ⟨c, by omega, by omega, rfl⟩
      · exact .inl (List.mem_append_right _ hy)
    · exact .inr ⟨k, by omega, hkd, rfl⟩

theorem drawn_substituteAll {ts us : List Term} {old : String} {value : Term} {c d : Int}
    (ih : ∀ t ∈ ts, ∀ c u d, Yields (t.substitute old value) c u d →
      Drawn c d (t.names ++ value.names) u.names)
    (h : Yields (substituteAll ts old value) c us d) :
    Drawn c d (namesAll ts ++ value.names) (namesAll us) := by
  induction ts generalizing c us with
  | nil =>
    obtain ⟨rfl, rfl⟩ := yields_substituteAll_nil.mp h
    exact drawn_of_subset (by simp [namesAll])
  | cons t ts ihts =>
    obtain ⟨t', e, ts', ht, hts, rfl⟩ := yields_substituteAll_cons.mp h
    have ht' := ih t (by simp) c t' e ht
    have hts' := ihts (fun u hu => ih u (List.mem_cons_of_mem _ hu)) hts
    exact (ht'.mono (by grind [namesAll])).append (hts'.mono (by grind [namesAll]))

/-- The names of a substituted term are those of its parts and the names that were drawn. -/
theorem drawn_substitute {t value u : Term} {old : String} {c d : Int}
    (h : Yields (t.substitute old value) c u d) : Drawn c d (t.names ++ value.names) u.names := by
  induction t using inductRename generalizing c u d with
  | var x =>
    obtain ⟨rfl, rfl⟩ := yields_substitute_var.mp h
    apply drawn_of_subset
    split_ifs <;> simp
  | lam x b ih =>
    by_cases hx : x = old
    · subst hx
      obtain ⟨rfl, rfl⟩ := yields_substitute_lam_self.mp h
      exact drawn_of_subset (by simp)
    · obtain ⟨-, b', hb', rfl⟩ := (yields_substitute_lam hx).mp h
      exact (ih (generated c) hb').lam
  | app f a rest hf ha hrest =>
    obtain ⟨f', c₁, a', c₂, rest', hf', ha', hrest', rfl⟩ := yields_substitute_app.mp h
    have h₁ := hf hf'
    have h₂ := ha ha'
    have h₃ := drawn_substituteAll (fun t ht c u d => hrest t ht) hrest'
    refine (Drawn.append (e := c₂) (Drawn.append (e := c₁) (h₁.mono ?_) (h₂.mono ?_)) (h₃.mono ?_))
    all_goals grind [names]

end Term

end NormalOrder
