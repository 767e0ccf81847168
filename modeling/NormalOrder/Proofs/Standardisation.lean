import NormalOrder.Proofs.DeBruijn
import Mathlib.Logic.Relation

namespace NormalOrder.DeBruijn

open Relation (ReflTransGen)

/-- Contracting one redex of `t`, wherever it stands, gives `u`. -/
def Beta (t u : DeBruijn) : Prop := ∃ p, t.contractAt p = some u

theorem lift_lift_inside (t : DeBruijn) (d e k j : Nat) (hkj : k ≤ j) (hjd : j ≤ k + d) :
    (t.lift d k).lift e j = t.lift (d + e) k := by
  induction t generalizing k j with
  | free x => rfl
  | bound i =>
    simp only [lift, bound.injEq]
    split_ifs <;> omega
  | lam b ih => simp only [lift, ih (k + 1) (j + 1) (by omega) (by omega)]
  | app f a hf ha => simp only [lift, hf k j hkj hjd, ha k j hkj hjd]

theorem lift_lift_below (t : DeBruijn) (d e k j : Nat) (hjk : j ≤ k) :
    (t.lift d k).lift e j = (t.lift e j).lift d (k + e) := by
  induction t generalizing k j with
  | free x => rfl
  | bound i =>
    simp only [lift, bound.injEq]
    split_ifs <;> omega
  | lam b ih =>
    have hb := ih (k + 1) (j + 1) (by omega)
    rw [show k + 1 + e = k + e + 1 by omega] at hb
    simp only [lift, hb]
  | app f a hf ha => simp only [lift, hf k j hjk, ha k j hjk]

/-- Room that is made inside the binder that goes away. -/
theorem lift_subst_inside (t v : DeBruijn) (d k j : Nat) (hjk : j ≤ k) :
    (t.subst k v).lift d j = (t.lift d j).subst (k + d) v := by
  induction t generalizing k j with
  | free x => rfl
  | bound i =>
    obtain hik | rfl | hki := Nat.lt_trichotomy i k
    · by_cases hij : i < j
      · simp [subst, lift, hik, hij, show i < k + d by omega]
      · simp [subst, lift, hik, hij]
    · have hroom := lift_lift_inside v i d 0 j (by omega) (by omega)
      simpa [subst, lift, show ¬i < j by omega] using hroom
    · simp only [subst, lift, show ¬i < k by omega, show i ≠ k by omega, show ¬i < j by omega,
        show ¬i - 1 < j by omega, show ¬i + d < k + d by omega, show i + d ≠ k + d by omega, if_false,
        bound.injEq]
      omega
  | lam b ih =>
    have hb := ih (k + 1) (j + 1) (by omega)
    rw [show k + 1 + d = k + d + 1 by omega] at hb
    simp only [subst, lift, hb]
  | app f a hf ha => simp only [subst, lift, hf k j hjk, ha k j hjk]

/-- Room that is made outside the binder that goes away. -/
theorem lift_subst_outside (t v : DeBruijn) (d k j : Nat) :
    (t.subst k v).lift d (k + j) = (t.lift d (k + j + 1)).subst k (v.lift d j) := by
  induction t generalizing k with
  | free x => rfl
  | bound i =>
    obtain hik | rfl | hki := Nat.lt_trichotomy i k
    · simp [subst, lift, hik, show i < k + j by omega, show i < k + j + 1 by omega]
    · have hroom := lift_lift_below v d i j 0 (by omega)
      rw [Nat.add_comm j i] at hroom
      simpa [subst, lift, show i < i + j + 1 by omega] using hroom.symm
    · by_cases hij : i < k + j + 1
      · simp [subst, lift, hij, show ¬i < k by omega, show i ≠ k by omega, show i - 1 < k + j by omega]
      · simp only [subst, lift, hij, show ¬i < k by omega, show i ≠ k by omega,
          show ¬i - 1 < k + j by omega, show ¬i + d < k by omega, show i + d ≠ k by omega, if_false,
          bound.injEq]
        omega
  | lam b ih =>
    have hb := ih (k + 1)
    rw [show k + 1 + j = k + j + 1 by omega] at hb
    simp only [subst, lift, hb]
  | app f a hf ha => simp only [subst, lift, hf k, ha k]

/-- Putting something in for a variable that does not occur takes away the room that was made for
it. -/
theorem subst_lift (t v : DeBruijn) (d k j : Nat) (hjd : j ≤ d) :
    (t.lift (d + 1) k).subst (k + j) v = t.lift d k := by
  induction t generalizing k with
  | free x => rfl
  | bound i =>
    by_cases hik : i < k
    · simp [subst, lift, hik, show i < k + j by omega]
    · simp [subst, lift, hik, show ¬i + (d + 1) < k + j by omega, show i + (d + 1) ≠ k + j by omega]
  | lam b ih =>
    have hb := ih (k + 1)
    rw [show k + 1 + j = k + j + 1 by omega] at hb
    simp only [subst, lift, hb]
  | app f a hf ha => simp only [subst, lift, hf k, ha k]

theorem subst_subst (t u v : DeBruijn) (j k : Nat) :
    (t.subst j u).subst (j + k) v = (t.subst (j + k + 1) v).subst j (u.subst k v) := by
  induction t generalizing j with
  | free x => rfl
  | bound i =>
    obtain hij | rfl | hji := Nat.lt_trichotomy i j
    · simp [subst, hij, show i < j + k by omega, show i < j + k + 1 by omega]
    · have hroom := lift_subst_inside u v i k 0 (by omega)
      rw [Nat.add_comm k i] at hroom
      simpa [subst, show i < i + k + 1 by omega] using hroom.symm
    · obtain hik | rfl | hki := Nat.lt_trichotomy i (j + k + 1)
      · simp [subst, hik, show ¬i < j by omega, show i ≠ j by omega, show i - 1 < j + k by omega]
      · have hroom := subst_lift v (u.subst k v) (j + k) 0 j (by omega)
        rw [Nat.zero_add] at hroom
        simp [subst, hroom, show ¬j + k + 1 < j by omega, show j + k + 1 ≠ j by omega]
      · simp [subst, show ¬i < j by omega, show i ≠ j by omega, show ¬i < j + k + 1 by omega,
          show i ≠ j + k + 1 by omega, show ¬i - 1 < j + k by omega, show i - 1 ≠ j + k by omega,
          show ¬i - 1 < j by omega, show i - 1 ≠ j by omega]
  | lam b ih =>
    have hb := ih (j + 1)
    rw [show j + 1 + k = j + k + 1 by omega] at hb
    simp only [subst, hb]
  | app f a hf ha => simp only [subst, hf j, ha j]

/-- Contracting the redex at the head of a spine. -/
inductive Head : DeBruijn → DeBruijn → Prop where
  | beta (b a : DeBruijn) : Head (.app (.lam b) a) (b.subst 0 a)
  | fn {f f' : DeBruijn} (a : DeBruijn) : Head f f' → Head (.app f a) (.app f' a)

theorem Head.lift {t u : DeBruijn} (h : Head t u) (d k : Nat) : Head (t.lift d k) (u.lift d k) := by
  induction h with
  | beta b a =>
    have hroom := lift_subst_outside b a d 0 k
    rw [Nat.zero_add] at hroom
    rw [hroom]
    exact .beta _ _
  | fn a _ ih => exact .fn _ ih

theorem Head.subst {t u : DeBruijn} (h : Head t u) (k : Nat) (v : DeBruijn) :
    Head (t.subst k v) (u.subst k v) := by
  induction h with
  | beta b a =>
    have hswap := subst_subst b a v 0 k
    rw [Nat.zero_add] at hswap
    rw [hswap]
    exact .beta _ _
  | fn a _ ih => exact .fn _ ih

theorem Head.leftmost {t u : DeBruijn} (h : Head t u) : Leftmost t u := by
  induction h with
  | beta b a => exact leftmost_beta b a
  | @fn f f' a hhead ih =>
    have hlam : f.isLam = false := by
      cases hhead with
      | beta b c => rfl
      | fn c _ => rfl
    exact leftmost_fn a hlam ih

/-- A reduction in standard order: the head redexes that are contracted come first, and then each
part is reduced on its own. -/
inductive Standard : DeBruijn → DeBruijn → Prop where
  | free (x : String) : Standard (.free x) (.free x)
  | bound (i : Nat) : Standard (.bound i) (.bound i)
  | lam {b b' : DeBruijn} : Standard b b' → Standard (.lam b) (.lam b')
  | app {f f' a a' : DeBruijn} : Standard f f' → Standard a a' → Standard (.app f a) (.app f' a')
  | head {t u v : DeBruijn} : Head t u → Standard u v → Standard t v

theorem Standard.refl (t : DeBruijn) : Standard t t := by
  induction t with
  | free x => exact .free x
  | bound i => exact .bound i
  | lam b ih => exact .lam ih
  | app f a hf ha => exact .app hf ha

theorem Standard.lift {t u : DeBruijn} (h : Standard t u) (d k : Nat) :
    Standard (t.lift d k) (u.lift d k) := by
  induction h generalizing k with
  | free x => exact .free x
  | bound i => exact .bound _
  | lam _ ih => exact .lam (ih (k + 1))
  | app _ _ hf ha => exact .app (hf k) (ha k)
  | head hhead _ ih => exact .head (hhead.lift d k) (ih k)

theorem Standard.subst {t u v w : DeBruijn} (h : Standard t u) (hv : Standard v w) (k : Nat) :
    Standard (t.subst k v) (u.subst k w) := by
  induction h generalizing k with
  | free x => exact .free x
  | bound i =>
    simp only [DeBruijn.subst]
    split_ifs
    · exact .bound i
    · exact hv.lift k 0
    · exact .bound (i - 1)
  | lam _ ih => exact .lam (ih (k + 1))
  | app _ _ hf ha => exact .app (hf k) (ha k)
  | head hhead _ ih => exact .head (hhead.subst k v) (ih k)

/-- A redex at the root that was reached in standard order is contracted as soon as its function is
an abstraction. -/
theorem Standard.redex {f b a a' : DeBruijn} (hf : Standard f (.lam b)) (ha : Standard a a') :
    Standard (.app f a) (b.subst 0 a') := by
  generalize hb : DeBruijn.lam b = g at hf
  induction hf with
  | free x => cases hb
  | bound i => cases hb
  | app _ _ _ _ => cases hb
  | lam hbody _ =>
    cases hb
    exact .head (.beta _ _) (hbody.subst ha 0)
  | head hhead _ ih => exact .head (.fn _ hhead) (ih hb)

/-- A contraction after a standard reduction can be moved to its place in the order. -/
theorem Standard.beta {t u w : DeBruijn} (h : Standard t u) (hbeta : Beta u w) : Standard t w := by
  obtain ⟨p, hp⟩ := hbeta
  induction h generalizing p w with
  | free x => rw [isNormal_free x p] at hp; cases hp
  | bound i => rw [isNormal_bound i p] at hp; cases hp
  | lam hbody ih =>
    match p with
    | [] => cases hp
    | .fn :: p => cases hp
    | .arg :: p => cases hp
    | .body :: p =>
      obtain ⟨b', hb', rfl⟩ := Option.map_eq_some_iff.mp hp
      exact .lam (ih p hb')
  | @app f f' a a' hf ha ihf iha =>
    match p with
    | .body :: p => rw [contractAt_app_body] at hp; cases hp
    | .fn :: p =>
      rw [contractAt_app_fn] at hp
      obtain ⟨g, hg, rfl⟩ := Option.map_eq_some_iff.mp hp
      exact .app (ihf p hg) ha
    | .arg :: p =>
      rw [contractAt_app_arg] at hp
      obtain ⟨b, hb, rfl⟩ := Option.map_eq_some_iff.mp hp
      exact .app hf (iha p hb)
    | [] =>
      cases f' with
      | lam b =>
        obtain rfl : b.subst 0 a' = w := Option.some.inj hp
        exact hf.redex ha
      | _ => cases hp
  | head hhead _ ih => exact .head hhead (ih p hp)

theorem standard_of_beta {t u : DeBruijn} (h : ReflTransGen Beta t u) : Standard t u := by
  induction h with
  | refl => exact .refl t
  | tail _ hbeta ih => exact ih.beta hbeta

theorem IsNormal.body {b : DeBruijn} (h : (lam b).IsNormal) : b.IsNormal := by
  intro p
  have hp := h (.body :: p)
  simpa [contractAt] using hp

theorem IsNormal.fn {f a : DeBruijn} (h : (app f a).IsNormal) : f.IsNormal := by
  intro p
  have hp := h (.fn :: p)
  simpa [contractAt_app_fn] using hp

theorem IsNormal.arg {f a : DeBruijn} (h : (app f a).IsNormal) : a.IsNormal := by
  intro p
  have hp := h (.arg :: p)
  simpa [contractAt_app_arg] using hp

theorem IsNormal.isLam_fn {f a : DeBruijn} (h : (app f a).IsNormal) : f.isLam = false := by
  cases f with
  | lam b => cases h []
  | _ => rfl

/-- An abstraction stays one. -/
theorem isLam_of_leftmost {t u : DeBruijn} (h : Leftmost t u) (ht : t.isLam = true) :
    u.isLam = true := by
  obtain ⟨p, hp, -⟩ := h
  cases t with
  | lam b =>
    match p with
    | [] => cases hp
    | .fn :: p => cases hp
    | .arg :: p => cases hp
    | .body :: p =>
      obtain ⟨b', -, rfl⟩ := Option.map_eq_some_iff.mp hp
      rfl
  | _ => cases ht

theorem leftmost_run_lam {b b' : DeBruijn} (h : ReflTransGen Leftmost b b') :
    ReflTransGen Leftmost (.lam b) (.lam b') :=
  ReflTransGen.lift DeBruijn.lam (fun _ _ => leftmost_lam) _ _ h

/-- As long as the function ends as no abstraction, it was none before, so its redexes come first. -/
theorem leftmost_run_fn {f f' : DeBruijn} (a : DeBruijn) (h : ReflTransGen Leftmost f f')
    (hlam : f'.isLam = false) :
    f.isLam = false ∧ ReflTransGen Leftmost (.app f a) (.app f' a) := by
  induction h using ReflTransGen.head_induction_on with
  | refl => exact ⟨hlam, .refl⟩
  | @head f g hstep _ ih =>
    obtain ⟨hg, hrun⟩ := ih
    have hf : f.isLam = false := by
      by_contra hf
      have hg' := isLam_of_leftmost hstep (by simpa using hf)
      rw [hg] at hg'
      cases hg'
    exact ⟨hf, .head (leftmost_fn a hf hstep) hrun⟩

theorem leftmost_run_arg {f a a' : DeBruijn} (hlam : f.isLam = false) (hf : f.IsNormal)
    (h : ReflTransGen Leftmost a a') : ReflTransGen Leftmost (.app f a) (.app f a') :=
  ReflTransGen.lift (DeBruijn.app f) (fun _ _ => leftmost_arg hlam hf) _ _ h

/-- A standard reduction to a normal form leaves no redex behind, so it is leftmost outermost. -/
theorem Standard.leftmost {t n : DeBruijn} (h : Standard t n) (hn : n.IsNormal) :
    ReflTransGen Leftmost t n := by
  induction h with
  | free x => exact .refl
  | bound i => exact .refl
  | lam _ ih => exact leftmost_run_lam (ih hn.body)
  | @app f f' a a' _ _ hf ha =>
    have hfn := (leftmost_run_fn a (hf hn.fn) hn.isLam_fn).2
    have harg := leftmost_run_arg hn.isLam_fn hn.fn (ha hn.arg)
    exact hfn.trans harg
  | head hhead _ ih => exact .head hhead.leftmost (ih hn)

/-- A normal form that can be reached in any way is reached by leftmost outermost reduction. -/
theorem leftmostReduct_of_beta {t n : DeBruijn} (h : ReflTransGen Beta t n) (hn : n.IsNormal) :
    ∃ k, LeftmostReduct k t n := by
  have hrun := (standard_of_beta h).leftmost hn
  clear h
  induction hrun using ReflTransGen.head_induction_on with
  | refl => exact ⟨0, rfl⟩
  | head hstep _ ih =>
    obtain ⟨k, hk⟩ := ih
    exact ⟨k + 1, _, hstep, hk⟩

end NormalOrder.DeBruijn
