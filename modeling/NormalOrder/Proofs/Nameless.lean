import NormalOrder.Proofs.Naming
import Mathlib.Data.List.Basic

namespace NormalOrder

/-- Terms without bound names. A bound variable counts the binders between it and its own. -/
inductive Nameless where
  | free (name : String)
  | bound (index : Nat)
  | lam (body : Nameless)
  | app (fn arg : Nameless) (rest : List Nameless)

namespace Nameless

@[elab_as_elim, induction_eliminator]
theorem induct {motive : Nameless → Prop} (free : ∀ x, motive (.free x))
    (bound : ∀ i, motive (.bound i)) (lam : ∀ b, motive b → motive (.lam b))
    (app : ∀ f a rest, motive f → motive a → (∀ t ∈ rest, motive t) → motive (.app f a rest))
    (t : Nameless) : motive t := by
  refine @Nameless.rec motive (fun ts => ∀ t ∈ ts, motive t) free bound lam app ?_ ?_ t
  · intro t ht
    cases ht
  · intro u us hu hus
    exact List.forall_mem_cons.mpr ⟨hu, hus⟩

mutual

/-- Makes room for `d` binders outside the innermost `k`. -/
def lift (d k : Nat) : Nameless → Nameless
  | .free x => .free x
  | .bound i => .bound (if i < k then i else i + d)
  | .lam b => .lam (b.lift d (k + 1))
  | .app f a rest => .app (f.lift d k) (a.lift d k) (liftAll d k rest)

def liftAll (d k : Nat) : List Nameless → List Nameless
  | [] => []
  | t :: ts => t.lift d k :: liftAll d k ts

end

mutual

/-- Puts `v` in for the variable of the binder outside the innermost `k`, which goes away. -/
def subst (t : Nameless) (k : Nat) (v : Nameless) : Nameless :=
  match t with
  | .free x => .free x
  | .bound i => if i < k then .bound i else if i = k then v.lift k 0 else .bound (i - 1)
  | .lam b => .lam (b.subst (k + 1) v)
  | .app f a rest => .app (f.subst k v) (a.subst k v) (substAll rest k v)

def substAll (ts : List Nameless) (k : Nat) (v : Nameless) : List Nameless :=
  match ts with
  | [] => []
  | t :: ts => t.subst k v :: substAll ts k v

end

theorem liftAll_eq_map (d k : Nat) (ts : List Nameless) : liftAll d k ts = ts.map (lift d k) := by
  induction ts with
  | nil => rfl
  | cons t ts ih => simp [liftAll, ih]

theorem substAll_eq_map (ts : List Nameless) (k : Nat) (v : Nameless) :
    substAll ts k v = ts.map (·.subst k v) := by
  induction ts with
  | nil => rfl
  | cons t ts ih => simp [substAll, ih]

/-- The variable `x` below the binders `scope`, innermost first. -/
def resolve (scope : List String) (x : String) : Nameless :=
  if x ∈ scope then .bound (scope.idxOf x) else .free x

theorem resolve_ne_lam (scope : List String) (x : String) (b : Nameless) :
    resolve scope x ≠ .lam b := by
  unfold resolve
  split_ifs <;> simp

theorem resolve_ne_app (scope : List String) (x : String) (f a : Nameless) (rest : List Nameless) :
    resolve scope x ≠ .app f a rest := by
  unfold resolve
  split_ifs <;> simp

theorem resolve_cons (scope : List String) (x y : String) :
    resolve (y :: scope) x = if x = y then .bound 0 else (resolve scope x).lift 1 0 := by
  by_cases hxy : x = y
  · simp [resolve, hxy]
  · have hyx : y ≠ x := fun h => hxy h.symm
    by_cases hx : x ∈ scope
    · simp [resolve, hxy, hx, lift, List.idxOf_cons_ne _ hyx]
    · simp [resolve, hxy, hx, lift]

theorem resolve_lift (inner new outer : List String) (x : String) (hx : x ∈ inner ∨ x ∉ new) :
    resolve (inner ++ (new ++ outer)) x =
      (resolve (inner ++ outer) x).lift new.length inner.length := by
  by_cases hi : x ∈ inner
  · have hlt := List.idxOf_lt_length_of_mem hi
    simp [resolve, hi, lift, List.idxOf_append, hlt]
  · have hx := hx.resolve_left hi
    by_cases ho : x ∈ outer
    · have hge : ¬List.idxOf x outer + inner.length < inner.length := by omega
      simp only [resolve, hi, ho, hx, lift, List.idxOf_append, List.mem_append, if_true, if_false,
        or_true, if_neg hge, bound.injEq]
      omega
    · simp [resolve, hi, ho, hx, lift]

theorem resolve_swap (inner outer : List String) (x y z : String)
    (h : x ∈ inner ∨ x ≠ y ∧ x ≠ z) :
    resolve (inner ++ y :: outer) x = resolve (inner ++ z :: outer) x := by
  by_cases hi : x ∈ inner
  · simp [resolve, hi, List.idxOf_append]
  · obtain ⟨hy, hz⟩ := h.resolve_left hi
    have hy' : y ≠ x := fun h => hy h.symm
    have hz' : z ≠ x := fun h => hz h.symm
    simp [resolve, hi, hy, hz, List.idxOf_append, List.idxOf_cons_ne _ hy',
      List.idxOf_cons_ne _ hz']

theorem resolve_self (inner outer : List String) (x : String) (h : x ∉ inner) :
    resolve (inner ++ x :: outer) x = .bound inner.length := by
  simp [resolve, h, List.idxOf_append]

theorem resolve_subst (inner outer : List String) (x old : String) (v : Nameless)
    (h : x ∈ inner ∨ x ≠ old) :
    resolve (inner ++ outer) x = (resolve (inner ++ old :: outer) x).subst inner.length v := by
  by_cases hi : x ∈ inner
  · have hlt := List.idxOf_lt_length_of_mem hi
    simp [resolve, hi, subst, List.idxOf_append, hlt]
  · have hx := h.resolve_left hi
    have hx' : old ≠ x := fun h => hx h.symm
    by_cases ho : x ∈ outer
    · simp [resolve, hi, ho, hx, subst, List.idxOf_append, List.idxOf_cons_ne _ hx']
    · simp [resolve, hi, ho, hx, subst]

end Nameless

namespace Term

open Nameless Naming

mutual

/-- The term below the binders `scope`, innermost first, without its bound names. -/
def nameless (scope : List String) : Term → Nameless
  | .var x => resolve scope x
  | .lam x b => .lam (b.nameless (x :: scope))
  | .app f a rest => .app (f.nameless scope) (a.nameless scope) (namelessAll scope rest)

def namelessAll (scope : List String) : List Term → List Nameless
  | [] => []
  | t :: ts => t.nameless scope :: namelessAll scope ts

end

theorem namelessAll_eq_map (scope : List String) (ts : List Term) :
    namelessAll scope ts = ts.map (nameless scope) := by
  induction ts with
  | nil => rfl
  | cons t ts ih => simp [namelessAll, ih]

/-- Only the meaning of the names of a term matters for its image. -/
theorem nameless_congr {scope scope' : List String} {t : Term}
    (h : ∀ x ∈ t.names, resolve scope x = resolve scope' x) :
    t.nameless scope = t.nameless scope' := by
  induction t generalizing scope scope' with
  | var x => exact h x (by simp [names])
  | lam x b ih =>
    have hb : b.nameless (x :: scope) = b.nameless (x :: scope') := by
      apply ih
      intro y hy
      rw [resolve_cons, resolve_cons, h y (by simp [names, hy])]
    rw [nameless, nameless, hb]
  | app f a rest hf ha hrest =>
    have hf' := hf fun x hx => h x (mem_names_app.mpr (.inl hx))
    have ha' := ha fun x hx => h x (mem_names_app.mpr (.inr (.inl hx)))
    have hrest' : rest.map (nameless scope) = rest.map (nameless scope') := by
      apply List.map_congr_left
      intro t ht
      exact hrest t ht fun x hx => h x (mem_names_app.mpr (.inr (.inr ⟨t, ht, hx⟩)))
    rw [nameless, nameless, hf', ha', namelessAll_eq_map, namelessAll_eq_map, hrest']

/-- Binders that bind no free variable of the term only make room. -/
theorem nameless_lift (inner new outer : List String) {t : Term} (h : ∀ x ∈ t.free inner, x ∉ new) :
    t.nameless (inner ++ (new ++ outer)) =
      (t.nameless (inner ++ outer)).lift new.length inner.length := by
  induction t generalizing inner with
  | var x =>
    apply resolve_lift
    by_cases hx : x ∈ inner
    · exact .inl hx
    · exact .inr (h x (by simp [free, hx]))
  | lam x b ih =>
    have hb := ih (x :: inner) h
    simpa [nameless, lift] using hb
  | app f a rest hf ha hrest =>
    simp only [free, freeAll_eq_flatMap, List.mem_append, List.mem_flatMap] at h
    have hf' := hf inner fun x hx => h x (.inl (.inl hx))
    have ha' := ha inner fun x hx => h x (.inl (.inr hx))
    have hrest' : rest.map (nameless (inner ++ (new ++ outer))) =
        (rest.map (nameless (inner ++ outer))).map (lift new.length inner.length) := by
      rw [List.map_map]
      apply List.map_congr_left
      intro t ht
      exact hrest t ht inner fun x hx => h x (.inr ⟨t, ht, hx⟩)
    simp only [nameless, lift, namelessAll_eq_map, liftAll_eq_map, hf', ha', hrest']

/-- Renaming a binder to a name that the term does not have leaves its image unchanged. -/
theorem nameless_rename (inner outer : List String) (old : String) {new : String} {t : Term}
    (hnew : new ∉ t.names) (hinner : old ∉ inner) (hinner' : new ∉ inner) :
    (t.rename old new).nameless (inner ++ new :: outer) = t.nameless (inner ++ old :: outer) := by
  induction t generalizing inner with
  | var x =>
    have hx : x ≠ new := by
      intro h
      exact hnew (by simp [names, h])
    by_cases hold : x = old
    · simp only [rename, nameless, hold, if_true]
      rw [resolve_self _ _ _ hinner, resolve_self _ _ _ hinner']
    · simp only [rename, nameless, hold, if_false]
      exact resolve_swap inner outer x new old (.inr ⟨hx, hold⟩)
  | lam x b ih =>
    have hx : x ≠ new := by
      intro h
      exact hnew (by simp [names, h])
    have hb : new ∉ b.names := fun h => hnew (by simp [names, h])
    by_cases hold : x = old
    · simp only [rename, nameless, hold, if_true]
      apply congrArg Nameless.lam
      apply nameless_congr
      intro y hy
      have hy' : y ≠ new := fun h => hb (h ▸ hy)
      apply resolve_swap (old :: inner) outer y new old
      by_cases hyo : y = old
      · exact .inl (by simp [hyo])
      · exact .inr ⟨hy', hyo⟩
    · have ih' := ih (x :: inner) hb (by simp [hinner, Ne.symm hold]) (by simp [hinner', Ne.symm hx])
      simpa [rename, nameless, hold] using ih'
  | app f a rest hf ha hrest =>
    simp only [mem_names_app, not_or, not_exists, not_and] at hnew
    obtain ⟨hnf, hna, hnrest⟩ := hnew
    have hrest' : (rest.map (rename old new)).map (nameless (inner ++ new :: outer)) =
        rest.map (nameless (inner ++ old :: outer)) := by
      rw [List.map_map]
      apply List.map_congr_left
      intro t ht
      exact hrest t ht inner (hnrest t ht) hinner hinner'
    simp only [rename, nameless, namelessAll_eq_map, renameAll_eq_map, hrest',
      hf inner hnf hinner hinner', ha inner hna hinner hinner']

/-- Where a name is bound further in, nothing is put in for it. -/
theorem nameless_shadowed (inner outer : List String) (old : String) (t : Term) (v : Nameless)
    (hold : old ∈ inner) :
    t.nameless (inner ++ outer) = (t.nameless (inner ++ old :: outer)).subst inner.length v := by
  induction t generalizing inner with
  | var x =>
    apply resolve_subst
    by_cases hx : x = old
    · exact .inl (hx ▸ hold)
    · exact .inr hx
  | lam x b ih =>
    have hb := ih (x :: inner) (List.mem_cons_of_mem _ hold)
    simpa [nameless, subst] using hb
  | app f a rest hf ha hrest =>
    have hrest' : rest.map (nameless (inner ++ outer)) =
        (rest.map (nameless (inner ++ old :: outer))).map (·.subst inner.length v) := by
      rw [List.map_map]
      apply List.map_congr_left
      intro t ht
      exact hrest t ht inner hold
    simp only [nameless, subst, namelessAll_eq_map, substAll_eq_map, hrest', ← hf inner hold,
      ← ha inner hold]

/-- No name generated as number `c` or later but before `d` is `old` or free in `value`. -/
def Apart (c d : Int) (old : String) (value : Term) : Prop :=
  ∀ k, c ≤ k → k < d → generated k ≠ old ∧ generated k ∉ value.free []

theorem Apart.mono {c c' d d' : Int} {old : String} {value : Term} (h : Apart c d old value)
    (hc : c ≤ c') (hd : d' ≤ d) : Apart c' d' old value :=
  fun k hck hkd => h k (Int.le_trans hc hck) (Int.lt_of_lt_of_le hkd hd)

theorem not_mem_names_of_checkRename {x new : String} {b : Term}
    (h : checkRename x b new = .ok ()) : new ∉ b.names := by
  unfold checkRename at h
  split_ifs at h with hfree hnames
  exact hnames

theorem nameless_substituteAll {ts us : List Term} {value : Term} {old : String} {c d : Int}
    {scope scope' : List String} {k : Nat} {v : Nameless}
    (ih : ∀ t ∈ ts, ∀ c u d, Yields (t.substitute old value) c u d → Apart c d old value →
      u.nameless scope = (t.nameless scope').subst k v)
    (h : Yields (substituteAll ts old value) c us d) (hapart : Apart c d old value) :
    us.map (nameless scope) = (ts.map (nameless scope')).map (·.subst k v) := by
  induction ts generalizing c us with
  | nil =>
    obtain ⟨rfl, -⟩ := yields_substituteAll_nil.mp h
    rfl
  | cons t ts ihts =>
    obtain ⟨t', e, ts', ht, hts, rfl⟩ := yields_substituteAll_cons.mp h
    have hce : c ≤ e := (drawn_substitute ht).1
    have hed : e ≤ d := (drawn_substituteAll (fun _ _ _ _ _ => drawn_substitute) hts).1
    have ht' := ih t (by simp) c t' e ht (hapart.mono (Int.le_refl c) hed)
    have hts' := ihts (fun u hu => ih u (List.mem_cons_of_mem _ hu)) hts
      (hapart.mono hce (Int.le_refl d))
    simp only [List.map_cons, ht', hts']

/-- Substitution avoids capture: below the binders `inner`, which the value does not mention, the
image of the value goes in for the variable of the binder `old`. -/
theorem nameless_substitute (inner outer : List String) {t value u : Term} {old : String} {c d : Int}
    (h : Yields (t.substitute old value) c u d) (hapart : Apart c d old value) (hold : old ∉ inner)
    (hinner : ∀ x ∈ value.free [], x ∉ inner) :
    u.nameless (inner ++ outer) =
      (t.nameless (inner ++ old :: outer)).subst inner.length (value.nameless outer) := by
  induction t using inductRename generalizing inner c u d with
  | var x =>
    obtain ⟨rfl, -⟩ := yields_substitute_var.mp h
    by_cases hx : x = old
    · have hlift := nameless_lift [] inner outer hinner
      simp only [hx, if_true, nameless, resolve_self _ _ _ hold, subst, Nat.lt_irrefl, if_false]
      exact hlift
    · simp only [hx, if_false, nameless]
      exact resolve_subst inner outer x old _ (.inr hx)
  | lam x b ih =>
    by_cases hx : x = old
    · subst hx
      obtain ⟨rfl, -⟩ := yields_substitute_lam_self.mp h
      have hb := nameless_shadowed (x :: inner) outer x b (value.nameless outer) (by simp)
      simpa [nameless, subst] using hb
    · obtain ⟨hcheck, b', hb', rfl⟩ := (yields_substitute_lam hx).mp h
      have hnew := not_mem_names_of_checkRename hcheck
      have hrename := nameless_rename [] (inner ++ old :: outer) x hnew (by simp) (by simp)
      have hcd : c + 1 ≤ d := (drawn_substitute hb').1
      have hc := hapart c (Int.le_refl c) (by omega)
      have hold' : old ∉ generated c :: inner := by simp [hold, hc.1.symm]
      have hinner' : ∀ y ∈ value.free [], y ∉ generated c :: inner := by
        intro y hy
        have hyc : y ≠ generated c := fun h => hc.2 (h ▸ hy)
        simp [hyc, hinner y hy]
      have hbody := ih (generated c) (generated c :: inner) hb'
        (hapart.mono (by omega) (Int.le_refl d)) hold' hinner'
      simp only [List.nil_append] at hrename
      simp only [List.cons_append, hrename, List.length_cons] at hbody
      simp only [nameless, subst, hbody]
  | app f a rest hf ha hrest =>
    obtain ⟨f', c₁, a', c₂, rest', hf', ha', hrest', rfl⟩ := yields_substitute_app.mp h
    have h₁ : c ≤ c₁ := (drawn_substitute hf').1
    have h₂ : c₁ ≤ c₂ := (drawn_substitute ha').1
    have h₃ : c₂ ≤ d := (drawn_substituteAll (fun _ _ _ _ _ => drawn_substitute) hrest').1
    have hfn := hf inner hf' (hapart.mono (Int.le_refl c) (by omega)) hold hinner
    have harg := ha inner ha' (hapart.mono h₁ h₃) hold hinner
    have hall := nameless_substituteAll
      (fun t ht c u d hy hap => hrest t ht inner hy hap hold hinner) hrest'
      (hapart.mono (by omega) (Int.le_refl d))
    simp only [nameless, subst, namelessAll_eq_map, substAll_eq_map, hfn, harg, hall]

end Term

end NormalOrder
