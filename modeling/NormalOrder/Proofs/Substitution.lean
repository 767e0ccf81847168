import NormalOrder.Proofs.NamelessStep

namespace NormalOrder

namespace Nameless

mutual

/-- Puts `v` in for the free occurrences of `x` in `t`, which stands below `k` binders that `v` does
not. -/
def replace (t : Nameless) (x : String) (k : Nat) (v : Nameless) : Nameless :=
  match t with
  | .free y => if y = x then v.lift k 0 else .free y
  | .bound i => .bound i
  | .lam b => .lam (b.replace x (k + 1) v)
  | .app f a rest => .app (f.replace x k v) (a.replace x k v) (replaceAll rest x k v)

def replaceAll (ts : List Nameless) (x : String) (k : Nat) (v : Nameless) : List Nameless :=
  match ts with
  | [] => []
  | t :: ts => t.replace x k v :: replaceAll ts x k v

end

theorem replaceAll_eq_map (ts : List Nameless) (x : String) (k : Nat) (v : Nameless) :
    replaceAll ts x k v = ts.map (·.replace x k v) := by
  induction ts with
  | nil => rfl
  | cons t ts ih => simp [replaceAll, ih]

/-- The replaced name goes, and the names of the value come if there was something to replace. -/
theorem mem_names_replace {x y : String} {t v : Nameless} {k : Nat} :
    y ∈ (t.replace x k v).names ↔ (y ∈ t.names ∧ y ≠ x) ∨ (x ∈ t.names ∧ y ∈ v.names) := by
  induction t generalizing k with
  | free z =>
    by_cases hz : z = x
    · subst hz
      simp [replace, mem_names_lift, names]
    · have hne : y = z → y ≠ x := fun hyz hyx => hz (hyz ▸ hyx)
      simpa [replace, hz, Ne.symm hz, names] using hne
  | bound i => simp [replace, names]
  | lam b ih => exact ih
  | app f a rest hf ha hrest =>
    have hall : (∃ t ∈ rest, y ∈ (t.replace x k v).names) ↔
        ((∃ t ∈ rest, y ∈ t.names) ∧ y ≠ x) ∨ ((∃ t ∈ rest, x ∈ t.names) ∧ y ∈ v.names) := by
      constructor
      · intro h
        obtain ⟨t, ht, hy⟩ := h
        obtain ⟨hy, hne⟩ | ⟨hx, hy⟩ := (hrest t ht).mp hy
        · exact .inl ⟨⟨t, ht, hy⟩, hne⟩
        · exact .inr ⟨⟨t, ht, hx⟩, hy⟩
      · intro h
        obtain ⟨⟨t, ht, hy⟩, hne⟩ | ⟨⟨t, ht, hx⟩, hy⟩ := h
        · exact ⟨t, ht, (hrest t ht).mpr (.inl ⟨hy, hne⟩)⟩
        · exact ⟨t, ht, (hrest t ht).mpr (.inr ⟨hx, hy⟩)⟩
    simp only [replace, replaceAll_eq_map, mem_names_app, hf, ha, List.mem_map,
      exists_exists_and_eq_and, hall]
    simp only [or_and_right, or_assoc, or_left_comm]

end Nameless

namespace Term

open Naming Nameless

/-- Putting a value in for the outermost binder is putting it in for a free name. -/
theorem subst_nameless_eq_replace (inner : List String) (old : String) (t : Term) (v : Nameless) :
    (t.nameless (inner ++ [old])).subst inner.length v =
      (t.nameless inner).replace old inner.length v := by
  induction t generalizing inner with
  | var x =>
    by_cases hi : x ∈ inner
    · have hlt := List.idxOf_lt_length_of_mem hi
      simp [nameless, resolve, hi, subst, replace, List.idxOf_append, hlt]
    · by_cases hx : x = old
      · subst hx
        rw [nameless, nameless, resolve_self inner [] x hi]
        simp [resolve, hi, subst, replace]
      · simp [nameless, resolve, hi, hx, subst, replace]
  | lam x b ih =>
    have hb := ih (x :: inner)
    simpa [nameless, subst, replace] using hb
  | app f a rest hf ha hrest =>
    have hall : (rest.map (nameless (inner ++ [old]))).map (·.subst inner.length v) =
        (rest.map (nameless inner)).map (·.replace old inner.length v) := by
      rw [List.map_map, List.map_map]
      exact List.map_congr_left fun t ht => hrest t ht inner
    simp only [nameless, namelessAll_eq_map, subst, substAll_eq_map, replace, replaceAll_eq_map,
      hf inner, ha inner, hall]

mutual

/-- The number of binders that neither bind `x` nor stand below one that does. -/
def unshadowed (x : String) : Term → Nat
  | .var _ => 0
  | .lam y b => if y = x then 0 else b.unshadowed x + 1
  | .app f a rest => f.unshadowed x + a.unshadowed x + unshadowedAll x rest

def unshadowedAll (x : String) : List Term → Nat
  | [] => 0
  | t :: ts => t.unshadowed x + unshadowedAll x ts

end

theorem unshadowedAll_rename {x old new : String} {ts : List Term}
    (ih : ∀ t ∈ ts, (t.rename old new).unshadowed x = t.unshadowed x) :
    unshadowedAll x (renameAll old new ts) = unshadowedAll x ts := by
  induction ts with
  | nil => rfl
  | cons t ts ihts =>
    have hts := ihts fun u hu => ih u (List.mem_cons_of_mem _ hu)
    simp only [renameAll, unshadowedAll, ih t (by simp), hts]

/-- Renaming variables leaves the binders as they are. -/
theorem unshadowed_rename (x old new : String) (t : Term) :
    (t.rename old new).unshadowed x = t.unshadowed x := by
  induction t with
  | var y => rfl
  | lam y b ih =>
    rw [rename]
    split_ifs
    · rfl
    · simp only [unshadowed, ih]
  | app f a rest hf ha hrest =>
    simp only [rename, unshadowed, hf, ha, unshadowedAll_rename hrest]

theorem counter_substituteAll {ts us : List Term} {value : Term} {old : String} {c d : Int}
    (ih : ∀ t ∈ ts, ∀ c u d, Yields (t.substitute old value) c u d → d = c + t.unshadowed old)
    (h : Yields (substituteAll ts old value) c us d) : d = c + unshadowedAll old ts := by
  induction ts generalizing c us with
  | nil =>
    obtain ⟨-, rfl⟩ := yields_substituteAll_nil.mp h
    simp [unshadowedAll]
  | cons t ts ihts =>
    obtain ⟨t', e, ts', ht, hts, -⟩ := yields_substituteAll_cons.mp h
    have hhead := ih t (by simp) c t' e ht
    have htail := ihts (fun u hu => ih u (List.mem_cons_of_mem _ hu)) hts
    simp only [unshadowedAll]
    omega

/-- One name is drawn for each binder that the substitution passes. -/
theorem counter_substitute {t value u : Term} {old : String} {c d : Int}
    (h : Yields (t.substitute old value) c u d) : d = c + t.unshadowed old := by
  induction t using inductRename generalizing c u d with
  | var x =>
    obtain ⟨-, rfl⟩ := yields_substitute_var.mp h
    simp [unshadowed]
  | lam x b ih =>
    by_cases hx : x = old
    · subst hx
      obtain ⟨-, rfl⟩ := yields_substitute_lam_self.mp h
      simp [unshadowed]
    · obtain ⟨-, b', hb', -⟩ := (yields_substitute_lam hx).mp h
      have hbody := ih (generated c) hb'
      rw [unshadowed_rename] at hbody
      simp only [unshadowed, hx, if_false]
      omega
  | app f a rest hf ha hrest =>
    obtain ⟨f', c₁, a', c₂, rest', hf', ha', hrest', -⟩ := yields_substitute_app.mp h
    have h₁ := hf hf'
    have h₂ := ha ha'
    have h₃ := counter_substituteAll (fun t ht c u d => hrest t ht) hrest'
    simp only [unshadowed]
    omega

/-- A term whose free names are replaced has its other free variables, and those of the value if the
name was among them. -/
theorem mem_free_of_replace {t value u : Term} {old : String}
    (himage : u.nameless [] = (t.nameless []).replace old 0 (value.nameless [])) (x : String) :
    x ∈ u.free [] ↔ if old ∈ t.free [] then (x ∈ t.free [] ∧ x ≠ old) ∨ x ∈ value.free []
      else x ∈ t.free [] := by
  rw [← names_nameless, himage, mem_names_replace, names_nameless, names_nameless]
  by_cases hold : old ∈ t.free []
  · simp only [hold, if_true, true_and]
  · have hne : x ∈ t.free [] → x ≠ old := by
      rintro hx rfl
      exact hold hx
    simp only [hold, if_false, false_and, or_false, and_iff_left_of_imp hne]

/-- A substitution that draws names from number `c` on, none of which occurs in the term or in the
value or is the replaced name, meets no clash. Its result has the image of the term with the image of
the value put in for the free occurrences of the name; it draws one name for each binder that neither
binds the name nor stands below one that does. -/
theorem substitute_avoids_capture (t value : Term) (old : String) (c : Int) (ht : t.FreshFrom c)
    (hvalue : value.FreshFrom c) (hold : ∀ k, c ≤ k → generated k ≠ old) :
    ∃ u, Yields (t.substitute old value) c u (c + t.unshadowed old) ∧
      u.nameless [] = (t.nameless []).replace old 0 (value.nameless []) ∧
      ∀ x, x ∈ u.free [] ↔ if old ∈ t.free [] then (x ∈ t.free [] ∧ x ≠ old) ∨ x ∈ value.free []
        else x ∈ t.free [] := by
  obtain ⟨u, d, hu, -⟩ := substitute_total t old value c ht
  obtain rfl := counter_substitute hu
  have hapart : Apart c (c + t.unshadowed old) old value := by
    intro k hck _
    exact ⟨hold k hck, fun hk => hvalue k hck (mem_names_of_mem_free hk)⟩
  have hsubst := nameless_substitute [] [] hu hapart (by simp) (by simp)
  have himage : u.nameless [] = (t.nameless []).replace old 0 (value.nameless []) :=
    hsubst.trans (subst_nameless_eq_replace [] old t (value.nameless []))
  exact ⟨u, hu, himage, mem_free_of_replace himage⟩

/-- In `λy.x y (λx.x)` the name `x` is replaced by `y`. The outer binder moves out of the way, the
inner one shadows `x` and stays. -/
theorem substitute_avoids_capture_of_binder :
    let t : Term := .lam "y" (.app (.var "x") (.var "y") [.lam "x" (.var "x")])
    t.FreshFrom 0 ∧ (Term.var "y").FreshFrom 0 ∧ (∀ k, 0 ≤ k → generated k ≠ "x") ∧
    ∃ u, Yields (t.substitute "x" (.var "y")) 0 u (0 + t.unshadowed "x") ∧
      u.nameless [] = (t.nameless []).replace "x" 0 ((Term.var "y").nameless []) ∧
      ∀ x, x ∈ u.free [] ↔ if "x" ∈ t.free [] then
        (x ∈ t.free [] ∧ x ≠ "x") ∨ x ∈ (Term.var "y").free [] else x ∈ t.free [] := by
  intro t
  have ht : t.FreshFrom 0 := freshFrom_of_written (by decide) 0
  have hvalue : (Term.var "y").FreshFrom 0 := freshFrom_of_written (by decide) 0
  have hold : ∀ k, 0 ≤ k → generated k ≠ "x" := by
    intro k _ hk
    exact not_written_generated k (by rw [hk]; decide)
  exact ⟨ht, hvalue, hold, substitute_avoids_capture t (.var "y") "x" 0 ht hvalue hold⟩

end Term

end NormalOrder
