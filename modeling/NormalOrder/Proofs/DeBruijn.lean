import NormalOrder.Proofs.Nameless

namespace NormalOrder

/-- λ-terms of two-place applications without bound names. -/
inductive DeBruijn where
  | free (name : String)
  | bound (index : Nat)
  | lam (body : DeBruijn)
  | app (fn arg : DeBruijn)
  deriving DecidableEq, Repr

/-- A step from a term to one of its parts. -/
inductive Turn where
  | body
  | fn
  | arg
  deriving DecidableEq, Repr

/-- The path `p` leads to `q` or to a place left of it: a term comes before its parts, and a
function before its argument. -/
def precedes : List Turn → List Turn → Prop
  | [], _ => True
  | _ :: _, [] => False
  | s :: p, t :: q => s = t ∧ precedes p q ∨ s = .fn ∧ t = .arg

theorem precedes_antisymm {p q : List Turn} (hpq : precedes p q) (hqp : precedes q p) : p = q := by
  induction p generalizing q with
  | nil =>
    cases q with
    | nil => rfl
    | cons t q => exact hqp.elim
  | cons s p ih =>
    cases q with
    | nil => exact hpq.elim
    | cons t q =>
      obtain ⟨rfl, hpq⟩ | ⟨rfl, rfl⟩ := hpq
      · obtain ⟨-, hqp⟩ | ⟨rfl, hs⟩ := hqp
        · rw [ih hpq hqp]
        · cases hs
      · obtain ⟨ht, -⟩ | ⟨ht, -⟩ := hqp
        · cases ht
        · cases ht

namespace DeBruijn

/-- Makes room for `d` binders outside the innermost `k`. -/
def lift (d k : Nat) : DeBruijn → DeBruijn
  | .free x => .free x
  | .bound i => .bound (if i < k then i else i + d)
  | .lam b => .lam (b.lift d (k + 1))
  | .app f a => .app (f.lift d k) (a.lift d k)

/-- Puts `v` in for the variable of the binder outside the innermost `k`, which goes away. -/
def subst (t : DeBruijn) (k : Nat) (v : DeBruijn) : DeBruijn :=
  match t with
  | .free x => .free x
  | .bound i => if i < k then .bound i else if i = k then v.lift k 0 else .bound (i - 1)
  | .lam b => .lam (b.subst (k + 1) v)
  | .app f a => .app (f.subst k v) (a.subst k v)

/-- The term with the redex at the end of a path contracted, if there is one. -/
def contractAt : DeBruijn → List Turn → Option DeBruijn
  | .app (.lam b) a, [] => some (b.subst 0 a)
  | .lam b, .body :: p => (b.contractAt p).map .lam
  | .app f a, .fn :: p => (f.contractAt p).map (.app · a)
  | .app f a, .arg :: p => (a.contractAt p).map (.app f)
  | _, _ => none

/-- No path leads to a redex. -/
def IsNormal (t : DeBruijn) : Prop := ∀ p, t.contractAt p = none

/-- Contracting the leftmost outermost redex of `t` gives `u`. -/
def Leftmost (t u : DeBruijn) : Prop :=
  ∃ p, t.contractAt p = some u ∧ ∀ q v, t.contractAt q = some v → precedes p q

/-- Contracting the leftmost outermost redex `k` times leads from `t` to `u`. -/
def LeftmostReduct : Nat → DeBruijn → DeBruijn → Prop
  | 0, t, u => t = u
  | k + 1, t, u => ∃ s, Leftmost t s ∧ LeftmostReduct k s u

def isLam : DeBruijn → Bool
  | .lam _ => true
  | _ => false

theorem leftmost_unique {t u v : DeBruijn} (hu : Leftmost t u) (hv : Leftmost t v) : u = v := by
  obtain ⟨p, hp, hpmin⟩ := hu
  obtain ⟨q, hq, hqmin⟩ := hv
  obtain rfl := precedes_antisymm (hpmin q v hq) (hqmin p u hp)
  exact Option.some.inj (hp.symm.trans hq)

theorem not_leftmost_of_isNormal {t u : DeBruijn} (h : t.IsNormal) : ¬Leftmost t u := by
  intro hu
  obtain ⟨p, hp, -⟩ := hu
  rw [h p] at hp
  cases hp

theorem contractAt_app_nil {f : DeBruijn} (a : DeBruijn) (hf : f.isLam = false) :
    (app f a).contractAt [] = none := by
  cases f with
  | lam b => cases hf
  | _ => rfl

theorem contractAt_app_body (f a : DeBruijn) (p : List Turn) :
    (app f a).contractAt (.body :: p) = none := by
  cases f <;> rfl

theorem contractAt_app_fn (f a : DeBruijn) (p : List Turn) :
    (app f a).contractAt (.fn :: p) = (f.contractAt p).map (.app · a) := by
  cases f <;> rfl

theorem contractAt_app_arg (f a : DeBruijn) (p : List Turn) :
    (app f a).contractAt (.arg :: p) = (a.contractAt p).map (.app f) := by
  cases f <;> rfl

theorem isNormal_free (x : String) : (free x).IsNormal := by
  intro p
  cases p <;> rfl

theorem isNormal_bound (i : Nat) : (bound i).IsNormal := by
  intro p
  cases p <;> rfl

theorem isNormal_lam {b : DeBruijn} (h : b.IsNormal) : (lam b).IsNormal := by
  intro p
  match p with
  | [] => rfl
  | .body :: p => simp [contractAt, h p]
  | .fn :: p => rfl
  | .arg :: p => rfl

theorem isNormal_app {f a : DeBruijn} (hlam : f.isLam = false) (hf : f.IsNormal) (ha : a.IsNormal) :
    (app f a).IsNormal := by
  intro p
  match p with
  | [] => exact contractAt_app_nil a hlam
  | .body :: p => exact contractAt_app_body f a p
  | .fn :: p => simp [contractAt_app_fn, hf p]
  | .arg :: p => simp [contractAt_app_arg, ha p]

theorem leftmost_beta (b a : DeBruijn) : Leftmost (.app (.lam b) a) (b.subst 0 a) :=
  ⟨[], rfl, fun _ _ _ => trivial⟩

theorem leftmost_lam {b b' : DeBruijn} (h : Leftmost b b') : Leftmost (.lam b) (.lam b') := by
  obtain ⟨p, hp, hmin⟩ := h
  refine ⟨.body :: p, by simp [contractAt, hp], ?_⟩
  intro q v hq
  match q with
  | [] => cases hq
  | .fn :: q => cases hq
  | .arg :: q => cases hq
  | .body :: q =>
    obtain ⟨u, hu, -⟩ := Option.map_eq_some_iff.mp hq
    exact .inl ⟨rfl, hmin q u hu⟩

theorem leftmost_fn {f f' : DeBruijn} (a : DeBruijn) (hlam : f.isLam = false) (h : Leftmost f f') :
    Leftmost (.app f a) (.app f' a) := by
  obtain ⟨p, hp, hmin⟩ := h
  refine ⟨.fn :: p, by simp [contractAt_app_fn, hp], ?_⟩
  intro q v hq
  match q with
  | [] => rw [contractAt_app_nil a hlam] at hq; cases hq
  | .body :: q => rw [contractAt_app_body] at hq; cases hq
  | .arg :: q => exact .inr ⟨rfl, rfl⟩
  | .fn :: q =>
    rw [contractAt_app_fn] at hq
    obtain ⟨u, hu, -⟩ := Option.map_eq_some_iff.mp hq
    exact .inl ⟨rfl, hmin q u hu⟩

theorem leftmost_arg {f a a' : DeBruijn} (hlam : f.isLam = false) (hf : f.IsNormal)
    (h : Leftmost a a') : Leftmost (.app f a) (.app f a') := by
  obtain ⟨p, hp, hmin⟩ := h
  refine ⟨.arg :: p, by simp [contractAt_app_arg, hp], ?_⟩
  intro q v hq
  match q with
  | [] => rw [contractAt_app_nil a hlam] at hq; cases hq
  | .body :: q => rw [contractAt_app_body] at hq; cases hq
  | .fn :: q => simp [contractAt_app_fn, hf q] at hq
  | .arg :: q =>
    rw [contractAt_app_arg] at hq
    obtain ⟨u, hu, -⟩ := Option.map_eq_some_iff.mp hq
    exact .inl ⟨rfl, hmin q u hu⟩

/-- The application of `h` to the arguments, one after the other. -/
def spine (h : DeBruijn) (args : List DeBruijn) : DeBruijn := args.foldl .app h

theorem isLam_spine_app (f a : DeBruijn) (args : List DeBruijn) :
    (spine (.app f a) args).isLam = false := by
  induction args generalizing f a with
  | nil => rfl
  | cons b args ih => exact ih (.app f a) b

theorem isNormal_spine {h : DeBruijn} {args : List DeBruijn} (hlam : h.isLam = false)
    (hnorm : h.IsNormal) (hargs : ∀ a ∈ args, a.IsNormal) : (spine h args).IsNormal := by
  induction args generalizing h with
  | nil => exact hnorm
  | cons a args ih =>
    obtain ⟨ha, hargs⟩ := List.forall_mem_cons.mp hargs
    exact ih rfl (isNormal_app hlam hnorm ha) hargs

/-- A redex in the head of a spine comes before those in its arguments. -/
theorem leftmost_spine {h h' : DeBruijn} (args : List DeBruijn) (hlam : h.isLam = false)
    (hstep : Leftmost h h') : Leftmost (spine h args) (spine h' args) := by
  induction args generalizing h h' with
  | nil => exact hstep
  | cons a args ih => exact ih rfl (leftmost_fn a hlam hstep)

theorem lift_spine (d k : Nat) (h : DeBruijn) (args : List DeBruijn) :
    (spine h args).lift d k = spine (h.lift d k) (args.map (lift d k)) := by
  induction args generalizing h with
  | nil => rfl
  | cons a args ih => exact ih (.app h a)

theorem subst_spine (k : Nat) (v h : DeBruijn) (args : List DeBruijn) :
    (spine h args).subst k v = spine (h.subst k v) (args.map (·.subst k v)) := by
  induction args generalizing h with
  | nil => rfl
  | cons a args ih => exact ih (.app h a)

end DeBruijn

namespace Nameless

open DeBruijn (spine)

mutual

/-- An application of several elements as an application of an application: `a b c` is `(a b) c`. -/
def curry : Nameless → DeBruijn
  | .free x => .free x
  | .bound i => .bound i
  | .lam b => .lam b.curry
  | .app f a rest => spine (.app f.curry a.curry) (curryAll rest)

def curryAll : List Nameless → List DeBruijn
  | [] => []
  | t :: ts => t.curry :: curryAll ts

end

theorem curryAll_eq_map (ts : List Nameless) : curryAll ts = ts.map curry := by
  induction ts with
  | nil => rfl
  | cons t ts ih => simp [curryAll, ih]

theorem curry_lift (d k : Nat) (t : Nameless) : (t.lift d k).curry = t.curry.lift d k := by
  induction t generalizing k with
  | free x => rfl
  | bound i => rfl
  | lam b ih => simp [lift, curry, DeBruijn.lift, ih]
  | app f a rest hf ha hrest =>
    have hrest' : (rest.map (lift d k)).map curry = (rest.map curry).map (DeBruijn.lift d k) := by
      rw [List.map_map, List.map_map]
      exact List.map_congr_left fun t ht => hrest t ht k
    simp only [lift, curry, liftAll_eq_map, curryAll_eq_map, DeBruijn.lift_spine, DeBruijn.lift, hf,
      ha, hrest']

theorem curry_subst (t : Nameless) (k : Nat) (v : Nameless) :
    (t.subst k v).curry = t.curry.subst k v.curry := by
  induction t generalizing k with
  | free x => rfl
  | bound i =>
    simp only [subst, curry, DeBruijn.subst]
    split_ifs
    · rfl
    · exact curry_lift k 0 v
    · rfl
  | lam b ih => simp [subst, curry, DeBruijn.subst, ih]
  | app f a rest hf ha hrest =>
    have hrest' : (rest.map (·.subst k v)).map curry = (rest.map curry).map (·.subst k v.curry) := by
      rw [List.map_map, List.map_map]
      exact List.map_congr_left fun t ht => hrest t ht k
    simp only [subst, curry, substAll_eq_map, curryAll_eq_map, DeBruijn.subst_spine, DeBruijn.subst,
      hf, ha, hrest']

end Nameless

end NormalOrder
