import NormalOrder.Proofs.Terms
import Mathlib.Data.List.Basic

namespace NormalOrder.Term

/-- At each level, which of the direct subterms the way goes on in. -/
abbrev Position := List Nat

/-- The direct subterms, from left to right. -/
def parts : Term → List Term
  | .var _ => []
  | .lam _ b => [b]
  | .app f a rest => f :: a :: rest

/-- Induction over a term and its direct subterms. -/
theorem inductParts {motive : Term → Prop} (parts : ∀ t, (∀ s ∈ t.parts, motive s) → motive t)
    (t : Term) : motive t := by
  induction t with
  | var x => exact parts _ (by simp [Term.parts])
  | lam x b ih => exact parts _ (by simpa [Term.parts] using ih)
  | app f a rest hf ha hrest =>
    exact parts _ (List.forall_mem_cons.mpr ⟨hf, List.forall_mem_cons.mpr ⟨ha, hrest⟩⟩)

/-- The subterm at a position, if the term goes so far. -/
def at? : Term → Position → Option Term
  | t, [] => some t
  | t, i :: p => t.parts[i]?.bind fun s => s.at? p

/-- The term with its direct subterm number `i` changed. -/
def modifyPart (g : Term → Term) : Term → Nat → Term
  | .var x, _ => .var x
  | .lam x b, i => if i = 0 then .lam x (g b) else .lam x b
  | .app f a rest, 0 => .app (g f) a rest
  | .app f a rest, 1 => .app f (g a) rest
  | .app f a rest, i + 2 => .app f a (rest.modify i g)

/-- The term with `u` in the place of the subterm at a position. -/
def replaceAt : Term → Position → Term → Term
  | _, [], u => u
  | t, i :: p, u => t.modifyPart (fun s => s.replaceAt p u) i

/-- What a term is without its subterms: a name, the name that it binds, or the number of elements of
an application. -/
inductive Node where
  | var (name : String)
  | lam (param : String)
  | app (elements : Nat)
  deriving DecidableEq, Repr

def node : Term → Node
  | .var x => .var x
  | .lam x _ => .lam x
  | .app _ _ rest => .app (rest.length + 2)

theorem parts_modifyPart (g : Term → Term) (t : Term) (i : Nat) :
    (t.modifyPart g i).parts = t.parts.modify i g := by
  cases t with
  | var x => simp [modifyPart, parts]
  | lam x b => cases i <;> simp [modifyPart, parts]
  | app f a rest =>
    obtain _ | _ | i := i <;> rfl

theorem node_modifyPart (g : Term → Term) (t : Term) (i : Nat) :
    (t.modifyPart g i).node = t.node := by
  cases t with
  | var x => rfl
  | lam x b => cases i <;> rfl
  | app f a rest =>
    obtain _ | _ | i := i
    · rfl
    · rfl
    · simp [modifyPart, node]

/-- A replacement keeps every name and every grouping that does not belong to what it replaces. -/
theorem node_at?_replaceAt (t u : Term) {p q : Position} (h : ¬p <+: q) :
    ((t.replaceAt p u).at? q).map node = (t.at? q).map node := by
  induction p generalizing t q with
  | nil => exact absurd List.nil_prefix h
  | cons i p ih =>
    cases q with
    | nil => exact congrArg some (node_modifyPart _ t i)
    | cons j q =>
      rw [replaceAt, at?, at?, parts_modifyPart]
      by_cases hij : i = j
      · subst hij
        have hbelow : ¬p <+: q := fun hpq => h (List.cons_prefix_cons.mpr ⟨rfl, hpq⟩)
        cases hs : t.parts[i]? with
        | none => simp [hs]
        | some s => simpa [hs] using ih s hbelow
      · rw [List.getElem?_modify_ne _ _ hij]

/-- A subterm of part number `i` and its position, seen from one level above. -/
def ofPart (i : Nat) (s : Position × Term) : Position × Term := (i :: s.1, s.2)

mutual

/-- The subterms with their positions: first the term itself, and then those of its parts, from left
to right. -/
def preorder : Term → List (Position × Term)
  | .var x => [([], .var x)]
  | .lam x b => ([], .lam x b) :: b.preorder.map (ofPart 0)
  | .app f a rest =>
    ([], .app f a rest) ::
      (f.preorder.map (ofPart 0) ++ (a.preorder.map (ofPart 1) ++ preorderAll 2 rest))

/-- The subterms of the parts from number `i` on. -/
def preorderAll (i : Nat) : List Term → List (Position × Term)
  | [] => []
  | t :: ts => t.preorder.map (ofPart i) ++ preorderAll (i + 1) ts

end

theorem preorder_eq (t : Term) : t.preorder = ([], t) :: preorderAll 0 t.parts := by
  cases t <;> simp [preorder, preorderAll, parts]

theorem mem_map_ofPart {t s : Term} {p : Position} {i : Nat} :
    (p, s) ∈ t.preorder.map (ofPart i) ↔ ∃ q, p = i :: q ∧ (q, s) ∈ t.preorder := by
  constructor
  · intro h
    obtain ⟨⟨q, u⟩, hq, hp⟩ := List.mem_map.mp h
    obtain ⟨rfl, rfl⟩ := Prod.mk.inj hp
    exact ⟨q, rfl, hq⟩
  · intro h
    obtain ⟨q, rfl, hq⟩ := h
    exact List.mem_map.mpr ⟨(q, s), hq, rfl⟩

theorem mem_preorderAll {ts : List Term} {s : Term} {p : Position} {i : Nat} :
    (p, s) ∈ preorderAll i ts ↔ ∃ j q t, p = (i + j) :: q ∧ ts[j]? = some t ∧ (q, s) ∈ t.preorder := by
  induction ts generalizing i with
  | nil => simp [preorderAll]
  | cons t ts ih =>
    rw [preorderAll, List.mem_append, mem_map_ofPart, ih]
    constructor
    · intro h
      obtain ⟨q, rfl, hq⟩ | ⟨j, q, u, rfl, hu, hq⟩ := h
      · exact ⟨0, q, t, rfl, rfl, hq⟩
      · exact ⟨j + 1, q, u, by rw [Nat.add_right_comm, Nat.add_assoc], hu, hq⟩
    · intro h
      obtain ⟨j, q, u, rfl, hu, hq⟩ := h
      cases j with
      | zero =>
        obtain rfl : t = u := Option.some.inj hu
        exact .inl ⟨q, rfl, hq⟩
      | succ j => exact .inr ⟨j, q, u, by rw [Nat.add_right_comm, Nat.add_assoc], hu, hq⟩

/-- The listed subterms are those that a position leads to. -/
theorem mem_preorder {t s : Term} {p : Position} : (p, s) ∈ t.preorder ↔ t.at? p = some s := by
  induction t using inductParts generalizing p with
  | parts t ih =>
    rw [preorder_eq, List.mem_cons, mem_preorderAll]
    cases p with
    | nil => simp [at?, eq_comm]
    | cons i p =>
      have hpart : ∀ u, t.parts[i]? = some u → ((p, s) ∈ u.preorder ↔ u.at? p = some s) :=
        fun u hu => ih u (List.mem_of_getElem? hu)
      rw [at?, Option.bind_eq_some_iff]
      constructor
      · intro h
        obtain h | ⟨j, q, u, hp, hu, hq⟩ := h
        · cases h
        · obtain ⟨rfl, rfl⟩ : i = 0 + j ∧ p = q := List.cons.inj hp
          rw [Nat.zero_add] at hpart
          exact ⟨u, by rwa [Nat.zero_add], (hpart u hu).mp hq⟩
      · intro h
        obtain ⟨u, hu, hp⟩ := h
        exact .inr ⟨i, p, u, by rw [Nat.zero_add], hu, (hpart u hu).mpr hp⟩

end NormalOrder.Term
