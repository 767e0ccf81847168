namespace NormalOrder

/-- An application holds its function, its first argument and any further arguments, so it always
has at least two elements. -/
inductive Term where
  | var (name : String)
  | lam (param : String) (body : Term)
  | app (fn arg : Term) (rest : List Term)
  deriving Repr

namespace Term

mutual

/-- Equality of terms is decided constructor by constructor. -/
def decEq : (s t : Term) → Decidable (s = t)
  | .var x, .var y =>
    if h : x = y then isTrue (by rw [h]) else isFalse (by intro e; cases e; exact h rfl)
  | .lam x b, .lam y c =>
    if h : x = y then
      match decEq b c with
      | isTrue k => isTrue (by rw [h, k])
      | isFalse k => isFalse (by intro e; cases e; exact k rfl)
    else isFalse (by intro e; cases e; exact h rfl)
  | .app f a r, .app g b s =>
    match decEq f g, decEq a b, decEqAll r s with
    | isTrue h, isTrue k, isTrue l => isTrue (by rw [h, k, l])
    | isFalse h, _, _ => isFalse (by intro e; cases e; exact h rfl)
    | _, isFalse h, _ => isFalse (by intro e; cases e; exact h rfl)
    | _, _, isFalse h => isFalse (by intro e; cases e; exact h rfl)
  | .var _, .lam _ _ | .var _, .app _ _ _ | .lam _ _, .var _ | .lam _ _, .app _ _ _
  | .app _ _ _, .var _ | .app _ _ _, .lam _ _ => isFalse (by intro e; cases e)

def decEqAll : (r s : List Term) → Decidable (r = s)
  | [], [] => isTrue rfl
  | t :: r, u :: s =>
    match decEq t u, decEqAll r s with
    | isTrue h, isTrue k => isTrue (by rw [h, k])
    | isFalse h, _ => isFalse (by intro e; cases e; exact h rfl)
    | _, isFalse h => isFalse (by intro e; cases e; exact h rfl)
  | [], _ :: _ | _ :: _, [] => isFalse (by intro e; cases e)

end

instance : DecidableEq Term := decEq

instance : Inhabited Term := ⟨.var ""⟩

/-- Why a list of terms is no term. -/
inductive Malformed where
  /-- An application of fewer than two elements. -/
  | tooFew (count : Nat)
  /-- No terms side by side. -/
  | empty
  deriving DecidableEq, Repr

def Malformed.message : Malformed → String
  | .tooFew n => "Application needs at least two terms, got " ++ toString n
  | .empty => "cannot build a term out of nothing"

/-- Applies `t` to the given arguments, which may be none. -/
def applyTo (t : Term) : List Term → Term
  | [] => t
  | a :: rest => .app t a rest

/-- Terms side by side: one stands for itself, more make an application. -/
def collapse : List Term → Except Malformed Term
  | [] => .error .empty
  | t :: ts => .ok (t.applyTo ts)

/-- The application of the given elements. -/
def application : List Term → Except Malformed Term
  | f :: a :: rest => .ok (.app f a rest)
  | ts => .error (.tooFew ts.length)

def isVar : Term → Bool
  | .var _ => true
  | _ => false

def isApp : Term → Bool
  | .app _ _ _ => true
  | _ => false

mutual

def size : Term → Nat
  | .var _ => 1
  | .lam _ b => b.size + 1
  | .app f a rest => f.size + a.size + sizeAll rest + 1

def sizeAll : List Term → Nat
  | [] => 0
  | t :: ts => t.size + sizeAll ts + 1

end

mutual

/-- Every name in the term, binders included, in text order. -/
def names : Term → List String
  | .var x => [x]
  | .lam x b => x :: b.names
  | .app f a rest => f.names ++ a.names ++ namesAll rest

def namesAll : List Term → List String
  | [] => []
  | t :: ts => t.names ++ namesAll ts

end

mutual

/-- The occurrences of variables bound neither in the term nor by `bound`, in text order. -/
def free (bound : List String) : Term → List String
  | .var x => if x ∈ bound then [] else [x]
  | .lam x b => b.free (x :: bound)
  | .app f a rest => f.free bound ++ a.free bound ++ freeAll bound rest

def freeAll (bound : List String) : List Term → List String
  | [] => []
  | t :: ts => t.free bound ++ freeAll bound ts

end

end Term

/-- Each of the names once, in the order of their code points. -/
def distinctNames (names : List String) : List String := names.eraseDups.mergeSort (· ≤ ·)

end NormalOrder
