import NormalOrder.Term.Basic

namespace NormalOrder

/-- Why a binder cannot be renamed. -/
inductive Clash where
  | notAbstraction (t : Term)
  | occursFree (name : String) (t : Term)
  | alreadyBound (name : String) (t : Term)
  deriving DecidableEq, Repr

/-- The `k`-th generated name. It cannot be written in a source, so it never meets a name of the
user's. -/
def generated (k : Int) : String := "#" ++ toString k

/-- Computations that draw generated names. The state is the number of the next name; names drawn
before a clash stay drawn. -/
abbrev Naming := ExceptT Clash (StateM Int)

/-- Draws the next name. -/
def fresh : Naming String := modifyGet fun k => (generated k, k + 1)

namespace Term

mutual

/-- Renames `old` to `new` up to the binders that bind `old` again. -/
def rename (old new : String) : Term → Term
  | .var x => .var (if x = old then new else x)
  | .lam x b => if x = old then .lam x b else .lam x (b.rename old new)
  | .app f a rest => .app (f.rename old new) (a.rename old new) (renameAll old new rest)

def renameAll (old new : String) : List Term → List Term
  | [] => []
  | t :: ts => t.rename old new :: renameAll old new ts

end

mutual

theorem size_rename (old new : String) (t : Term) : (t.rename old new).size = t.size := by
  cases t with
  | var x => simp [rename, size]
  | lam x b =>
    simp only [rename]
    split
    · rfl
    · simp [size, size_rename old new b]
  | app f a rest =>
    simp [rename, size, size_rename old new f, size_rename old new a,
      sizeAll_renameAll old new rest]

theorem sizeAll_renameAll (old new : String) (ts : List Term) :
    sizeAll (renameAll old new ts) = sizeAll ts := by
  cases ts with
  | nil => rfl
  | cons t ts => simp [renameAll, sizeAll, size_rename old new t, sizeAll_renameAll old new ts]

end

/-- Whether the binder of the abstraction of `body` over `param` may be renamed to `new`: the new
name must not occur in the body. -/
def checkRename (param : String) (body : Term) (new : String) : Except Clash Unit :=
  if new ∈ body.free [param] then .error (.occursFree new (.lam param body))
  else if new ∈ body.names then .error (.alreadyBound new (.lam param body))
  else .ok ()

/-- An abstraction with its binder renamed to `new`. -/
def alphaConvert (t : Term) (new : String) : Except Clash Term :=
  match t with
  | .lam x b => do
    checkRename x b new
    return .lam new (b.rename x new)
  | t => .error (.notAbstraction t)

end Term

end NormalOrder
