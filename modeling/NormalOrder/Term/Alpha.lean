import NormalOrder.Term.Basic

namespace NormalOrder

/-- For each name, the partners of the binders of that name that are open. -/
abbrev Bindings := List (String × List String)

namespace Bindings

/-- The partners of `x`, outermost first. -/
def partners (x : String) : Bindings → List String
  | [] => []
  | (y, ps) :: rest => if y = x then ps else partners x rest

/-- The partner of the innermost binder of `x`. -/
def partner? (bs : Bindings) (x : String) : Option String := (bs.partners x).getLast?

/-- Opens a binder of `x` with partner `p`. -/
def push (x p : String) : Bindings → Bindings
  | [] => [(x, [p])]
  | (y, ps) :: rest => if y = x then (y, ps ++ [p]) :: rest else (y, ps) :: push x p rest

/-- Closes the innermost binder of `x`; the name itself stays known. -/
def pop (x : String) : Bindings → Bindings
  | [] => []
  | (y, ps) :: rest => if y = x then (y, ps.dropLast) :: rest else (y, ps) :: pop x rest

end Bindings

namespace Term

/-- The open binders on the two sides of a comparison. -/
structure Pairing where
  left : Bindings
  right : Bindings
  deriving DecidableEq, Repr

/-- Two variables agree if both are free and equal, or each is the other's partner. -/
def agree (s : Pairing) (x y : String) : Bool :=
  match s.left.partner? x, s.right.partner? y with
  | none, none => x = y
  | p, q => p = some y && q = some x

/-- Opens the binder `x` on the left and `y` on the right. -/
def Pairing.enter (s : Pairing) (x y : String) : Pairing := ⟨s.left.push x y, s.right.push y x⟩

/-- Closes the binder `x` on the left and `y` on the right. -/
def Pairing.leave (s : Pairing) (x y : String) : Pairing := ⟨s.left.pop x, s.right.pop y⟩

mutual

/-- Compares two terms below the binders of `s`, and gives the binders afterwards. -/
def compare (s : Pairing) : Term → Term → Bool × Pairing
  | .var x, .var y => (agree s x y, s)
  | .lam x b, .lam y c =>
    let (same, s) := compare (s.enter x y) b c
    (same, s.leave x y)
  | .app f a rest, .app g b others =>
    if rest.length = others.length then
      let (same, s) := compare s f g
      if same then
        let (same, s) := compare s a b
        if same then compareAll s rest others else (false, s)
      else (false, s)
    else (false, s)
  | _, _ => (false, s)

/-- Compares element by element up to the first difference. -/
def compareAll (s : Pairing) : List Term → List Term → Bool × Pairing
  | t :: ts, u :: us =>
    let (same, s) := compare s t u
    if same then compareAll s ts us else (false, s)
  | _, _ => (true, s)

end

/-- Equality up to the names of bound variables. -/
def alphaEq (t u : Term) : Bool := (compare ⟨[], []⟩ t u).1

end Term

end NormalOrder
