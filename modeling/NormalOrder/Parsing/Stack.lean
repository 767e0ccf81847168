import NormalOrder.Parsing.Error
import NormalOrder.Term.Basic

namespace NormalOrder

/-- An open scope with the terms read in it so far. An opening bracket and a binder each open one.
The span is that of the bracket or of the bound identifier. -/
inductive Scope where
  | bracket (span : Option Span) (terms : List Term)
  | binder (param : String) (span : Option Span) (terms : List Term)
  deriving DecidableEq, Repr

namespace Scope

def span : Scope → Option Span
  | .bracket s _ => s
  | .binder _ s _ => s

def terms : Scope → List Term
  | .bracket _ ts => ts
  | .binder _ _ ts => ts

def param? : Scope → Option String
  | .bracket _ _ => none
  | .binder x _ _ => some x

/-- Adds terms at the end of the scope. -/
def append (new : List Term) : Scope → Scope
  | .bracket s ts => .bracket s (ts ++ new)
  | .binder x s ts => .binder x s (ts ++ new)

end Scope

/-- The terms at top level and the open scopes, innermost first. -/
structure Stack where
  base : List Term
  scopes : List Scope
  deriving DecidableEq, Repr

namespace Stack

def empty : Stack := ⟨[], []⟩

/-- Adds terms to the innermost scope. -/
def append (new : List Term) : Stack → Stack
  | ⟨base, []⟩ => ⟨base ++ new, []⟩
  | ⟨base, scope :: scopes⟩ => ⟨base, scope.append new :: scopes⟩

/-- Opens a scope. -/
def push (scope : Scope) (s : Stack) : Stack := ⟨s.base, scope :: s.scopes⟩

/-- The span of the innermost scope; the top level has none. -/
def topSpan (s : Stack) : Option Span := s.scopes.head?.bind Scope.span

/-- Closes the binders above the innermost bracket, then that bracket. `done` holds the term closed
last, which belongs to the scope looked at next; `closing` is the span of the closing bracket. An
error comes with the stack that is left. -/
def closeBracket (closing : Option Span) (base done : List Term) :
    List Scope → Except (ParseError × Stack) Stack
  | [] => .error (⟨.unexpectedClosingBracket, closing⟩, ⟨base ++ done, []⟩)
  | .binder x s ts :: scopes =>
    match Term.collapse (ts ++ done) with
    | .error _ => .error (⟨.missingBody, closing.or s⟩, ⟨base, scopes⟩)
    | .ok body => closeBracket closing base [.lam x body] scopes
  | .bracket s ts :: scopes =>
    match Term.collapse (ts ++ done) with
    | .error _ => .error (⟨.emptyParentheses, s⟩, ⟨base, scopes⟩)
    | .ok t => .ok (append [t] ⟨base, scopes⟩)

/-- Closes the binders that the end of the input closes. Gives the term read, and the stack that is
left. -/
def closeAll (base done : List Term) : List Scope → Except ParseError Term × Stack
  | [] =>
    let terms := base ++ done
    match Term.collapse terms with
    | .error _ => (.error ⟨.emptyExpression, none⟩, ⟨terms, []⟩)
    | .ok t => (.ok t, ⟨terms, []⟩)
  | .bracket s ts :: scopes =>
    (.error ⟨.missingClosingBracket, s⟩, ⟨base, .bracket s (ts ++ done) :: scopes⟩)
  | .binder x s ts :: scopes =>
    match Term.collapse (ts ++ done) with
    | .error _ => (.error ⟨.missingBody, s⟩, ⟨base, scopes⟩)
    | .ok body => closeAll base [.lam x body] scopes

end Stack

end NormalOrder
