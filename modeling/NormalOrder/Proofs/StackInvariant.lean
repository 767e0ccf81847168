import NormalOrder.Proofs.Frames
import NormalOrder.Proofs.LocalErrors
import NormalOrder.Proofs.SourceNames

namespace NormalOrder

namespace Scope

/-- The parameter of a frame, and the names of its terms. -/
def names (scope : Scope) : List String := scope.param?.toList ++ Term.namesAll scope.terms

theorem names_append (new : List Term) (scope : Scope) :
    (scope.append new).names = scope.names ++ Term.namesAll new := by
  cases scope <;> simp [names, append, param?, terms, Term.namesAll_append]

end Scope

namespace Framed

/-- The names in the frames, from the last frame to the first. -/
def names (frames : List Scope) : List String := frames.reverse.flatMap Scope.names

@[simp] theorem names_cons (scope : Scope) (frames : List Scope) :
    names (scope :: frames) = names frames ++ scope.names := by
  simp [names]

end Framed

namespace Stack

open Framed (names)

theorem names_append (new : List Term) (s : Stack) :
    names (s.append new).frames = names s.frames ++ Term.namesAll new := by
  obtain ⟨scope, rest, hframes, happend⟩ := frames_append new s.base s.scopes
  rw [hframes, happend]
  simp [Scope.names_append]

/-- Closing a bracket moves names from frame to frame, and keeps all of them in their order. -/
theorem closeBracket_names {closing : Option Span} {base done : List Term} {scopes : List Scope}
    {s : Stack} (h : closeBracket closing base done scopes = .ok s) :
    names s.frames = names (append done ⟨base, scopes⟩).frames := by
  induction scopes generalizing done with
  | nil => cases h
  | cons scope scopes ih =>
    cases scope with
    | bracket span ts =>
      rw [Stack.frames_append_bracket, Framed.names_cons]
      cases ht : Term.collapse (ts ++ done) with
      | error m => simp [closeBracket, ht] at h
      | ok t =>
        obtain rfl : append [t] ⟨base, scopes⟩ = s := by simpa [closeBracket, ht] using h
        rw [names_append]
        simp [Scope.names, Scope.param?, Scope.terms, Term.namesAll, Term.names_collapse ht]
    | binder x span ts =>
      rw [Stack.frames_append_binder, Framed.names_cons]
      cases hbody : Term.collapse (ts ++ done) with
      | error m => simp [closeBracket, hbody] at h
      | ok body =>
        have hbelow : names s.frames = names (append [.lam x body] ⟨base, scopes⟩).frames :=
          ih (by simpa [closeBracket, hbody] using h)
        rw [hbelow, names_append]
        simp [Scope.names, Scope.param?, Scope.terms, Term.namesAll, Term.names,
          Term.names_collapse hbody]

end Stack

namespace Parsing

open Grammar (identifiers)

/-- A token adds its name, if it is an identifier, behind all other names. -/
theorem step_names {p q : Parsing} {token : Token} (h : p.step token = .ok q) :
    Framed.names q.framed.frames = Framed.names p.framed.frames ++ identifiers [token.kind] := by
  obtain ⟨mode, base, scopes⟩ := p
  obtain ⟨kind, span⟩ := token
  cases mode with
  | normal =>
    cases kind with
    | closing =>
      cases hclose : Stack.closeBracket span base [] scopes with
      | error e => simp [step, hclose] at h
      | ok s =>
        obtain rfl : (⟨.normal, s⟩ : Parsing) = q := by simpa [step, hclose] using h
        have hnames := Stack.closeBracket_names hclose
        rw [Stack.append_nil] at hnames
        simpa [framed, identifiers] using hnames
    | identifier x =>
      cases h
      exact Stack.names_append [.var x] ⟨base, scopes⟩
    | dot => cases h
    | opening =>
      cases h
      exact Framed.names_cons (.bracket span []) _
    | lambda =>
      cases h
      exact (List.append_nil _).symm
  | lambda =>
    cases kind with
    | identifier x =>
      cases h
      exact Framed.names_cons (.binder x span []) _
    | _ => cases h
  | header =>
    cases kind with
    | identifier x =>
      cases h
      exact Framed.names_cons (.binder x span []) _
    | dot =>
      cases h
      exact (List.append_nil _).symm
    | _ => cases h

theorem read_names {p : Parsing} {tokens : List Token} (h : start.read tokens = .ok p) :
    Framed.names p.framed.frames = identifiers (tokens.map Token.kind) := by
  induction tokens using List.reverseRecOn generalizing p with
  | nil =>
    obtain rfl : start = p := Except.ok.inj h
    rfl
  | append_singleton tokens token ih =>
    rw [read_concat] at h
    cases hread : start.read tokens with
    | error e => simp [hread, bind, Except.bind] at h
    | ok q =>
      rw [hread] at h
      rw [step_names h, ih hread, List.map_append, Grammar.identifiers_append]
      rfl

end Parsing

namespace Framed

/-- The frames account for the tokens that were read. The last of them is the top level, and the
brackets above it are the opening brackets that are not closed, with their spans. The parameters of
the frames and the names of their terms, from the last frame to the first, are the identifiers. In a
header the first frame is that of its last binder, still without terms. -/
structure Accounts (m : Framed) (tokens : List Token) : Prop where
  brackets : ∃ above terms, m.frames = above ++ [.bracket none terms] ∧
    Stack.openings above = Parsing.unmatched tokens.reverse
  names_eq : names m.frames = Grammar.identifiers (tokens.map Token.kind)
  header : m.mode = .header → ∃ x span below, m.frames = .binder x span [] :: below

theorem accounts_framed {p : Parsing} {tokens : List Token}
    (h : Parsing.start.read tokens = .ok p) : p.framed.Accounts tokens := by
  obtain ⟨-, p', hp', hreflects⟩ | ⟨-, f, hf⟩ := Parsing.read_reflects tokens
  · obtain rfl : p' = p := Except.ok.inj (hp'.symm.trans h)
    refine ⟨⟨p'.stack.scopes, p'.stack.base, rfl, hreflects.brackets⟩, Parsing.read_names h, ?_⟩
    intro hmode
    obtain ⟨bound, -, x, scopes, -, hscopes⟩ := hreflects.header hmode
    refine ⟨x, bound.span, scopes ++ [.bracket none p'.stack.base], ?_⟩
    rw [Parsing.framed, Stack.frames, hscopes]
    rfl
  · rw [h] at hf
    cases hf

/-- After every token that is read the frames account for the tokens so far. Whatever the input is,
a parse over frames ends as any other, with a term or for a fault in the input, and with a frame
left: it never lacks one, and never puts terms together that make no term. -/
theorem frames_account_for_tokens :
    (∀ tokens m, start.read tokens = .ok m → m.Accounts tokens ∧
      ∀ rest, start.run (tokens.map .ok ++ rest) = m.run rest) ∧
    ∀ lexemes, (start.run lexemes).1 = (parse lexemes).mapError .failure ∧
      (start.run lexemes).2 = (Parsing.start.run lexemes).2.framed ∧
      (start.run lexemes).2.frames ≠ [] := by
  have hstart : start = Parsing.start.framed := rfl
  constructor
  · intro tokens m h
    refine ⟨?_, run_of_read h⟩
    rw [hstart, read_framed] at h
    cases hread : Parsing.start.read tokens with
    | error e => simp [hread, ofParsing] at h
    | ok p =>
      obtain rfl : p.framed = m := by simpa [hread, ofParsing] using h
      exact accounts_framed hread
  · intro lexemes
    rw [hstart, run_framed]
    exact ⟨rfl, rfl, Stack.frames_ne_nil _⟩

/-- A bracket that is closed and two that are open, in the second of which a header has begun. -/
theorem frames_account_for_tokens_header :
    let spot (column : Nat) : Option Span := some (.single ⟨0, column⟩)
    let closed : List Token := [⟨.opening, spot 0⟩, ⟨.lambda, spot 1⟩, ⟨.identifier "x", spot 2⟩,
      ⟨.dot, spot 3⟩, ⟨.identifier "x", spot 4⟩, ⟨.closing, spot 5⟩]
    let opened : List Token := [⟨.opening, spot 7⟩, ⟨.identifier "y", spot 8⟩, ⟨.opening, spot 9⟩,
      ⟨.lambda, spot 10⟩, ⟨.identifier "x", spot 11⟩, ⟨.identifier "z", spot 13⟩]
    let m : Framed := ⟨.header, [.binder "z" (spot 13) [], .binder "x" (spot 11) [],
      .bracket (spot 9) [], .bracket (spot 7) [.var "y"], .bracket none [.lam "x" (.var "x")]]⟩
    start.read (closed ++ opened) = .ok m ∧ m.Accounts (closed ++ opened) ∧
      start.run ((closed ++ opened).map .ok ++ []) = m.run [] := by
  intro spot closed opened m
  have hread : start.read (closed ++ opened) = .ok m := read_framed Parsing.start _
  obtain ⟨haccounts, hrun⟩ := frames_account_for_tokens.1 _ m hread
  exact ⟨hread, haccounts, hrun []⟩

end Framed

end NormalOrder
