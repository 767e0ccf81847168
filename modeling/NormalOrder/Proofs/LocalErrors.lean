import NormalOrder.Proofs.ViablePrefixes

namespace NormalOrder

namespace Parsing

/-- Where the tokens `read`, of which the last comes first, leave the next one: right after a lambda,
after the identifiers of its header, or outside any header. -/
def modeAfter : List Token → Mode
  | [] => .normal
  | token :: read =>
    match token.kind with
    | .lambda => .lambda
    | .identifier _ => if modeAfter read = .normal then .normal else .header
    | _ => .normal

/-- The spans of the opening brackets that no closing bracket has closed, innermost first, after the
tokens `read`, of which the last comes first. -/
def unmatched : List Token → List (Option Span)
  | [] => []
  | token :: read =>
    match token.kind with
    | .opening => token.span :: unmatched read
    | .closing => (unmatched read).tail
    | _ => unmatched read

/-- What is wrong with a closing bracket with the given span outside any header, after the tokens
`read`, of which the last comes first. -/
def closingError? (span : Option Span) (read : List Token) : Option ParseError :=
  match read with
  | ⟨.dot, _⟩ :: bound :: _ => some ⟨.missingBody, span.or bound.span⟩
  | ⟨.opening, opening⟩ :: _ => some ⟨.emptyParentheses, opening⟩
  | _ => if unmatched read = [] then some ⟨.unexpectedClosingBracket, span⟩ else none

/-- What is wrong with `token` after the tokens `read`, of which the last comes first. -/
def tokenError? (read : List Token) (token : Token) : Option ParseError :=
  match modeAfter read, token.kind with
  | .lambda, .identifier _ => none
  | .lambda, _ => some ⟨.expectedIdentifierAfterLambda, token.span⟩
  | .header, .identifier _ | .header, .dot => none
  | .header, _ => some ⟨.expectedDotOrIdentifier, token.span⟩
  | .normal, .dot => some ⟨.dotWithoutLambda, token.span⟩
  | .normal, .closing => closingError? token.span read
  | .normal, _ => none

/-- What is wrong with the end of the input after the tokens `read`, of which the last comes first. -/
def endError? (read : List Token) : Option ParseError :=
  match modeAfter read, read with
  | .lambda, _ => some ⟨.expectedIdentifierAfterLambda, none⟩
  | .header, last :: _ => some ⟨.expectedDotOrIdentifier, last.span⟩
  | .normal, ⟨.dot, _⟩ :: bound :: _ => some ⟨.missingBody, bound.span⟩
  | _, _ =>
    match unmatched read with
    | opening :: _ => some ⟨.missingClosingBracket, opening⟩
    | [] => if read = [] then some ⟨.emptyExpression, none⟩ else none

/-- With none of the tokens is anything wrong where it stands. -/
def Faultless (tokens : List Token) : Prop :=
  ∀ before token after, tokens = before ++ token :: after → tokenError? before.reverse token = none

theorem faultless_nil : Faultless [] := by
  intro before token after h
  simp at h

theorem faultless_concat (tokens : List Token) (token : Token) :
    Faultless (tokens ++ [token]) ↔ Faultless tokens ∧ tokenError? tokens.reverse token = none := by
  constructor
  · intro h
    refine ⟨?_, h tokens token [] rfl⟩
    intro before other after hsplit
    exact h before other (after ++ [token]) (by simp [hsplit])
  · intro h before other after hsplit
    obtain ⟨hbefore, hlast⟩ := h
    cases after using List.reverseRecOn with
    | nil =>
      obtain ⟨rfl, rfl⟩ : tokens = before ∧ token = other := by simpa using hsplit
      exact hlast
    | append_singleton after last =>
      rw [← List.cons_append, ← List.append_assoc] at hsplit
      obtain ⟨rfl, -⟩ := List.append_inj' hsplit rfl
      exact hbefore before other after rfl

end Parsing

namespace Stack

/-- The spans of the open brackets, innermost first. -/
def openings (scopes : List Scope) : List (Option Span) :=
  scopes.filterMap fun
    | .bracket span _ => some span
    | .binder _ _ _ => none

@[simp] theorem openings_bracket (span : Option Span) (ts : List Term) (scopes : List Scope) :
    openings (.bracket span ts :: scopes) = span :: openings scopes := rfl

@[simp] theorem openings_binder (x : String) (span : Option Span) (ts : List Term)
    (scopes : List Scope) : openings (.binder x span ts :: scopes) = openings scopes := rfl

@[simp] theorem openings_append (new : List Term) (s : Stack) :
    openings (s.append new).scopes = openings s.scopes := by
  obtain ⟨base, scopes⟩ := s
  match scopes with
  | [] => rfl
  | .bracket _ _ :: _ => rfl
  | .binder _ _ _ :: _ => rfl

/-- The terms read so far in the innermost scope. -/
def innermost (s : Stack) : List Term :=
  match s.scopes with
  | [] => s.base
  | scope :: _ => scope.terms

theorem innermost_append (new : List Term) (s : Stack) :
    (s.append new).innermost = s.innermost ++ new := by
  obtain ⟨base, scopes⟩ := s
  match scopes with
  | [] => rfl
  | .bracket _ _ :: _ => rfl
  | .binder _ _ _ :: _ => rfl

/-- A term that was just read, or closed, fills the scope around it. -/
theorem innermost_append_ne_nil {new : List Term} (hnew : new ≠ []) (s : Stack) :
    (s.append new).innermost ≠ [] := by
  rw [innermost_append]
  exact List.append_ne_nil_of_right_ne_nil _ hnew

/-- Where the innermost scope has terms, a closing bracket fails only for want of an opening one. -/
theorem closeBracket_filled (closing : Option Span) (base : List Term) (scopes : List Scope)
    (done : List Term) (h : innermost ⟨base, scopes⟩ ++ done ≠ []) :
    (openings scopes = [] ∧
        ∃ s, closeBracket closing base done scopes = .error (⟨.unexpectedClosingBracket, closing⟩, s)) ∨
      ∃ s, closeBracket closing base done scopes = .ok s ∧ openings scopes ≠ [] ∧
        openings s.scopes = (openings scopes).tail ∧ s.innermost ≠ [] := by
  induction scopes generalizing done with
  | nil => exact .inl ⟨rfl, _, rfl⟩
  | cons scope scopes ih =>
    cases scope with
    | bracket span ts =>
      obtain ⟨t, ht⟩ := Term.exists_collapse (ts ++ done) h
      refine .inr ⟨append [t] ⟨base, scopes⟩, by simp [closeBracket, ht], by simp, by simp, ?_⟩
      exact innermost_append_ne_nil (by simp) _
    | binder x span ts =>
      -- the abstraction that is closed fills the scope below it, so that one closes too
      obtain ⟨body, hbody⟩ := Term.exists_collapse (ts ++ done) h
      have hbelow := ih [.lam x body] (by simp)
      simpa [closeBracket, hbody] using hbelow

/-- Where the innermost scope has terms, the end of the input fails only for want of a closing
bracket. -/
theorem closeAll_filled (base : List Term) (scopes : List Scope) (done : List Term)
    (h : innermost ⟨base, scopes⟩ ++ done ≠ []) :
    (openings scopes = [] ∧ ∃ t, (closeAll base done scopes).1 = .ok t) ∨
      ∃ opening rest, openings scopes = opening :: rest ∧
        (closeAll base done scopes).1 = .error ⟨.missingClosingBracket, opening⟩ := by
  induction scopes generalizing done with
  | nil =>
    obtain ⟨t, ht⟩ := Term.exists_collapse (base ++ done) h
    exact .inl ⟨rfl, t, by simp [closeAll, ht]⟩
  | cons scope scopes ih =>
    cases scope with
    | bracket span ts => exact .inr ⟨span, openings scopes, rfl, rfl⟩
    | binder x span ts =>
      obtain ⟨body, hbody⟩ := Term.exists_collapse (ts ++ done) h
      have hbelow := ih [.lam x body] (by simp)
      simpa [closeAll, hbody] using hbelow

/-- What the tokens `read`, of which the last comes first, tell of the innermost scope. -/
def Shows (s : Stack) : List Token → Prop
  | [] => s = .empty
  | ⟨.opening, span⟩ :: _ => ∃ scopes, s.scopes = .bracket span [] :: scopes
  | ⟨.closing, _⟩ :: _ => s.innermost ≠ []
  | ⟨.lambda, _⟩ :: _ => True
  | ⟨.identifier x, span⟩ :: read =>
    if Parsing.modeAfter read = .normal then s.innermost ≠ []
    else ∃ scopes, s.scopes = .binder x span [] :: scopes
  | [⟨.dot, _⟩] => False
  | ⟨.dot, _⟩ :: bound :: _ => ∃ x scopes, s.scopes = .binder x bound.span [] :: scopes

end Stack

namespace Parsing

open Stack (openings)

/-- The state `p` is what the tokens `read`, of which the last comes first, lead to. -/
structure Reflects (p : Parsing) (read : List Token) : Prop where
  mode : p.mode = modeAfter read
  brackets : openings p.stack.scopes = unmatched read
  shows : p.stack.Shows read

theorem reflects_start : start.Reflects [] := ⟨rfl, rfl, rfl⟩

/-- After an identifier of a header the innermost scope is its binder. -/
theorem Reflects.header {p : Parsing} {read : List Token} (h : p.Reflects read)
    (hmode : p.mode = .header) :
    ∃ bound before x scopes, read = bound :: before ∧
      p.stack.scopes = .binder x bound.span [] :: scopes := by
  obtain ⟨hread, -, hshows⟩ := h
  rw [hmode] at hread
  match read with
  | [] => cases hread
  | ⟨.identifier x, span⟩ :: before =>
    have hopen : modeAfter before ≠ .normal := by
      intro hnormal
      simp [modeAfter, hnormal] at hread
    rw [Stack.Shows, if_neg hopen] at hshows
    obtain ⟨scopes, hscopes⟩ := hshows
    exact ⟨_, before, x, scopes, rfl, hscopes⟩
  | ⟨.opening, _⟩ :: _ | ⟨.closing, _⟩ :: _ | ⟨.lambda, _⟩ :: _ | ⟨.dot, _⟩ :: _ => cases hread

/-- Outside a header only the last token can leave the innermost scope empty. -/
theorem Reflects.filled {p : Parsing} {token : Token} {read : List Token}
    (h : p.Reflects (token :: read)) (hmode : p.mode = .normal) (hopening : token.kind ≠ .opening)
    (hdot : token.kind ≠ .dot) : p.stack.innermost ≠ [] := by
  obtain ⟨hread, -, hshows⟩ := h
  rw [hmode] at hread
  match token with
  | ⟨.opening, _⟩ => exact absurd rfl hopening
  | ⟨.dot, _⟩ => exact absurd rfl hdot
  | ⟨.lambda, _⟩ => cases hread
  | ⟨.closing, _⟩ => exact hshows
  | ⟨.identifier x, _⟩ =>
    have houtside : modeAfter read = .normal := by
      by_contra hopen
      simp [modeAfter, hopen] at hread
    rwa [Stack.Shows, if_pos houtside] at hshows

/-- What is wrong with a closing bracket is what closing the innermost bracket fails for. -/
theorem Reflects.closeBracket {p : Parsing} {read : List Token} (h : p.Reflects read)
    (hmode : p.mode = .normal) (span : Option Span) :
    (∃ e s, Stack.closeBracket span p.stack.base [] p.stack.scopes = .error (e, s) ∧
        closingError? span read = some e) ∨
      ∃ s, Stack.closeBracket span p.stack.base [] p.stack.scopes = .ok s ∧
        closingError? span read = none ∧ Stack.openings s.scopes = (unmatched read).tail ∧
        s.innermost ≠ [] := by
  have hcases : (∃ e s, Stack.closeBracket span p.stack.base [] p.stack.scopes = .error (e, s) ∧
        closingError? span read = some e) ∨
      p.stack.innermost ≠ [] ∧ closingError? span read =
        if unmatched read = [] then some ⟨.unexpectedClosingBracket, span⟩ else none := by
    match read with
    | [] =>
      have hempty : p.stack = .empty := h.shows
      exact .inl ⟨_, _, by rw [hempty]; rfl, rfl⟩
    | ⟨.opening, opening⟩ :: read =>
      obtain ⟨scopes, hscopes⟩ := h.shows
      exact .inl ⟨_, _, by rw [hscopes]; rfl, rfl⟩
    | ⟨.dot, _⟩ :: bound :: read =>
      obtain ⟨x, scopes, hscopes⟩ := h.shows
      exact .inl ⟨_, _, by rw [hscopes]; rfl, rfl⟩
    | [⟨.dot, _⟩] => exact h.shows.elim
    | ⟨.closing, _⟩ :: read | ⟨.identifier x, _⟩ :: read | ⟨.lambda, _⟩ :: read =>
      exact .inr ⟨h.filled hmode (by simp) (by simp), rfl⟩
  obtain hfails | ⟨hfull, herror⟩ := hcases
  · exact .inl hfails
  · have hclose := Stack.closeBracket_filled span p.stack.base p.stack.scopes [] (by simpa using hfull)
    rw [h.brackets] at hclose
    obtain ⟨hnone, s, hs⟩ | ⟨s, hs, hsome, htail, hinnermost⟩ := hclose
    · exact .inl ⟨_, s, hs, by rw [herror, if_pos hnone]⟩
    · exact .inr ⟨s, hs, by rw [herror, if_neg hsome], htail, hinnermost⟩

/-- A token is read exactly if nothing is wrong with it where it stands, and fails for what is. -/
theorem Reflects.step {p : Parsing} {read : List Token} (h : p.Reflects read) (token : Token) :
    (∃ e q, p.step token = .error (e, q) ∧ tokenError? read token = some e) ∨
      ∃ q, p.step token = .ok q ∧ tokenError? read token = none ∧ q.Reflects (token :: read) := by
  obtain ⟨mode, stack⟩ := p
  obtain ⟨kind, span⟩ := token
  obtain ⟨hmode, hbrackets, hshows⟩ := id h
  cases mode with
  | normal =>
    have hnormal : modeAfter read = .normal := hmode.symm
    cases kind with
    | opening =>
      refine .inr ⟨_, rfl, by simp [tokenError?, hnormal], rfl, ?_, _, rfl⟩
      exact congrArg (span :: ·) hbrackets
    | closing =>
      obtain ⟨e, s, hclose, herror⟩ | ⟨s, hclose, herror, htail, hinnermost⟩ :=
        h.closeBracket rfl span
      · exact .inl ⟨e, ⟨.normal, s⟩, by simp [Parsing.step, hclose], by simpa [tokenError?, hnormal]⟩
      · refine .inr ⟨⟨.normal, s⟩, by simp [Parsing.step, hclose], ?_, rfl, htail, hinnermost⟩
        simpa [tokenError?, hnormal] using herror
    | identifier x =>
      refine .inr ⟨_, rfl, by simp [tokenError?, hnormal], by simp [modeAfter, hnormal], ?_, ?_⟩
      · simpa [unmatched] using hbrackets
      · rw [Stack.Shows, if_pos hnormal]
        exact Stack.innermost_append_ne_nil (by simp) stack
    | lambda => exact .inr ⟨_, rfl, by simp [tokenError?, hnormal], rfl, hbrackets, trivial⟩
    | dot => exact .inl ⟨_, _, rfl, by simp [tokenError?, hnormal]⟩
  | lambda =>
    have hlambda : modeAfter read = .lambda := hmode.symm
    cases kind with
    | identifier x =>
      refine .inr ⟨_, rfl, by simp [tokenError?, hlambda], by simp [modeAfter, hlambda], hbrackets, ?_⟩
      rw [Stack.Shows, if_neg (by simp [hlambda])]
      exact ⟨_, rfl⟩
    | _ => exact .inl ⟨_, _, rfl, by simp [tokenError?, hlambda]⟩
  | header =>
    have hheader : modeAfter read = .header := hmode.symm
    cases kind with
    | identifier x =>
      refine .inr ⟨_, rfl, by simp [tokenError?, hheader], by simp [modeAfter, hheader], hbrackets, ?_⟩
      rw [Stack.Shows, if_neg (by simp [hheader])]
      exact ⟨_, rfl⟩
    | dot =>
      obtain ⟨bound, before, x, scopes, rfl, hscopes⟩ := h.header rfl
      exact .inr ⟨_, rfl, by simp [tokenError?, hheader], rfl, hbrackets, x, scopes, hscopes⟩
    | _ => exact .inl ⟨_, _, rfl, by simp [tokenError?, hheader]⟩

/-- The input may end exactly if nothing is wrong with that, and else its end fails for what is. -/
theorem Reflects.finish {p : Parsing} {read : List Token} (h : p.Reflects read) :
    (∃ e, p.finish.1 = .error e ∧ endError? read = some e) ∨
      ∃ t, p.finish.1 = .ok t ∧ endError? read = none := by
  obtain ⟨mode, stack⟩ := p
  obtain ⟨hmode, hbrackets, hshows⟩ := id h
  cases mode with
  | lambda =>
    have hlambda : modeAfter read = .lambda := hmode.symm
    exact .inl ⟨_, rfl, by simp [endError?, hlambda]⟩
  | header =>
    have hheader : modeAfter read = .header := hmode.symm
    obtain ⟨bound, before, x, scopes, rfl, hscopes⟩ := h.header rfl
    have hspan : stack.topSpan = bound.span := by
      rw [Stack.topSpan, show stack.scopes = _ from hscopes]
      rfl
    exact .inl ⟨_, rfl, by simp [endError?, hheader, hspan]⟩
  | normal =>
    have hnormal : modeAfter read = .normal := hmode.symm
    have hcases : (∃ e, (Parsing.finish ⟨.normal, stack⟩).1 = .error e ∧ endError? read = some e) ∨
        stack.innermost ≠ [] ∧ endError? read = (unmatched read).head?.map fun opening =>
          ⟨.missingClosingBracket, opening⟩ := by
      match read with
      | [] =>
        obtain rfl : stack = .empty := hshows
        exact .inl ⟨_, rfl, rfl⟩
      | ⟨.opening, opening⟩ :: read =>
        obtain ⟨scopes, hscopes⟩ := hshows
        exact .inl ⟨_, by rw [Parsing.finish, hscopes]; rfl, rfl⟩
      | ⟨.dot, _⟩ :: bound :: read =>
        obtain ⟨x, scopes, hscopes⟩ := hshows
        exact .inl ⟨_, by rw [Parsing.finish, hscopes]; rfl, rfl⟩
      | [⟨.dot, _⟩] => exact hshows.elim
      | ⟨.closing, _⟩ :: read | ⟨.identifier x, _⟩ :: read | ⟨.lambda, _⟩ :: read =>
        refine .inr ⟨h.filled rfl (by simp) (by simp), ?_⟩
        simp only [endError?, hnormal]
        split <;> simp_all
    obtain hfails | ⟨hfull, herror⟩ := hcases
    · exact .inl hfails
    · have hclose := Stack.closeAll_filled stack.base stack.scopes [] (by simpa using hfull)
      rw [show Stack.openings stack.scopes = _ from hbrackets] at hclose
      obtain ⟨hnone, t, ht⟩ | ⟨opening, rest, hsome, he⟩ := hclose
      · exact .inr ⟨t, ht, by rw [herror, hnone]; rfl⟩
      · exact .inl ⟨_, he, by rw [herror, hsome]; rfl⟩

/-- Tokens are read to the last exactly if nothing is wrong with any of them, and the state that is
reached reflects them. -/
theorem read_reflects (tokens : List Token) :
    (Faultless tokens ∧ ∃ p, start.read tokens = .ok p ∧ p.Reflects tokens.reverse) ∨
      ¬Faultless tokens ∧ ∃ f, start.read tokens = .error f := by
  induction tokens using List.reverseRecOn with
  | nil => exact .inl ⟨faultless_nil, start, rfl, reflects_start⟩
  | append_singleton tokens token ih =>
    rw [faultless_concat, read_concat, List.reverse_concat]
    obtain ⟨hfaultless, p, hp, hreflects⟩ | ⟨hfault, f, hf⟩ := ih
    · rw [hp]
      obtain ⟨e, q, hstep, herror⟩ | ⟨q, hstep, hnone, hq⟩ := hreflects.step token
      · exact .inr ⟨by simp [herror], _, hstep⟩
      · exact .inl ⟨⟨hfaultless, hnone⟩, q, hstep, hq⟩
    · exact .inr ⟨fun h => hfault h.1, f, by rw [hf]; rfl⟩

/-- A parse stops at the first token with which something is wrong, and with that error. -/
theorem stopsAt_iff_tokenError? (tokens : List Token) (k : Nat) (e : ParseError) :
    StopsAt (tokens.map .ok) k e ↔ Faultless (tokens.take k) ∧
      ∃ token, tokens[k]? = some token ∧ tokenError? (tokens.take k).reverse token = some e := by
  constructor
  · intro h
    obtain ⟨before, token, rest, p, q, hsplit, rfl, hread, hstep, -⟩ := h
    obtain ⟨before', after', rfl, hbefore, hafter⟩ := List.map_eq_append_iff.mp hsplit
    obtain rfl : before' = before :=
      List.map_injective_iff.mpr (fun _ _ => Except.ok.inj) hbefore
    obtain ⟨token', after, rfl, htoken, -⟩ := List.map_eq_cons_iff.mp hafter
    obtain rfl : token' = token := Except.ok.inj htoken
    rw [List.take_left]
    obtain ⟨hfaultless, p', hp', hreflects⟩ | ⟨-, f, hf⟩ := read_reflects before'
    · obtain rfl : p' = p := Except.ok.inj (hp'.symm.trans hread)
      obtain ⟨e', q', hstep', herror⟩ | ⟨q', hstep', -⟩ := hreflects.step token'
      · obtain ⟨rfl, -⟩ : e' = e ∧ q' = q := by simpa [hstep'] using hstep
        exact ⟨hfaultless, token', by simp, herror⟩
      · simp [hstep'] at hstep
    · simp [hf] at hread
  · intro h
    obtain ⟨hfaultless, token, htoken, herror⟩ := h
    obtain ⟨hk, rfl⟩ := List.getElem?_eq_some_iff.mp htoken
    obtain ⟨-, p, hread, hreflects⟩ | ⟨hfault, -⟩ := read_reflects (tokens.take k)
    · obtain ⟨e', q, hstep, herror'⟩ | ⟨q, -, hnone, -⟩ := hreflects.step tokens[k]
      · obtain rfl : e' = e := Option.some.inj (herror'.symm.trans herror)
        have hstops := stopsAt_of_step hread hstep ((tokens.drop (k + 1)).map .ok)
        rw [← List.map_cons, ← List.map_append, ← List.drop_eq_getElem_cons hk,
          List.take_append_drop, List.length_take_of_le (by omega)] at hstops
        exact hstops
      · simp [hnone] at herror
    · exact absurd hfaultless hfault

/-- A parse is stopped by the end of the input if nothing is wrong with any token but with that. -/
theorem stopsAtEnd_iff_endError? (tokens : List Token) (e : ParseError) :
    StopsAtEnd (tokens.map .ok) e ↔ Faultless tokens ∧ endError? tokens.reverse = some e := by
  constructor
  · intro h
    obtain ⟨tokens', p, q, htokens, hread, hfinish, -⟩ := h
    obtain rfl : tokens = tokens' := List.map_injective_iff.mpr (fun _ _ => Except.ok.inj) htokens
    obtain ⟨hfaultless, p', hp', hreflects⟩ | ⟨-, f, hf⟩ := read_reflects tokens
    · obtain rfl : p' = p := Except.ok.inj (hp'.symm.trans hread)
      obtain ⟨e', he', herror⟩ | ⟨t, ht, -⟩ := hreflects.finish
      · obtain rfl : e' = e := by simpa [hfinish] using he'.symm
        exact ⟨hfaultless, herror⟩
      · simp [hfinish] at ht
    · simp [hf] at hread
  · intro h
    obtain ⟨hfaultless, herror⟩ := h
    obtain ⟨-, p, hread, hreflects⟩ | ⟨hfault, -⟩ := read_reflects tokens
    · obtain ⟨e', hfinish, herror'⟩ | ⟨t, -, hnone⟩ := hreflects.finish
      · obtain rfl : e' = e := Option.some.inj (herror'.symm.trans herror)
        exact stopsAtEnd_of_finish hread hfinish
      · simp [hnone] at herror
    · exact absurd hfaultless hfault

end Parsing

/-- A parse of tokens that fails does so at the first token with which something is wrong where it
stands, or at the end if nothing is wrong before. The last tokens before that place and the brackets
that are open there decide what is wrong, and which token it is said of. -/
theorem structural_errors_local (tokens : List Token) :
    (∀ failure, parse (tokens.map .ok) = .error failure ↔ ∃ e, failure = .structural e ∧
      ((∃ k, Parsing.StopsAt (tokens.map .ok) k e) ∨ Parsing.StopsAtEnd (tokens.map .ok) e)) ∧
    (∀ k e, Parsing.StopsAt (tokens.map .ok) k e ↔ Parsing.Faultless (tokens.take k) ∧
      ∃ token, tokens[k]? = some token ∧
        Parsing.tokenError? (tokens.take k).reverse token = some e) ∧
    ∀ e, Parsing.StopsAtEnd (tokens.map .ok) e ↔
      Parsing.Faultless tokens ∧ Parsing.endError? tokens.reverse = some e := by
  refine ⟨?_, Parsing.stopsAt_iff_tokenError? tokens, Parsing.stopsAtEnd_iff_endError? tokens⟩
  intro failure
  constructor
  · intro h
    obtain ⟨e, rfl, -⟩ := Parsing.run_error h
    exact ⟨e, rfl, (Parsing.parse_eq_structural_iff _ e).mp h⟩
  · intro h
    obtain ⟨e, rfl, hstops⟩ := h
    exact (Parsing.parse_eq_structural_iff _ e).mpr hstops

end NormalOrder
