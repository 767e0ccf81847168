import NormalOrder.Proofs.Grammar
import NormalOrder.Proofs.Templates
import Mathlib.Data.List.Induction

namespace NormalOrder

open Token (Kind)
open Grammar

namespace Grammar

/-- The kinds begin a list that the grammar derives. -/
def Viable (ks : List Kind) : Prop := ∃ ls t, Expression (ks ++ ls) t

end Grammar

theorem Term.exists_collapse (ts : List Term) (h : ts ≠ []) : ∃ t, collapse ts = .ok t := by
  cases ts with
  | nil => exact absurd rfl h
  | cons t ts => exact ⟨_, rfl⟩

theorem Stack.exists_closes (base : List Term) (scopes : List Scope) (done : List Term)
    (hdone : done ≠ []) : ∃ ks t, Closes base scopes done ks t := by
  induction scopes generalizing done with
  | nil =>
    obtain ⟨t, ht⟩ := Term.exists_collapse (base ++ done) (by simp [hdone])
    exact ⟨[], t, rfl, ht⟩
  | cons scope scopes ih =>
    cases scope with
    | binder x span ts =>
      obtain ⟨body, hbody⟩ := Term.exists_collapse (ts ++ done) (by simp [hdone])
      obtain ⟨ks, t, hclose⟩ := ih [.lam x body] (by simp)
      exact ⟨ks, t, body, hbody, hclose⟩
    | bracket span ts =>
      obtain ⟨u, hu⟩ := Term.exists_collapse (ts ++ done) (by simp [hdone])
      obtain ⟨ks, t, hclose⟩ := ih [u] (by simp)
      exact ⟨.closing :: ks, t, u, [], ks, [], rfl, hu, items_nil, hclose⟩

namespace Parsing

/-- Any state can be completed: an identifier fills the innermost scope, and every scope around it
then closes. -/
theorem exists_completes (p : Parsing) : ∃ ks t, p.Completes ks t := by
  obtain ⟨mode, stack⟩ := p
  have hitems : Items [.identifier "x"] [.var "x"] := items_cons (.identifier "x") items_nil
  have hbody : Expression [.identifier "x"] (.var "x") := (expression_iff _ _).mpr ⟨_, hitems, rfl⟩
  cases mode with
  | normal =>
    obtain ⟨ks, t, hclose⟩ := Stack.exists_closes stack.base stack.scopes [.var "x"] (by simp)
    exact ⟨.identifier "x" :: ks, t, [.identifier "x"], ks, [.var "x"], rfl, hitems, hclose⟩
  | lambda =>
    obtain ⟨ks, t, hclose⟩ :=
      Stack.exists_closes stack.base stack.scopes [.lam "x" (.var "x")] (by simp)
    refine ⟨.identifier "x" :: .dot :: .identifier "x" :: ks, t, ?_⟩
    apply (Stack.completes_lambda_iff stack _ t).mpr
    exact ⟨"x", [], [.identifier "x"], ks, .var "x", rfl, hbody, hclose⟩
  | header =>
    obtain ⟨ks, t, hclose⟩ := Stack.exists_closes stack.base stack.scopes [.var "x"] (by simp)
    exact ⟨.dot :: .identifier "x" :: ks, t, [], [.identifier "x"], ks, .var "x", rfl, hbody, hclose⟩

/-- Reads tokens one after the other, up to the first error. -/
def read (p : Parsing) (tokens : List Token) : Except (ParseError × Parsing) Parsing :=
  tokens.foldlM step p

theorem read_cons (p : Parsing) (token : Token) (tokens : List Token) :
    p.read (token :: tokens) = p.step token >>= fun q => q.read tokens := rfl

theorem read_concat (p : Parsing) (tokens : List Token) (token : Token) :
    p.read (tokens ++ [token]) = p.read tokens >>= fun q => q.step token := by
  simp [read]

theorem run_read_ok {p q : Parsing} {tokens : List Token} (h : p.read tokens = .ok q)
    (rest : List Lexeme) : p.run (tokens.map .ok ++ rest) = q.run rest := by
  induction tokens generalizing p with
  | nil =>
    obtain rfl : p = q := Except.ok.inj h
    rfl
  | cons token tokens ih =>
    rw [read_cons] at h
    cases hs : p.step token with
    | error e => simp [hs, bind, Except.bind] at h
    | ok q' =>
      rw [hs] at h
      have hrest := ih h
      simp only [List.map_cons, List.cons_append, run, hs, hrest]

theorem run_read_error {p q : Parsing} {tokens : List Token} {e : ParseError}
    (h : p.read tokens = .error (e, q)) (rest : List Lexeme) :
    p.run (tokens.map .ok ++ rest) = (.error (.structural e), q) := by
  induction tokens generalizing p with
  | nil => cases h
  | cons token tokens ih =>
    rw [read_cons] at h
    cases hs : p.step token with
    | error f =>
      obtain rfl : f = (e, q) := by simpa [hs, bind, Except.bind] using h
      simp only [List.map_cons, List.cons_append, run, hs]
    | ok q' =>
      rw [hs] at h
      have hrest := ih h
      simp only [List.map_cons, List.cons_append, run, hs, hrest]

theorem completes_read_iff (p : Parsing) (hp : p.HeaderOpen) (tokens : List Token) (ks : List Kind)
    (t : Term) :
    p.Completes (tokens.map Token.kind ++ ks) t ↔
      ∃ q, p.read tokens = .ok q ∧ q.Completes ks t := by
  induction tokens generalizing p with
  | nil =>
    have hread : p.read [] = .ok p := rfl
    simp [hread]
  | cons token tokens ih =>
    rw [List.map_cons, List.cons_append, completes_step_iff p hp, read_cons]
    cases hs : p.step token with
    | error e => simp [bind, Except.bind]
    | ok q => simpa [bind, Except.bind] using ih q (headerOpen_step hs)

/-- Tokens are read without an error exactly when they begin some term. -/
theorem viable_iff_read (tokens : List Token) :
    Viable (tokens.map Token.kind) ↔ ∃ q, start.read tokens = .ok q := by
  constructor
  · intro h
    obtain ⟨ls, t, ht⟩ := h
    rw [← completes_start_iff, completes_read_iff _ headerOpen_start] at ht
    obtain ⟨q, hq, -⟩ := ht
    exact ⟨q, hq⟩
  · intro h
    obtain ⟨q, hq⟩ := h
    obtain ⟨ls, t, hcomplete⟩ := q.exists_completes
    refine ⟨ls, t, ?_⟩
    rw [← completes_start_iff, completes_read_iff _ headerOpen_start]
    exact ⟨q, hq, hcomplete⟩

theorem not_viable_of_read_error {tokens : List Token} {e : ParseError × Parsing}
    (h : start.read tokens = .error e) : ¬Viable (tokens.map Token.kind) := by
  rw [viable_iff_read, h]
  simp

/-- The parse is stopped by its item at `k`: all before it was read, and the error it gives is what
the whole parse ends with. -/
def StopsAt (lexemes : List Lexeme) (k : Nat) (e : ParseError) : Prop :=
  ∃ (tokens : List Token) (token : Token) (rest : List Lexeme) (p q : Parsing),
    lexemes = tokens.map .ok ++ .ok token :: rest ∧ tokens.length = k ∧
    start.read tokens = .ok p ∧ p.step token = .error (e, q) ∧
    start.run lexemes = (.error (.structural e), q)

/-- The parse reads everything and is stopped by the end of the input. -/
def StopsAtEnd (lexemes : List Lexeme) (e : ParseError) : Prop :=
  ∃ (tokens : List Token) (p q : Parsing),
    lexemes = tokens.map .ok ∧ start.read tokens = .ok p ∧ p.finish = (.error e, q) ∧
    start.run lexemes = (.error (.structural e), q)

theorem stopsAt_of_step {tokens : List Token} {token : Token} {p q : Parsing} {e : ParseError}
    (hread : start.read tokens = .ok p) (hstep : p.step token = .error (e, q))
    (rest : List Lexeme) : StopsAt (tokens.map .ok ++ .ok token :: rest) tokens.length e := by
  refine ⟨tokens, token, rest, p, q, rfl, rfl, hread, hstep, ?_⟩
  rw [run_read_ok hread]
  simp only [run, hstep]

theorem stopsAtEnd_of_finish {tokens : List Token} {p : Parsing} {e : ParseError}
    (hread : start.read tokens = .ok p) (hfinish : p.finish.1 = .error e) :
    StopsAtEnd (tokens.map .ok) e := by
  have hpair : p.finish = (.error e, p.finish.2) := by rw [← hfinish]
  refine ⟨tokens, p, p.finish.2, rfl, hread, hpair, ?_⟩
  have hrun := run_read_ok hread []
  rw [List.append_nil] at hrun
  rw [hrun, run, hpair]
  rfl

/-- A list of tokens that stops the parse has a first token that does. -/
theorem stopsAt_of_read {tokens : List Token} {e : ParseError} {q : Parsing}
    (hread : start.read tokens = .error (e, q)) (rest : List Lexeme) :
    ∃ k, StopsAt (tokens.map .ok ++ rest) k e := by
  induction tokens using List.reverseRecOn generalizing rest with
  | nil => cases hread
  | append_singleton tokens token ih =>
    rw [read_concat] at hread
    rw [List.map_append, List.append_assoc]
    cases hp : start.read tokens with
    | error f =>
      obtain rfl : f = (e, q) := by simpa [hp, bind, Except.bind] using hread
      exact ih hp _
    | ok p =>
      rw [hp] at hread
      exact ⟨_, stopsAt_of_step hp hread rest⟩

end Parsing

/-- The kinds of the tokens among `lexemes`. -/
def tokenKinds (lexemes : List Lexeme) : List Kind :=
  lexemes.filterMap fun
    | .ok token => some token.kind
    | .error _ => none

@[simp] theorem tokenKinds_map_ok (tokens : List Token) :
    tokenKinds (tokens.map .ok) = tokens.map Token.kind := by
  simp [tokenKinds, List.filterMap_map]

/-- Lexemes are tokens up to the end or up to the first lexing error. -/
theorem leading_tokens (lexemes : List Lexeme) :
    ∃ tokens : List Token, lexemes = tokens.map .ok ∨
      ∃ e rest, lexemes = tokens.map .ok ++ .error e :: rest := by
  induction lexemes with
  | nil => exact ⟨[], .inl rfl⟩
  | cons lexeme lexemes ih =>
    cases lexeme with
    | error e => exact ⟨[], .inr ⟨e, lexemes, rfl⟩⟩
    | ok token =>
      obtain ⟨tokens, rfl | ⟨e, rest, rfl⟩⟩ := ih
      · exact ⟨token :: tokens, .inl rfl⟩
      · exact ⟨token :: tokens, .inr ⟨e, rest, rfl⟩⟩

theorem exists_tokens {lexemes : List Lexeme} (h : ∀ e, .error e ∉ lexemes) :
    ∃ tokens : List Token, lexemes = tokens.map .ok := by
  obtain ⟨tokens, htokens | ⟨e, rest, hrest⟩⟩ := leading_tokens lexemes
  · exact ⟨tokens, htokens⟩
  · exact absurd (by simp [hrest]) (h e)

theorem error_notMem_map_ok (tokens : List Token) (e : LexError) :
    .error e ∉ tokens.map (.ok : Token → Lexeme) := by
  simp

namespace Parsing

/-- A token stops the parse exactly when it is the first after which no term can follow. -/
theorem stopsAt_iff (lexemes : List Lexeme) (k : Nat) :
    (∃ e, StopsAt lexemes k e) ↔
      (∀ e, .error e ∉ lexemes.take k) ∧ Viable (tokenKinds (lexemes.take k)) ∧
        ¬Viable (tokenKinds (lexemes.take (k + 1))) := by
  constructor
  · intro h
    obtain ⟨e, tokens, token, rest, p, q, rfl, rfl, hread, hstep, -⟩ := h
    have hbefore : (tokens.map Except.ok ++ Except.ok token :: rest).take tokens.length =
        tokens.map .ok := by simp
    have hthrough : (tokens.map Except.ok ++ Except.ok token :: rest).take (tokens.length + 1) =
        (tokens ++ [token]).map .ok := by
      simp [List.take_append, List.take_of_length_le (l := tokens.map Except.ok)]
    have hstopped : start.read (tokens ++ [token]) = .error (e, q) := by
      rw [read_concat, hread]
      exact hstep
    rw [hbefore, hthrough, tokenKinds_map_ok, tokenKinds_map_ok]
    refine ⟨error_notMem_map_ok tokens, ?_, not_viable_of_read_error hstopped⟩
    exact (viable_iff_read tokens).mpr ⟨p, hread⟩
  · intro h
    obtain ⟨hclean, hbefore, hthrough⟩ := h
    obtain ⟨tokens, htokens⟩ := exists_tokens hclean
    have hk : k < lexemes.length := by
      by_contra hk
      rw [List.take_of_length_le (by omega)] at hbefore hthrough
      exact hthrough hbefore
    have hlength : tokens.length = k := by
      have := congrArg List.length htokens
      simp only [List.length_take, List.length_map] at this
      omega
    have hsplit : lexemes = tokens.map .ok ++ lexemes[k] :: lexemes.drop (k + 1) := by
      rw [← htokens, ← List.drop_eq_getElem_cons hk, List.take_append_drop]
    have htake : lexemes.take (k + 1) = tokens.map .ok ++ [lexemes[k]] := by
      rw [← htokens, List.take_succ_eq_append_getElem hk]
    rw [htokens, tokenKinds_map_ok] at hbefore
    obtain ⟨p, hread⟩ := (viable_iff_read tokens).mp hbefore
    cases hitem : lexemes[k] with
    | error e =>
      -- a lexing error adds no token, so the longer prefix is as viable as the shorter one
      rw [htake, hitem] at hthrough
      exact absurd hbefore (by simpa [tokenKinds, List.filterMap_map] using hthrough)
    | ok token =>
      cases hstep : p.step token with
      | error f =>
        rw [hsplit, hitem, ← hlength]
        exact ⟨f.1, stopsAt_of_step hread hstep _⟩
      | ok q =>
        have hviable : Viable ((tokens ++ [token]).map Token.kind) := by
          apply (viable_iff_read _).mpr
          exact ⟨q, by rw [read_concat, hread]; exact hstep⟩
        rw [htake, hitem] at hthrough
        exact absurd hviable (by simpa [tokenKinds, List.filterMap_map] using hthrough)

theorem lexErrors_map_ok_append (tokens : List Token) (rest : List Lexeme) :
    lexErrors (tokens.map .ok ++ rest) = lexErrors rest := by
  simp [lexErrors, List.filterMap_map]

theorem takeWhile_map_ok_append (tokens : List Token) (e : LexError) (rest : List Lexeme) :
    (tokens.map Except.ok ++ Except.error e :: rest).takeWhile Except.isOk = tokens.map .ok := by
  induction tokens with
  | nil => rfl
  | cons token tokens ih =>
    rw [List.map_cons, List.cons_append, List.takeWhile_cons, ih]
    rfl

/-- What a parse of tokens alone ends with is no list of lexing errors. -/
theorem parse_tokens_ne_lexical (tokens : List Token) (errors : List LexError) :
    parse (tokens.map .ok) ≠ .error (.lexical errors) := by
  intro h
  obtain ⟨e, he, -⟩ := run_error h
  cases he

theorem parse_eq_lexical_iff (lexemes : List Lexeme) (errors : List LexError) :
    parse lexemes = .error (.lexical errors) ↔
      (∃ e, .error e ∈ lexemes) ∧ Viable (tokenKinds (lexemes.takeWhile Except.isOk)) ∧
        errors = lexErrors lexemes := by
  obtain ⟨tokens, rfl | ⟨e, rest, rfl⟩⟩ := leading_tokens lexemes
  · simp [parse_tokens_ne_lexical]
  · rw [takeWhile_map_ok_append, tokenKinds_map_ok, viable_iff_read, parse]
    cases hread : start.read tokens with
    | error f => simp [run_read_error hread]
    | ok q =>
      rw [run_read_ok hread, lexErrors_map_ok_append]
      simp [run, lexErrors, eq_comm]

theorem stopsAtEnd_iff (lexemes : List Lexeme) :
    (∃ e, StopsAtEnd lexemes e) ↔
      (∀ e, .error e ∉ lexemes) ∧ Viable (tokenKinds lexemes) ∧
        ∀ t, ¬Expression (tokenKinds lexemes) t := by
  constructor
  · intro h
    obtain ⟨e, tokens, p, q, rfl, hread, -, hrun⟩ := h
    rw [tokenKinds_map_ok]
    refine ⟨error_notMem_map_ok tokens, (viable_iff_read tokens).mpr ⟨p, hread⟩, ?_⟩
    intro t ht
    have hparse := (parse_eq_ok_iff tokens t).mpr ht
    rw [parse, hrun] at hparse
    cases hparse
  · intro h
    obtain ⟨hclean, hviable, hnone⟩ := h
    obtain ⟨tokens, rfl⟩ := exists_tokens hclean
    rw [tokenKinds_map_ok] at hviable hnone
    obtain ⟨p, hread⟩ := (viable_iff_read tokens).mp hviable
    cases hfinish : p.finish.1 with
    | error e => exact ⟨e, stopsAtEnd_of_finish hread hfinish⟩
    | ok t =>
      have hcomplete := (completes_finish_iff p t).mpr hfinish
      have hstart := (completes_read_iff start headerOpen_start tokens [] t).mpr ⟨p, hread, hcomplete⟩
      rw [List.append_nil, completes_start_iff] at hstart
      exact absurd hstart (hnone t)

/-- Every structural error of a parse comes from a token or from the end of the input. -/
theorem parse_eq_structural_iff (lexemes : List Lexeme) (e : ParseError) :
    parse lexemes = .error (.structural e) ↔
      (∃ k, StopsAt lexemes k e) ∨ StopsAtEnd lexemes e := by
  constructor
  · intro h
    obtain ⟨tokens, rest, rfl, hrest⟩ : ∃ (tokens : List Token) (rest : List Lexeme),
        lexemes = tokens.map .ok ++ rest ∧ (rest = [] ∨ ∃ f ls, rest = .error f :: ls) := by
      obtain ⟨tokens, hall | ⟨f, ls, hls⟩⟩ := leading_tokens lexemes
      · exact ⟨tokens, [], by simpa using hall, .inl rfl⟩
      · exact ⟨tokens, _, hls, .inr ⟨f, ls, rfl⟩⟩
    cases hread : start.read tokens with
    | error f =>
      rw [parse, run_read_error hread rest] at h
      obtain rfl : f.1 = e := by simpa using h
      exact .inl (stopsAt_of_read hread rest)
    | ok p =>
      rw [parse, run_read_ok hread] at h
      obtain rfl | ⟨f, ls, rfl⟩ := hrest
      · cases hfinish : p.finish.1 with
        | ok t => simp [run_nil_ok hfinish] at h
        | error f =>
          obtain rfl : f = e := by simpa [run_nil_error hfinish] using h
          rw [List.append_nil]
          exact .inr (stopsAtEnd_of_finish hread hfinish)
      · simp [run] at h
  · intro h
    obtain ⟨k, tokens, token, rest, p, q, -, -, -, -, hrun⟩ | ⟨tokens, p, q, -, -, -, hrun⟩ := h
    · rw [parse, hrun]
    · rw [parse, hrun]

end Parsing

/-- A parse is stopped by the first token after which no term can follow. If a lexing error comes
before any such token, all the lexing errors of the input are reported; if neither is met, the end of
the input is the error unless the tokens spell a term. -/
theorem parse_stops_earliest (lexemes : List Lexeme) :
    (∀ k, (∃ e, Parsing.StopsAt lexemes k e) ↔
      (∀ e, .error e ∉ lexemes.take k) ∧ Viable (tokenKinds (lexemes.take k)) ∧
        ¬Viable (tokenKinds (lexemes.take (k + 1)))) ∧
    (∀ errors, parse lexemes = .error (.lexical errors) ↔
      (∃ e, .error e ∈ lexemes) ∧ Viable (tokenKinds (lexemes.takeWhile Except.isOk)) ∧
        errors = Parsing.lexErrors lexemes) ∧
    (∃ causes,
      Fault.ofParseFailure (.lexical (Parsing.lexErrors lexemes)) = .failure (.lexical causes) ∧
        List.Forall₂ (fun e d => e.diagnostic = .ok d) (Parsing.lexErrors lexemes) causes) ∧
    ((∃ e, Parsing.StopsAtEnd lexemes e) ↔
      (∀ e, .error e ∉ lexemes) ∧ Viable (tokenKinds lexemes) ∧
        ∀ t, ¬Expression (tokenKinds lexemes) t) ∧
    (∀ e, parse lexemes = .error (.structural e) ↔
      (∃ k, Parsing.StopsAt lexemes k e) ∨ Parsing.StopsAtEnd lexemes e) := by
  have hlexical := Fault.ofLexErrors_eq (Parsing.lexErrors lexemes)
  refine ⟨Parsing.stopsAt_iff lexemes, Parsing.parse_eq_lexical_iff lexemes, hlexical, ?_, ?_⟩
  · exact Parsing.stopsAtEnd_iff lexemes
  · exact Parsing.parse_eq_structural_iff lexemes

end NormalOrder
