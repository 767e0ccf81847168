import NormalOrder.Proofs.LineGroups
import NormalOrder.Proofs.SourceNames
import NormalOrder.Proofs.ViablePrefixes

namespace NormalOrder

open Token (Kind)
open Text (Palette isBlank)

theorem tokenKinds_append (xs ys : List Lexeme) :
    tokenKinds (xs ++ ys) = tokenKinds xs ++ tokenKinds ys := by
  simp [tokenKinds]

namespace Lexer

variable {kind : Kind}

theorem count_outside (kind : Kind) (p : Point) (c : Char) :
    (tokenKinds (outside p c).2).count kind = if Kind.ofReserved? c = some kind then 1 else 0 := by
  unfold outside
  cases hc : Kind.ofReserved? c with
  | some own => by_cases hown : own = kind <;> simp [tokenKinds, hown]
  | none =>
    dsimp only
    split_ifs <;> simp_all [tokenKinds]

/-- An identifier that ends is no token of another kind. -/
theorem count_word (hkind : ∀ x, kind ≠ .identifier x) (w : Word) (p : Point) :
    (tokenKinds [.ok (w.token p)]).count kind = 0 := by
  rw [List.count_eq_zero]
  simpa [tokenKinds, Word.token] using hkind w.name

theorem count_step (hkind : ∀ x, kind ≠ .identifier x) (word : Option Word) (p : Point) (c : Char) :
    (tokenKinds (step word p c).2).count kind =
      if Kind.ofReserved? c = some kind then 1 else 0 := by
  have houtside := count_outside kind p c
  cases word with
  | none => exact houtside
  | some w =>
    cases hsep : isBlank c || isReserved c with
    | true =>
      have hstep : (step (some w) p c).2 = [.ok (w.token p)] ++ (outside p c).2 := by
        simp [step, inside, hsep]
      rw [hstep, tokenKinds_append, List.count_append, count_word hkind, houtside, Nat.zero_add]
    | false =>
      have hplain : Kind.ofReserved? c = none := by
        simpa [isReserved] using (Bool.or_eq_false_iff.mp hsep).2
      simp only [step, inside, hsep, hplain, Bool.false_eq_true, if_false, reduceCtorEq]
      split <;> rfl

theorem count_scan (hkind : ∀ x, kind ≠ .identifier x) (p : Point) (word : Option Word)
    (cs : List Char) :
    (tokenKinds (scan p word cs)).count kind = cs.countP (Kind.ofReserved? · = some kind) := by
  induction cs generalizing p word with
  | nil =>
    cases word with
    | none => rfl
    | some w => exact count_word hkind w p
  | cons c cs ih =>
    have hscan : scan p word (c :: cs) =
        (step word p c).2 ++ scan (p.next c) (step word p c).1 cs := by
      cases word <;> rfl
    rw [hscan, tokenKinds_append, List.count_append, count_step hkind, ih, List.countP_cons,
      Nat.add_comm]
    simp

/-- A character that alone is written for a kind of token is that token wherever it stands. -/
theorem count_lex {b : Char} (h : ∀ c, Kind.ofReserved? c = some kind ↔ c = b) (source : String) :
    (tokenKinds (lex source)).count kind = source.toList.count b := by
  have hkind : ∀ x, kind ≠ .identifier x := by
    rintro x rfl
    exact ofReserved?_ne_identifier b x ((h b).mpr rfl)
  rw [lex, lexFrom, count_scan hkind, List.count]
  refine List.countP_congr ?_
  intro c _
  simp [h c]

theorem ofReserved?_eq_opening_iff (c : Char) : Kind.ofReserved? c = some .opening ↔ c = '(' := by
  unfold Kind.ofReserved?
  split <;> simp_all

theorem ofReserved?_eq_closing_iff (c : Char) : Kind.ofReserved? c = some .closing ↔ c = ')' := by
  unfold Kind.ofReserved?
  split <;> simp_all

end Lexer

namespace Stack

/-- The number of brackets among the scopes. -/
def openBrackets (scopes : List Scope) : Nat := scopes.countP (·.param?.isNone)

@[simp] theorem openBrackets_bracket (span : Option Span) (ts : List Term) (scopes : List Scope) :
    openBrackets (.bracket span ts :: scopes) = openBrackets scopes + 1 := by
  simp [openBrackets, Scope.param?]

@[simp] theorem openBrackets_binder (x : String) (span : Option Span) (ts : List Term)
    (scopes : List Scope) : openBrackets (.binder x span ts :: scopes) = openBrackets scopes := by
  simp [openBrackets, Scope.param?]

@[simp] theorem openBrackets_append (new : List Term) (s : Stack) :
    openBrackets (s.append new).scopes = openBrackets s.scopes := by
  obtain ⟨base, scopes⟩ := s
  match scopes with
  | [] => rfl
  | .bracket _ _ :: _ => simp [append, Scope.append]
  | .binder _ _ _ :: _ => simp [append, Scope.append]

/-- Whatever binders close with it, one bracket is closed. -/
theorem closeBracket_openBrackets {closing : Option Span} {base done : List Term}
    {scopes : List Scope} {s : Stack} (h : closeBracket closing base done scopes = .ok s) :
    openBrackets s.scopes + 1 = openBrackets scopes := by
  induction scopes generalizing done with
  | nil => cases h
  | cons scope scopes ih =>
    cases scope with
    | bracket span ts =>
      simp only [closeBracket] at h
      split at h
      · cases h
      · cases h
        simp
    | binder x span ts =>
      simp only [closeBracket] at h
      split at h
      · cases h
      · rw [openBrackets_binder]
        exact ih h

/-- The end of the input closes binders only. -/
theorem closeAll_openBrackets (base done : List Term) (scopes : List Scope) :
    (∀ t, (closeAll base done scopes).1 = .ok t → openBrackets scopes = 0) ∧
      ∀ span, (closeAll base done scopes).1 = .error ⟨.missingClosingBracket, span⟩ →
        0 < openBrackets scopes := by
  induction scopes generalizing done with
  | nil =>
    simp only [closeAll]
    split <;> simp [openBrackets]
  | cons scope scopes ih =>
    cases scope with
    | bracket span ts => simp [closeAll]
    | binder x span ts =>
      simp only [closeAll, openBrackets_binder]
      split
      · simp
      · exact ih _

end Stack

namespace Parsing

open Stack (openBrackets)

theorem step_openBrackets {p q : Parsing} {token : Token} (h : p.step token = .ok q) :
    openBrackets q.stack.scopes + [token.kind].count .closing =
      openBrackets p.stack.scopes + [token.kind].count .opening := by
  obtain ⟨mode, stack⟩ := p
  obtain ⟨kind, span⟩ := token
  cases mode with
  | normal =>
    cases kind with
    | opening =>
      cases h
      simp [Stack.push]
    | closing =>
      simp only [step] at h
      split at h
      · rename_i hclose
        cases h
        simpa using Stack.closeBracket_openBrackets hclose
      · cases h
    | identifier x =>
      cases h
      simp
    | lambda =>
      cases h
      simp
    | dot => cases h
  | lambda =>
    cases kind <;> cases h
    simp [Stack.push]
  | header =>
    cases kind <;> cases h
    · simp
    · simp [Stack.push]

/-- The open brackets are those read and not closed. -/
theorem read_openBrackets {p q : Parsing} {tokens : List Token} (h : p.read tokens = .ok q) :
    openBrackets q.stack.scopes + (tokens.map Token.kind).count .closing =
      openBrackets p.stack.scopes + (tokens.map Token.kind).count .opening := by
  induction tokens generalizing p with
  | nil =>
    cases h
    rfl
  | cons token tokens ih =>
    rw [read_cons] at h
    cases hs : p.step token with
    | error e => simp [hs, bind, Except.bind] at h
    | ok p' =>
      rw [hs] at h
      have hstep := step_openBrackets hs
      have hrest := ih h
      rw [List.map_cons, ← List.singleton_append, List.count_append, List.count_append]
      omega

theorem finish_openBrackets (p : Parsing) :
    (∀ t, p.finish.1 = .ok t → openBrackets p.stack.scopes = 0) ∧
      ∀ span, p.finish.1 = .error ⟨.missingClosingBracket, span⟩ → 0 < openBrackets p.stack.scopes := by
  obtain ⟨mode, stack⟩ := p
  cases mode with
  | normal => exact Stack.closeAll_openBrackets stack.base [] stack.scopes
  | lambda | header => simp [finish]

/-- A parse that gives a term has read all of the input as tokens. -/
theorem read_of_parse_ok {lexemes : List Lexeme} {t : Term} (h : parse lexemes = .ok t) :
    ∃ tokens q, lexemes = tokens.map .ok ∧ start.read tokens = .ok q ∧ q.finish.1 = .ok t := by
  obtain ⟨tokens, rfl⟩ := tokens_of_run_ok h
  have hviable : Grammar.Viable (tokens.map Token.kind) := by
    refine ⟨[], t, ?_⟩
    rw [List.append_nil]
    exact (parse_eq_ok_iff tokens t).mp h
  obtain ⟨q, hq⟩ := (viable_iff_read tokens).mp hviable
  have hrun := run_read_ok hq []
  rw [List.append_nil] at hrun
  rw [parse, hrun] at h
  refine ⟨tokens, q, rfl, hq, ?_⟩
  cases hfinish : q.finish.1 with
  | ok u =>
    rw [run_nil_ok hfinish] at h
    cases h
    rfl
  | error e =>
    rw [run_nil_error hfinish] at h
    cases h

/-- A closing bracket is found missing at the end of the input only. -/
theorem read_of_parse_missing {lexemes : List Lexeme} {span : Option Span}
    (h : parse lexemes = .error (.structural ⟨.missingClosingBracket, span⟩)) :
    ∃ tokens q, lexemes = tokens.map .ok ∧ start.read tokens = .ok q ∧
      q.finish.1 = .error ⟨.missingClosingBracket, span⟩ := by
  obtain ⟨k, tokens, token, rest, p, q, -, -, -, hstep, -⟩ | ⟨tokens, p, q, rfl, hp, hfinish, -⟩ :=
    (parse_eq_structural_iff lexemes _).mp h
  · exact absurd rfl (step_error hstep).2
  · exact ⟨tokens, p, rfl, hp, by rw [hfinish]⟩

theorem count_of_read {tokens : List Token} {q : Parsing} {text : String}
    (hlex : lex text = tokens.map .ok) (h : start.read tokens = .ok q) :
    openBrackets q.stack.scopes + text.toList.count ')' = text.toList.count '(' := by
  have hread := read_openBrackets h
  have hopening := Lexer.count_lex Lexer.ofReserved?_eq_opening_iff text
  have hclosing := Lexer.count_lex Lexer.ofReserved?_eq_closing_iff text
  have hstart : openBrackets start.stack.scopes = 0 := rfl
  rw [hlex, tokenKinds_map_ok] at hopening hclosing
  omega

end Parsing

namespace Shell

theorem needsContinuation_of_parse_ok {text : String} {t : Term} (h : parse (lex text) = .ok t) :
    needsContinuation text = false := by
  obtain ⟨tokens, q, hlex, hq, hfinish⟩ := Parsing.read_of_parse_ok h
  have hclosed := (Parsing.finish_openBrackets q).1 t hfinish
  have hcount := Parsing.count_of_read hlex hq
  rw [needsContinuation, decide_eq_false_iff_not]
  omega

theorem needsContinuation_of_parse_missing {text : String} {span : Option Span}
    (h : parse (lex text) = .error (.structural ⟨.missingClosingBracket, span⟩)) :
    needsContinuation text = true := by
  obtain ⟨tokens, q, hlex, hq, hfinish⟩ := Parsing.read_of_parse_missing h
  have hopen := (Parsing.finish_openBrackets q).2 span hfinish
  have hcount := Parsing.count_of_read hlex hq
  rw [needsContinuation, decide_eq_true_iff]
  omega

theorem needsContinuation_of_mem_launches [Palette] {sh : Shell} {turns : List Turn} {l : Launch}
    (h : l ∈ sh.launches turns) : needsContinuation l.text = false := by
  induction turns generalizing sh with
  | nil => cases h
  | cons t turns ih =>
    rcases List.mem_append.mp h with h | h
    · exact (respond_of_launch (Option.mem_toList.mp h)).2.1
    · exact ih h

end Shell

/-- A run of a text that ends with a structural error ends with that of the parse. -/
theorem Session.parse_of_runText [Palette] {s : Session} {patience : Nat} {text path : String}
    {e : ParseError} (h : (s.runText patience text path).result = .error (.failure (.parse e))) :
    parse (lex text) = .error (.structural e) := by
  rw [runText, startText] at h
  cases hparse : parse (lex text) with
  | error failure =>
    rw [(complete_start_error hparse _ patience).2] at h
    cases failure with
    | structural own =>
      cases h
      rfl
    | lexical errors =>
      obtain ⟨causes, hcauses, -⟩ := Fault.ofLexErrors_eq errors
      rw [Fault.ofParseFailure, hcauses] at h
      cases h
  | ok t =>
    obtain hinterrupt | ⟨c, hclash⟩ := (complete_start_ok hparse _ patience).fault _ h
    · cases hinterrupt
    · cases hclash

/-- A text that is a term is never held back by the shell, and one that lacks a closing bracket always
is, so no run of the shell fails for the lack of one. The runs are all that the shell makes: a turn
prints, leaves and gives what the run does that it leads to, and without one it makes none. -/
theorem continuation_agrees_with_parse [Palette] :
    (∀ text t, parse (lex text) = .ok t → Shell.needsContinuation text = false) ∧
    (∀ text span, parse (lex text) = .error (.structural ⟨.missingClosingBracket, span⟩) →
      Shell.needsContinuation text = true) ∧
    (∀ (sh : Shell) (turns : List Shell.Turn), ∀ l ∈ sh.launches turns, ∀ span,
      l.outcome.result ≠ .error (.failure (.parse ⟨.missingClosingBracket, span⟩))) ∧
    (∀ (sh : Shell) t l, sh.launch? t = some l → sh.Runs t l) ∧
    ∀ (sh : Shell) t, sh.launch? t = none → sh.Rests t := by
  refine ⟨?_, ?_, ?_, fun _ _ _ => Shell.runs_of_launch, fun _ _ => Shell.rests_of_no_launch⟩
  · intro text t h
    exact Shell.needsContinuation_of_parse_ok h
  · intro text span h
    exact Shell.needsContinuation_of_parse_missing h
  · intro sh turns l hl span hresult
    have hparse := Session.parse_of_runText hresult
    have hneeds := Shell.needsContinuation_of_parse_missing hparse
    rw [Shell.needsContinuation_of_mem_launches hl] at hneeds
    cases hneeds

/-- In `λx.(x` a bracket stays open below a binder, and the line `y)` closes both. -/
theorem continuation_agrees_with_parse_binder :
    (∃ span, parse (lex "λx.(x") = .error (.structural ⟨.missingClosingBracket, span⟩) ∧
      Shell.needsContinuation "λx.(x" = true) ∧
    ∃ t, parse (lex "λx.(x\ny)") = .ok t ∧ Shell.needsContinuation "λx.(x\ny)" = false := by
  have hopen : parse (lex "λx.(x") =
      .error (.structural ⟨.missingClosingBracket, some (.single ⟨0, 3⟩)⟩) := by decide
  have hclosed : parse (lex "λx.(x\ny)") =
      .ok (.lam "x" (.app (.var "x") (.var "y") [])) := by decide
  exact ⟨⟨_, hopen, continuation_agrees_with_parse.2.1 _ _ hopen⟩,
    _, hclosed, continuation_agrees_with_parse.1 _ _ hclosed⟩

end NormalOrder
