import NormalOrder.Proofs.Lines
import NormalOrder.Proofs.Tokenisation
import NormalOrder.Proofs.ViablePrefixes

namespace NormalOrder

open Token (Kind)
open Text (isAlphanumeric sinceNewline)

/-- The span is where `word` stands in `text`, between `before` and `after`. -/
structure Span.Covers (span : Span) (text before word after : List Char) : Prop where
  text_eq : text = before ++ word ++ after
  nonempty : word ≠ []
  oneLine : '\n' ∉ word
  first_eq : span.first = Point.after before
  last_eq : span.last = Point.after (before ++ word.dropLast)

/-- A way to write a token: a reserved character, or the name of an identifier. -/
def Token.Kind.IsSpelling (kind : Kind) (word : List Char) : Prop :=
  (∃ c, word = [c] ∧ Kind.ofReserved? c = some kind) ∨ kind = .identifier (String.ofList word)

/-- The token stands in `text` as it is written. -/
def Token.Stands (token : Token) (text : List Char) : Prop :=
  ∃ span before word after,
    token.span = some span ∧ span.Covers text before word after ∧ token.kind.IsSpelling word

/-- The error is about the character of `text` at its span. -/
def LexError.Marks (e : LexError) (text : List Char) : Prop :=
  ∃ span before c after,
    e.span = some span ∧ span.Covers text before [c] after ∧
      (e.cause = .invalidCharacter c ∨ e.cause = .interrupting c)

theorem Point.after_eq (text : List Char) :
    Point.after text = ⟨text.count '\n', (sinceNewline text).length⟩ := by
  simp [Point.after, sinceNewline]

theorem Span.Covers.last_point {span : Span} {text before word after : List Char}
    (h : span.Covers text before word after) :
    span.last = ⟨before.count '\n', (sinceNewline before).length + (word.length - 1)⟩ := by
  have hword : '\n' ∉ word.dropLast := fun hmem => h.oneLine (List.dropLast_subset word hmem)
  have hcount : (before ++ word.dropLast).count '\n' = before.count '\n' := by
    rw [List.count_append, List.count_eq_zero.mpr hword, Nat.add_zero]
  rw [h.last_eq, Point.after_eq, hcount, Text.sinceNewline_append hword, List.length_append,
    List.length_dropLast]

theorem Span.covers_single (before : List Char) (c : Char) (after : List Char) (hc : c ≠ '\n') :
    (Span.single (Point.after before)).Covers (before ++ [c] ++ after) before [c] after :=
  ⟨rfl, by simp, by simpa using Ne.symm hc, rfl, by simp [Span.single]⟩

namespace Lexer

theorem newline_isSeparator : isSeparator '\n' = true := by decide

theorem ne_newline {c : Char} (h : isSeparator c = false) : c ≠ '\n' := by
  rintro rfl
  rw [newline_isSeparator] at h
  cases h

theorem ofReserved?_ne_newline {c : Char} {kind : Kind} (h : Kind.ofReserved? c = some kind) :
    c ≠ '\n' := by
  rintro rfl
  cases h

/-- The tokens up to the first lexing error stand in `text` as they are written. -/
def Faithful (text : List Char) : List Lexeme → Prop
  | [] => True
  | .error _ :: _ => True
  | .ok token :: rest => token.Stands text ∧ Faithful text rest

theorem faithful_append {text : List Char} {xs ys : List Lexeme} (hxs : Faithful text xs)
    (hys : Faithful text ys) : Faithful text (xs ++ ys) := by
  induction xs with
  | nil => exact hys
  | cons x xs ih =>
    cases x with
    | error e => trivial
    | ok token => exact ⟨hxs.1, ih hxs.2⟩

theorem faithful_mem {text : List Char} {tokens : List Token} {rest : List Lexeme}
    (h : Faithful text (tokens.map .ok ++ rest)) : ∀ token ∈ tokens, token.Stands text := by
  induction tokens with
  | nil => simp
  | cons token tokens ih => exact List.forall_mem_cons.mpr ⟨h.1, ih h.2⟩

theorem faults_cases (place : List Char → Point) (cause : Char → LexError.Cause)
    (before w : List Char) :
    (∀ c ∈ w, isAlphanumeric c = true) ∨
      ∃ e rest, faults place cause before w = .error e :: rest := by
  induction w generalizing before with
  | nil => exact .inl (by simp)
  | cons c w ih =>
    cases hc : isAlphanumeric c with
    | false => exact .inr ⟨_, _, by simp only [faults, hc]; rfl⟩
    | true =>
      obtain hall | ⟨e, rest, hrest⟩ := ih (before ++ [c])
      · exact .inl (List.forall_mem_cons.mpr ⟨hc, hall⟩)
      · exact .inr ⟨e, rest, by simp [faults, hc, hrest]⟩

/-- A block with a bad character yields an error before its identifier. -/
theorem faithful_block (before w after : List Char) (hw : ∀ c ∈ w, isSeparator c = false) :
    Faithful (before ++ w ++ after) (blockLexemes Point.after before w) := by
  cases w with
  | nil => trivial
  | cons c w =>
    cases hc : isAlphanumeric c with
    | false =>
      rw [blockLexemes_cons_invalid _ _ _ _ hc]
      trivial
    | true =>
      rw [blockLexemes_cons_word _ _ _ _ hc]
      obtain hall | ⟨e, rest, hrest⟩ := faults_cases Point.after .interrupting (before ++ [c]) w
      · rw [faults_of_alphanumeric _ _ _ _ hall, List.filter_eq_self.mpr hall]
        refine ⟨⟨_, before, c :: w, after, rfl, ?_, .inr rfl⟩, trivial⟩
        refine ⟨rfl, by simp, ?_, rfl, rfl⟩
        intro hmem
        exact ne_newline (hw '\n' hmem) rfl
      · rw [hrest]
        trivial

theorem faithful_piece (before : List Char) (p : Piece) (after : List Char) (hp : p.Proper) :
    Faithful (before ++ p.chars ++ after) (pieceLexemes Point.after before p) := by
  cases p with
  | separator c =>
    simp only [pieceLexemes]
    cases hk : Kind.ofReserved? c with
    | none => trivial
    | some kind =>
      have hc := ofReserved?_ne_newline hk
      refine ⟨⟨_, before, [c], after, rfl, Span.covers_single before c after hc, ?_⟩, trivial⟩
      exact .inl ⟨c, rfl, hk⟩
  | block w => exact faithful_block before w after hp.2

theorem faithful_tokenise (before : List Char) (ps : List Piece) (hps : ∀ p ∈ ps, p.Proper) :
    Faithful (before ++ ps.flatMap Piece.chars) (tokenise Point.after before ps) := by
  induction ps generalizing before with
  | nil => trivial
  | cons p ps ih =>
    obtain ⟨hp, hrest⟩ := List.forall_mem_cons.mp hps
    rw [List.flatMap_cons, ← List.append_assoc]
    exact faithful_append (faithful_piece before p _ hp) (ih (before ++ p.chars) hrest)

theorem mem_faults {place : List Char → Point} {cause : Char → LexError.Cause} {before w : List Char}
    {e : LexError} (h : .error e ∈ faults place cause before w) :
    ∃ lead c rest, w = lead ++ c :: rest ∧ e = ⟨cause c, some (.single (place (before ++ lead)))⟩ := by
  induction w generalizing before with
  | nil => simp [faults] at h
  | cons c w ih =>
    have hlater (hmem : .error e ∈ faults place cause (before ++ [c]) w) :
        ∃ lead d rest, c :: w = lead ++ d :: rest ∧
          e = ⟨cause d, some (.single (place (before ++ lead)))⟩ := by
      obtain ⟨lead, d, rest, rfl, he⟩ := ih hmem
      exact ⟨c :: lead, d, rest, rfl, by simpa using he⟩
    cases hc : isAlphanumeric c with
    | true =>
      simp only [faults, hc, if_true] at h
      exact hlater h
    | false =>
      simp only [faults, hc, Bool.false_eq_true, if_false, List.mem_cons, Except.error.injEq] at h
      obtain he | hmem := h
      · exact ⟨[], c, w, rfl, by simpa using he⟩
      · exact hlater hmem

theorem marks_block {before w after : List Char} (hw : ∀ c ∈ w, isSeparator c = false)
    {e : LexError} (he : .error e ∈ blockLexemes Point.after before w) :
    e.Marks (before ++ w ++ after) := by
  have hmark (lead : List Char) (c : Char) (rest : List Char) (hsplit : w = lead ++ c :: rest) :
      (Span.single (Point.after (before ++ lead))).Covers (before ++ w ++ after)
        (before ++ lead) [c] (rest ++ after) := by
    have hc : c ≠ '\n' := ne_newline (hw c (by simp [hsplit]))
    have hcovers := Span.covers_single (before ++ lead) c (rest ++ after) hc
    rw [hsplit]
    simpa using hcovers
  have hjoin := List.takeWhile_append_dropWhile (p := (!isAlphanumeric ·)) (l := w)
  rw [blockLexemes] at he
  rcases List.mem_append.mp he with he | he
  · obtain ⟨lead, c, rest, hlead, rfl⟩ := mem_faults he
    rw [hlead, List.append_assoc] at hjoin
    exact ⟨_, _, c, _, rfl, hmark lead c _ hjoin.symm, .inl rfl⟩
  · split at he
    · cases he
    · obtain ⟨lead, c, rest, hlead, rfl⟩ : ∃ lead c rest, w.dropWhile (!isAlphanumeric ·) =
          lead ++ c :: rest ∧ e = ⟨.interrupting c, some (.single (Point.after
            (before ++ w.takeWhile (!isAlphanumeric ·) ++ lead)))⟩ := mem_faults (by simpa using he)
      rw [hlead, ← List.append_assoc] at hjoin
      have hcovers := hmark _ c rest hjoin.symm
      rw [← List.append_assoc] at hcovers
      exact ⟨_, _, c, _, rfl, hcovers, .inr rfl⟩

theorem marks_tokenise {before : List Char} {ps : List Piece} (hps : ∀ p ∈ ps, p.Proper)
    {e : LexError} (he : .error e ∈ tokenise Point.after before ps) :
    e.Marks (before ++ ps.flatMap Piece.chars) := by
  induction ps generalizing before with
  | nil => cases he
  | cons p ps ih =>
    obtain ⟨hp, hrest⟩ := List.forall_mem_cons.mp hps
    rw [List.flatMap_cons, ← List.append_assoc]
    rcases List.mem_append.mp he with he | he
    · cases p with
      | block w => exact marks_block hp.2 he
      | separator c =>
        simp only [pieceLexemes] at he
        split at he <;> simp at he
    · exact ih hrest he

theorem lexFrom_eq_tokenise (cs : List Char) :
    lexFrom .origin cs = tokenise Point.after [] (cut cs) := by
  have hplace : Point.after = Point.origin.advance := funext Point.after_eq_advance
  rw [hplace]
  exact scan_eq_tokenise Point.origin [] cs _ (isCut_cut cs)

theorem faithful_lexFrom (cs : List Char) : Faithful cs (lexFrom .origin cs) := by
  have hcut := isCut_cut cs
  have hfaithful := faithful_tokenise [] (cut cs) hcut.proper
  rwa [hcut.join, ← lexFrom_eq_tokenise] at hfaithful

theorem marks_lexFrom {cs : List Char} {e : LexError} (he : .error e ∈ lexFrom .origin cs) :
    e.Marks cs := by
  have hcut := isCut_cut cs
  rw [lexFrom_eq_tokenise] at he
  have hmarks := marks_tokenise hcut.proper he
  rwa [hcut.join] at hmarks

end Lexer

namespace Stack

/-- The spans of the open scopes. -/
def spans (s : Stack) : List Span := s.scopes.filterMap Scope.span

theorem spans_append (new : List Term) (s : Stack) : (s.append new).spans = s.spans := by
  obtain ⟨base, scopes⟩ := s
  match scopes with
  | [] => rfl
  | .bracket _ _ :: _ => rfl
  | .binder _ _ _ :: _ => rfl

theorem spans_push (scope : Scope) (s : Stack) :
    (s.push scope).spans = scope.span.toList ++ s.spans := by
  cases h : scope.span <;> simp [spans, push, h]

theorem spans_tail (scope : Scope) (scopes : List Scope) :
    scopes.filterMap Scope.span ⊆ (scope :: scopes).filterMap Scope.span :=
  ((List.sublist_cons_self scope scopes).filterMap _).subset

theorem closeBracket_spans {closing : Option Span} {base done : List Term} {scopes : List Scope}
    {s : Stack} (h : closeBracket closing base done scopes = .ok s) :
    s.spans ⊆ scopes.filterMap Scope.span := by
  induction scopes generalizing done with
  | nil => cases h
  | cons scope scopes ih =>
    cases scope with
    | bracket span ts =>
      simp only [closeBracket] at h
      split at h
      · cases h
      · cases h
        rw [spans_append]
        exact spans_tail _ scopes
    | binder x span ts =>
      simp only [closeBracket] at h
      split at h
      · cases h
      · exact List.Subset.trans (ih h) (spans_tail _ scopes)

theorem closeBracket_error_span {closing : Option Span} {base done : List Term}
    {scopes : List Scope} {e : ParseError} {s : Stack} {span : Span}
    (h : closeBracket closing base done scopes = .error (e, s)) (hspan : e.span = some span) :
    closing = some span ∨ span ∈ scopes.filterMap Scope.span := by
  induction scopes generalizing done with
  | nil =>
    cases h
    exact .inl hspan
  | cons scope scopes ih =>
    cases scope with
    | bracket opening ts =>
      simp only [closeBracket] at h
      split at h
      · cases h
        exact .inr (by simp [Scope.span, show opening = some span from hspan])
      · cases h
    | binder x opening ts =>
      simp only [closeBracket] at h
      split at h
      · cases h
        obtain hclosing | ⟨-, hopening⟩ := Option.or_eq_some_iff.mp hspan
        · exact .inl hclosing
        · exact .inr (by simp [Scope.span, hopening])
      · exact (ih h).imp_right fun hmem => spans_tail _ scopes hmem

theorem closeAll_error_span {base done : List Term} {scopes : List Scope} {e : ParseError}
    {span : Span} (h : (closeAll base done scopes).1 = .error e) (hspan : e.span = some span) :
    span ∈ scopes.filterMap Scope.span := by
  induction scopes generalizing done with
  | nil =>
    simp only [closeAll] at h
    split at h <;> cases h
    cases hspan
  | cons scope scopes ih =>
    cases scope with
    | bracket opening ts =>
      cases h
      simp [Scope.span, show opening = some span from hspan]
    | binder x opening ts =>
      simp only [closeAll] at h
      split at h
      · cases h
        simp [Scope.span, show opening = some span from hspan]
      · exact spans_tail _ scopes (ih h)

end Stack

namespace Parsing

theorem step_spans {p q : Parsing} {token : Token} (h : p.step token = .ok q) :
    q.stack.spans ⊆ token.span.toList ++ p.stack.spans := by
  have hkeep : p.stack.spans ⊆ token.span.toList ++ p.stack.spans := List.subset_append_right _ _
  obtain ⟨mode, stack⟩ := p
  obtain ⟨kind, span⟩ := token
  cases mode with
  | normal =>
    cases kind with
    | opening =>
      cases h
      rw [Stack.spans_push]
      exact List.Subset.refl _
    | closing =>
      simp only [step] at h
      split at h
      · rename_i hclose
        cases h
        exact List.Subset.trans (Stack.closeBracket_spans hclose) hkeep
      · cases h
    | identifier x =>
      cases h
      rw [Stack.spans_append]
      exact hkeep
    | lambda =>
      cases h
      exact hkeep
    | dot => cases h
  | lambda =>
    cases kind <;> cases h
    rw [Stack.spans_push]
    exact List.Subset.refl _
  | header =>
    cases kind with
    | identifier x =>
      cases h
      rw [Stack.spans_push]
      exact List.Subset.refl _
    | dot =>
      cases h
      exact hkeep
    | _ => cases h

theorem step_error_span {p q : Parsing} {token : Token} {e : ParseError} {span : Span}
    (h : p.step token = .error (e, q)) (hspan : e.span = some span) :
    token.span = some span ∨ span ∈ p.stack.spans := by
  obtain ⟨mode, stack⟩ := p
  obtain ⟨kind, own⟩ := token
  cases mode with
  | normal =>
    cases kind with
    | closing =>
      simp only [step] at h
      split at h
      · cases h
      · rename_i hclose
        cases h
        exact Stack.closeBracket_error_span hclose hspan
    | dot =>
      cases h
      exact .inl hspan
    | _ => cases h
  | lambda =>
    cases kind <;> cases h
    all_goals exact .inl hspan
  | header =>
    cases kind <;> cases h
    all_goals exact .inl hspan

theorem finish_error_span {p : Parsing} {e : ParseError} {span : Span}
    (h : p.finish.1 = .error e) (hspan : e.span = some span) : span ∈ p.stack.spans := by
  obtain ⟨mode, base, scopes⟩ := p
  cases mode with
  | normal => exact Stack.closeAll_error_span h hspan
  | lambda =>
    cases h
    cases hspan
  | header =>
    cases h
    cases scopes with
    | nil => cases hspan
    | cons scope scopes =>
      have hscope : scope.span = some span := hspan
      simp [Stack.spans, hscope]

/-- Every open scope was opened by a token that was read. -/
theorem read_spans {p : Parsing} {tokens : List Token} (h : start.read tokens = .ok p) :
    p.stack.spans ⊆ tokens.filterMap Token.span := by
  -- from the right: a step pushes at most a scope of the token that it reads last
  induction tokens using List.reverseRecOn generalizing p with
  | nil =>
    cases h
    exact List.Subset.refl _
  | append_singleton tokens token ih =>
    rw [read_concat] at h
    cases hq : start.read tokens with
    | error e => simp [hq, bind, Except.bind] at h
    | ok q =>
      rw [hq] at h
      have hstep := step_spans (p := q) h
      have htoken : token.span.toList ⊆ (tokens ++ [token]).filterMap Token.span := by
        cases hspan : token.span <;> simp [hspan]
      have htokens : q.stack.spans ⊆ (tokens ++ [token]).filterMap Token.span := by
        rw [List.filterMap_append]
        exact List.Subset.trans (ih hq) (List.subset_append_left _ _)
      exact List.Subset.trans hstep (List.append_subset.mpr ⟨htoken, htokens⟩)

/-- The span of a structural error is that of a token that was read before any lexing error. -/
theorem span_of_structural {lexemes : List Lexeme} {e : ParseError} {span : Span}
    (h : parse lexemes = .error (.structural e)) (hspan : e.span = some span) :
    ∃ (tokens : List Token) (rest : List Lexeme) (token : Token),
      lexemes = tokens.map .ok ++ rest ∧ token ∈ tokens ∧ token.span = some span := by
  have hread {p : Parsing} {tokens : List Token} (hp : start.read tokens = .ok p)
      (hmem : span ∈ p.stack.spans) : ∃ token ∈ tokens, token.span = some span :=
    List.mem_filterMap.mp (read_spans hp hmem)
  obtain ⟨k, tokens, token, rest, p, q, rfl, -, hp, hstep, -⟩ | ⟨tokens, p, q, rfl, hp, hfinish, -⟩ :=
    (parse_eq_structural_iff lexemes e).mp h
  · have hsplit : tokens.map .ok ++ .ok token :: rest =
        (tokens ++ [token]).map (.ok : Token → Lexeme) ++ rest := by simp
    refine ⟨tokens ++ [token], rest, ?_⟩
    obtain hown | hmem := step_error_span hstep hspan
    · exact ⟨token, hsplit, by simp, hown⟩
    · obtain ⟨t, ht, htspan⟩ := hread hp hmem
      exact ⟨t, hsplit, List.mem_append_left _ ht, htspan⟩
  · have hfail : p.finish.1 = .error e := by rw [hfinish]
    obtain ⟨t, ht, htspan⟩ := hread hp (finish_error_span hfail hspan)
    exact ⟨tokens, [], t, by simp, ht, htspan⟩

/-- The errors of a lexical failure are among the lexemes. -/
theorem mem_of_lexical {lexemes : List Lexeme} {errors : List LexError}
    (h : parse lexemes = .error (.lexical errors)) : ∀ e ∈ errors, .error e ∈ lexemes := by
  intro e he
  rw [((parse_eq_lexical_iff _ _).mp h).2.2, lexErrors, List.mem_filterMap] at he
  obtain ⟨lexeme, hmem, hlexeme⟩ := he
  cases lexeme with
  | ok token => cases hlexeme
  | error f =>
    cases hlexeme
    exact hmem

/-- A structural error that has a span points at a token as it is written in the text. -/
theorem structural_stands {text : List Char} {e : ParseError} {span : Span}
    (h : parse (lexFrom .origin text) = .error (.structural e)) (hspan : e.span = some span) :
    ∃ token, .ok token ∈ lexFrom .origin text ∧ token.span = some span ∧ token.Stands text := by
  obtain ⟨tokens, rest, token, hsplit, hmem, htoken⟩ := span_of_structural h hspan
  have hfaithful := Lexer.faithful_lexFrom text
  rw [hsplit] at hfaithful ⊢
  have hlexeme : .ok token ∈ tokens.map .ok ++ rest :=
    List.mem_append_left _ (List.mem_map_of_mem hmem)
  exact ⟨token, hlexeme, htoken, Lexer.faithful_mem hfaithful token hmem⟩

end Parsing

end NormalOrder
