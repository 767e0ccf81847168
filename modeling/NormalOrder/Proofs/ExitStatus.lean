import NormalOrder.Program
import NormalOrder.Proofs.BoundedRuns

namespace NormalOrder

open Text (Style Styled Colour)

namespace Text.Styled

/-- Nothing in the text is the mark of a report that blames the program. -/
def Blameless (s : Styled) : Prop := ∀ c : Colour, (Style.boldIn c).piece "[internal] " ∉ s

@[simp] theorem blameless_nil : Blameless [] := fun _ => List.not_mem_nil

@[simp] theorem blameless_append (s t : Styled) :
    Blameless (s ++ t) ↔ s.Blameless ∧ t.Blameless := by
  simp only [Blameless, List.mem_append, not_or, forall_and]

@[simp] theorem blameless_plain (s : String) : (plain s).Blameless := by
  intro c hmem
  obtain ⟨htext, hcoloured⟩ := Piece.mk.inj (List.mem_singleton.mp hmem)
  rw [← htext] at hcoloured
  cases c <;> exact absurd hcoloured (by decide)

/-- The mark has a colour, so no text in another style is one. -/
theorem blameless_piece {style : Style} (h : ∀ c, style ≠ .boldIn c) (s : String) :
    Blameless [style.piece s] := by
  intro c hmem
  obtain ⟨htext, hcoloured⟩ := Piece.mk.inj (List.mem_singleton.mp hmem)
  rw [← htext] at hcoloured
  cases style with
  | bold => cases c <;> exact absurd hcoloured (by decide)
  | faint => cases c <;> exact absurd hcoloured (by decide)
  | boldIn d => exact h d rfl

@[simp] theorem blameless_bold (s : String) : (bold s).Blameless :=
  blameless_piece (by simp) s

@[simp] theorem blameless_faint (s : String) : (faint s).Blameless :=
  blameless_piece (by simp) s

theorem blameless_of_text {c : Colour} {s : String} (h : s ≠ "[internal] ") :
    (boldIn c s).Blameless := by
  intro d hmem
  exact h (Piece.mk.inj (List.mem_singleton.mp hmem)).1.symm

theorem ofList_ne_mark {cs : List Char} (h : cs ≠ "[internal] ".toList) :
    String.ofList cs ≠ "[internal] " := by
  intro hmark
  rw [← hmark, String.toList_ofList] at h
  exact h rfl

@[simp] theorem blameless_line (s : Styled) : s.line.Blameless ↔ s.Blameless := by
  simp [line]

theorem blameless_flatMap {α : Type} {xs : List α} {f : α → Styled}
    (h : ∀ x ∈ xs, (f x).Blameless) : Blameless (xs.flatMap f) := by
  intro c hmem
  obtain ⟨x, hx, hmem⟩ := List.mem_flatMap.mp hmem
  exact h x hx c hmem

/-- A line begins after the text. -/
def LineBegins (s : Styled) : Prop := s.text = "" ∨ ∃ t, s.text = t ++ "\n"

theorem lineBegins_nil : LineBegins [] := .inl rfl

theorem lineBegins_line (s : Styled) : s.line.LineBegins := .inr ⟨s.text, text_line s⟩

theorem LineBegins.append {s t : Styled} (hs : s.LineBegins) (ht : t.LineBegins) :
    LineBegins (s ++ t) := by
  obtain ht | ⟨u, hu⟩ := ht
  · simpa [LineBegins, ht] using hs
  · exact .inr ⟨s.text ++ u, by rw [text_append, hu, String.append_assoc]⟩

theorem lineBegins_flatMap {α : Type} {f : α → Styled} (h : ∀ x, (f x).LineBegins) (xs : List α) :
    LineBegins (xs.flatMap f) := by
  induction xs with
  | nil => exact lineBegins_nil
  | cons x xs ih => exact (h x).append ih

/-- One of the lines is `l`. -/
def HasLine (s : Styled) (l : String) : Prop :=
  ∃ before after : Styled, before.LineBegins ∧ s.text = before.text ++ (l ++ "\n") ++ after.text

end Text.Styled

namespace Reporter

variable {r : Reporter}

theorem Underlines.excerpt_eq {path : String} {span : Span} {line word : List Char}
    (h : r.Underlines path span line word) (hword : word ≠ []) (severity : Severity) :
    ∃ (left right : String) (underline : List Char), r.excerpt severity (some span) =
      some (.plain left ++ .boldIn severity.colour (String.ofList word) ++ .plain right ++
        .boldIn severity.colour (String.ofList ('^' :: underline))) := by
  obtain ⟨stored, hstored, hline⟩ :
      ∃ stored, r.lines[span.first.row]? = some stored ∧ bareLine stored = line := by
    obtain hline | hline := h.registered
    · exact ⟨_, hline, by simpa [Text.newlineAfter] using bareLine_feed h.bare []⟩
    · exact ⟨_, hline, by simpa [Text.newlineAfter] using bareLine_feed h.bare ['\n']⟩
  have hpositive : 0 < word.length := List.length_pos_iff.mpr hword
  have hlength : span.first.column + word.length ≤ line.length := by
    have htake := congrArg List.length h.marked
    rw [List.length_take, List.length_drop] at htake
    omega
  have hwidth : endColumn span line.length - span.first.column = word.length := by
    simp only [endColumn, h.oneRow, if_true, h.width]
    omega
  simp only [excerpt, Option.bind_eq_bind, Option.bind_some, hstored, hline, hwidth, h.marked,
    Option.pure_def]
  exact ⟨_, _, _, rfl⟩

/-- What is set off in an excerpt is a word of the source, and the mark is none. -/
theorem PointsOut.blameless_excerpt {path : String} {text word : List Char} {span : Span}
    (h : r.PointsOut path text span word) (hword : String.ofList word ≠ "[internal] ")
    {severity : Severity} {shown : Styled} (hshown : r.excerpt severity (some span) = some shown) :
    shown.Blameless := by
  obtain ⟨before, after, hcovers, hunderlines⟩ := h
  obtain ⟨left, right, underline, hexcerpt⟩ := hunderlines.excerpt_eq hcovers.nonempty severity
  rw [hexcerpt] at hshown
  obtain rfl := Option.some.inj hshown
  have hunderline : String.ofList ('^' :: underline) ≠ "[internal] " := Styled.ofList_ne_mark (by simp)
  simp only [Styled.blameless_append, Styled.blameless_plain, Styled.blameless_of_text hword,
    Styled.blameless_of_text hunderline, and_self]

theorem blameless_report {d : Diagnostic} {severity : Severity} (hinternal : d.internal = false)
    (hmessage : d.message.Blameless)
    (hshown : ∀ shown, d.excerpt = true → r.excerpt severity d.span = some shown → shown.Blameless) :
    (r.report severity d).Blameless := by
  have hlabel : (Styled.boldIn severity.colour severity.label).Blameless := by
    cases severity <;> exact Styled.blameless_of_text (by decide)
  have hheadline : (r.headline severity d).Blameless := by
    simp [headline, hinternal, hlabel, hmessage]
  cases hexcerpt : d.excerpt with
  | false => simpa [report, hinternal, hexcerpt] using hheadline
  | true =>
    cases hline : r.excerpt severity d.span with
    | none => simpa [report, hinternal, hexcerpt, hline] using hheadline
    | some shown => simp [report, hinternal, hexcerpt, hline, hheadline, hshown shown hexcerpt hline]

/-- A report that blames the program carries the mark, and so it is no part of a text without it. -/
theorem not_infix_of_blameless {d : Diagnostic} (h : d.internal = true) {severity : Severity}
    {printed : Styled} (hprinted : printed.Blameless) : ¬r.report severity d <:+: printed := by
  intro hpart
  refine hprinted severity.colour (hpart.subset ?_)
  simp [report, headline, h, Styled.line, Styled.boldIn]

theorem text_headline {d : Diagnostic} (h : d.internal = false) (severity : Severity) :
    (r.headline severity d).text = r.locate d.span ++ severity.label ++ d.message.text := by
  simp [headline, h, String.append_assoc]

/-- A report is its headline, with other lines below it. -/
theorem report_eq_line (r : Reporter) (severity : Severity) (d : Diagnostic) :
    ∃ shown : Styled, shown.LineBegins ∧
      r.report severity d = (r.headline severity d).line ++ shown := by
  refine ⟨_, ?_, rfl⟩
  split
  · cases r.excerpt severity d.span with
    | none => exact Styled.lineBegins_nil
    | some shown => exact Styled.lineBegins_line shown
  · exact Styled.lineBegins_nil

theorem lineBegins_report (r : Reporter) (severity : Severity) (d : Diagnostic) :
    (r.report severity d).LineBegins := by
  obtain ⟨shown, hshown, hreport⟩ := r.report_eq_line severity d
  rw [hreport]
  exact (Styled.lineBegins_line _).append hshown

theorem hasLine_reports {before : Styled} (hbefore : before.LineBegins) {ds : List Diagnostic}
    {d : Diagnostic} (hd : d ∈ ds) (hinternal : d.internal = false) (severity : Severity) :
    (before ++ ds.flatMap (r.report severity)).HasLine
      (r.locate d.span ++ severity.label ++ d.message.text) := by
  obtain ⟨earlier, later, rfl⟩ := List.append_of_mem hd
  obtain ⟨shown, -, hreport⟩ := r.report_eq_line severity d
  refine ⟨before ++ earlier.flatMap (r.report severity), shown ++ later.flatMap (r.report severity),
    hbefore.append (Styled.lineBegins_flatMap (r.lineBegins_report severity) earlier), ?_⟩
  rw [List.flatMap_append, List.flatMap_cons, hreport]
  simp only [Styled.text_append, Styled.text_line, text_headline hinternal, String.append_assoc]

end Reporter

/-- An error in a source is the user's to mend. -/
theorem LexError.blameless_diagnostic {e : LexError} {d : Diagnostic} (h : e.diagnostic = .ok d) :
    d.internal = false ∧ d.message.Blameless := by
  obtain ⟨cause, span⟩ := e
  cases cause with
  | invalidCharacter c =>
    rw [diagnostic, message_invalidCharacter] at h
    obtain rfl := Except.ok.inj h
    refine ⟨rfl, ?_⟩
    intro colour hmem
    have htext := (Text.Piece.mk.inj (List.mem_singleton.mp hmem)).1
    have hfirst := congrArg (fun s => s.toList.head?) htext
    simp at hfirst
  | brokenIdentifier m =>
    rw [diagnostic, message_brokenIdentifier] at h
    obtain rfl := Except.ok.inj h
    exact ⟨rfl, Styled.blameless_plain m⟩

namespace Reporter

variable {r : Reporter} {path : String} {text : List Char}

theorem ofList_spelling_ne_mark {word : List Char} {kind : Token.Kind} {span : Option Span}
    (hmem : .ok ⟨kind, span⟩ ∈ lexFrom .origin text) (h : kind.IsSpelling word) :
    String.ofList word ≠ "[internal] " := by
  obtain ⟨c, rfl, -⟩ | rfl := h
  · exact Styled.ofList_ne_mark (by simp)
  · -- a bracket cannot be written in an identifier
    intro hmark
    rw [hmark] at hmem
    have hwritten : IsWritten "[internal] " := Lexer.scan_written _ none _ (by simp) _ span hmem
    exact absurd hwritten (by decide)

theorem Registers.blameless_structural {e : ParseError} (h : r.Registers path text)
    (he : parse (lexFrom .origin text) = .error (.structural e)) :
    (r.report .error (Failure.parse e).diagnostic).Blameless := by
  refine blameless_report rfl (Styled.blameless_plain _) ?_
  intro shown _ hshown
  cases hspan : e.span with
  | none =>
    have hnone : (Failure.parse e).diagnostic.span = none := hspan
    rw [hnone] at hshown
    cases hshown
  | some span =>
    obtain ⟨token, word, hmem, -, hword, hpoints⟩ := h.pointsOutToken he hspan
    have hsome : (Failure.parse e).diagnostic.span = some span := hspan
    rw [hsome] at hshown
    exact hpoints.blameless_excerpt (ofList_spelling_ne_mark hmem hword) hshown

theorem Registers.blameless_lexical {errors : List LexError} {causes : List Diagnostic}
    (h : r.Registers path text) (he : ∀ e ∈ errors, .error e ∈ lexFrom .origin text)
    (hcauses : List.Forall₂ (fun e d => e.diagnostic = .ok d) errors causes) :
    ∀ d ∈ causes, d.internal = false ∧ (r.report .error d).Blameless := by
  intro d hd
  obtain ⟨e, hmem, hdiagnostic⟩ := LexError.exists_error_of_mem hcauses d hd
  obtain ⟨hinternal, hmessage⟩ := LexError.blameless_diagnostic hdiagnostic
  obtain ⟨-, span, c, hspan, -, hpoints⟩ := h.pointsOutCharacter (he e hmem) hdiagnostic
  refine ⟨hinternal, blameless_report hinternal hmessage ?_⟩
  intro shown _ hshown
  rw [hspan] at hshown
  exact hpoints.blameless_excerpt (Styled.ofList_ne_mark (by simp)) hshown

/-- Everything that is reported about a source that is no term is the user's to mend. -/
theorem Registers.blameless_failure {failure : ParseFailure} (h : r.Registers path text)
    (he : parse (lexFrom .origin text) = .error failure) :
    ∃ f, Fault.ofParseFailure failure = .failure f ∧
      ∀ d ∈ f.causes ++ [f.diagnostic], d.internal = false ∧ (r.report .error d).Blameless := by
  cases failure with
  | structural e =>
    refine ⟨.parse e, rfl, ?_⟩
    intro d hd
    obtain rfl : d = (Failure.parse e).diagnostic := by simpa [Failure.causes] using hd
    exact ⟨rfl, h.blameless_structural he⟩
  | lexical errors =>
    obtain ⟨causes, hcauses, hall⟩ := Fault.ofLexErrors_eq errors
    refine ⟨.lexical causes, hcauses, ?_⟩
    intro d hd
    rcases List.mem_append.mp hd with hd | hd
    · exact h.blameless_lexical (Parsing.mem_of_lexical he) hall d hd
    · obtain rfl := List.mem_singleton.mp hd
      refine ⟨rfl, blameless_report rfl (by simp [Failure.diagnostic]) ?_⟩
      intro shown hexcerpt
      cases hexcerpt

end Reporter

namespace Sink

theorem blameless_put (s : Sink) (t : Term) : (s.put t).1.Blameless := by
  cases s with
  | trace tr =>
    have hmark : (Styled.boldIn .cyan "β").Blameless := Styled.blameless_of_text (by decide)
    have hentry : (tr.entry t).Blameless := by
      simp only [Trace.entry, Styled.blameless_line, Styled.blameless_append, Styled.blameless_plain,
        and_true]
      split
      · exact Styled.blameless_plain " "
      · exact hmark
    simp only [put, Trace.put]
    split
    · exact Styled.blameless_nil
    · exact hentry
  | collect ts => exact Styled.blameless_nil

theorem blameless_putAll (s : Sink) (ts : List Term) : (s.putAll ts).1.Blameless := by
  induction ts generalizing s with
  | nil => exact Styled.blameless_nil
  | cons t ts ih => exact (Styled.blameless_append _ _).mpr ⟨s.blameless_put t, ih _⟩

theorem blameless_close (s : Sink) : s.close.1.Blameless := by
  cases s with
  | trace tr =>
    simp only [close, Trace.close]
    split
    · simp
    · exact Styled.blameless_nil
  | collect ts => exact Styled.blameless_nil

end Sink

namespace Session

theorem blameless_remark (s : Session) (budget : Int) (isNormal : Bool) :
    (s.remark budget isNormal).Blameless := by
  cases isNormal with
  | true => exact Styled.blameless_nil
  | false =>
    refine Reporter.blameless_report rfl (by simp [exhausted]) ?_
    intro shown hexcerpt
    cases hexcerpt

theorem blameless_handsOn (s : Session) (ts : List Term) {said : Styled} (h : said.Blameless)
    (last : Term) : (s.handsOn ts said last).printed.Blameless := by
  simp only [handsOn, conclude, Outcome.after, Styled.blameless_append]
  exact ⟨⟨s.sink.blameless_putAll ts, h⟩, Sink.blameless_close _⟩

theorem blameless_listing (s : Session) (lexemes : List Lexeme) : (s.listing lexemes).Blameless := by
  unfold listing
  split
  · exact Styled.blameless_flatMap (by simp)
  · exact Styled.blameless_nil

theorem lineBegins_listing (s : Session) (lexemes : List Lexeme) :
    (s.listing lexemes).LineBegins := by
  unfold listing
  split
  · exact Styled.lineBegins_flatMap (fun l => Styled.lineBegins_line _) lexemes
  · exact Styled.lineBegins_nil

end Session

/-- The run of a term of a source ends within its budget and without a fault. -/
theorem Run.toEnd_term {s : Session} {source : String} {t : Term} {n : Nat}
    (hsink : s.sink.Undisturbed) (hbudget : s.budget = some (n : Int))
    (hparse : parse (lex source) = .ok t) :
    ∃ last, (Run.toEnd ⟨s, t, 0, 0, none⟩ (n + 2)).result = .ok last ∧
      (Run.toEnd ⟨s, t, 0, 0, none⟩ (n + 2)).printed.Blameless := by
  obtain ⟨r, hr⟩ := Term.exists_reduceFrom_of_parse hparse n
  rw [← Nat.zero_add n] at hbudget
  obtain ⟨ts, -, -, -, hend⟩ := Run.toEnd_reduceFrom hsink hbudget hr none
  refine ⟨some r.term, ?_, ?_⟩
  · exact congrArg Session.Outcome.result hend
  · exact hend ▸ s.blameless_handsOn ts (s.blameless_remark _ _) r.term

namespace Program

/-- Runs the program with options that were understood: what it prints, and how it ends. -/
def runOptions (files : String → Opened) (patience : Nat) (o : CommandLine.Options)
    (input : String) : Styled × Except Fault Unit :=
  let begun := startOptions files o
  let ended := toEnd (inputLines input) begun.2 patience
  (begun.1 ++ ended.1, ended.2)

theorem run_eq_runOptions {args : List String} {o : CommandLine.Options}
    (h : CommandLine.parse args = .ok (.run o)) (files : String → Opened) (patience : Nat)
    (input : String) :
    run files patience args input =
      ((runOptions files patience o input).1, "", (runOptions files patience o input).2) := by
  simp only [run, start, h]
  rfl

/-- The session that runs an expression. -/
def expressionSession (o : CommandLine.Options) (text : String) (n : Nat) : Session where
  reporter := reporter.register Session.expressionName
    ((Text.splitAfterNewlines text.toList).map String.ofList)
  sink := .trace { quiet := o.quiet }
  budget := some n
  showTokens := o.tokens

/-- A run that comes to its end without a fault lets the program end normally. -/
theorem toEnd_reducing {r : Run} {m : Nat} {last : Option Term} (h : (r.toEnd m).result = .ok last)
    (lines : List String) (k : Nat) :
    toEnd lines (.reducing r) (m + 1 + k) = ((r.toEnd m).printed, .ok ()) := by
  induction m generalizing r with
  | zero => cases h
  | succ m ih =>
    rw [show m + 1 + 1 + k = m + 1 + k + 1 by omega]
    rcases hr : r.next with ⟨printed, r' | ⟨s, result⟩⟩
    · rw [Run.toEnd_of_running hr] at h ⊢
      simp only [toEnd, Activity.advance, hr, Activity.ofProgress, ih h]
      rfl
    · -- one more move is needed, in which the program is found to be finished
      rw [Run.toEnd_of_ended hr] at h ⊢
      obtain rfl : result = .ok last := h
      rw [show m + 1 + k = m + k + 1 by omega]
      simp [toEnd, Activity.advance, hr, Activity.ofProgress, Activity.leave, Activity.after,
        Reporter.settle, Except.map]

variable {files : String → Opened} {o : CommandLine.Options} {text : String} {n patience : Nat}
  {input : String}

theorem startOptions_expression (hexpr : o.expr = .given text) (hsteps : o.steps = .given (n : Int)) :
    startOptions files o = Activity.ofProgress ((expressionSession o text n).start (lex text)) := by
  have hsign : ¬(n : Int) < 0 := by omega
  simp only [startOptions, hsteps, hsign, if_false, startWith, hexpr]
  rfl

/-- An expression that is a term is reduced, and the program ends normally. -/
theorem runOptions_term (hexpr : o.expr = .given text) (hsteps : o.steps = .given (n : Int))
    (hpatience : n + 3 ≤ patience) {t : Term} (hparse : parse (lex text) = .ok t) :
    ∃ printed : Styled, printed.Blameless ∧
      runOptions files patience o input = (printed, .ok ()) := by
  have hbegun := @startOptions_expression files o text n hexpr hsteps
  rw [Session.start_ok hparse] at hbegun
  obtain ⟨last, hresult, hblameless⟩ :=
    Run.toEnd_term (s := expressionSession o text n) rfl rfl hparse
  obtain ⟨k, rfl⟩ : ∃ k, patience = n + 2 + 1 + k := ⟨patience - (n + 3), by omega⟩
  have hended := toEnd_reducing hresult (inputLines input) k
  have hlisting := (expressionSession o text n).blameless_listing (lex text)
  refine ⟨_, (Styled.blameless_append _ _).mpr ⟨hlisting, hblameless⟩, ?_⟩
  simp only [runOptions, hbegun, Activity.ofProgress, hended]

/-- An expression that is no term is reported, and the program exits. -/
theorem runOptions_failure (hexpr : o.expr = .given text) (hsteps : o.steps = .given (n : Int))
    (hpatience : n + 3 ≤ patience) {failure : ParseFailure} (hparse : parse (lex text) = .error failure)
    {f : Failure} (hf : Fault.ofParseFailure failure = .failure f) :
    runOptions files patience o input =
      ((expressionSession o text n).listing (lex text) ++
        (f.causes ++ [f.diagnostic]).flatMap ((expressionSession o text n).reporter.report .error),
        .error (.exit (.code 1))) := by
  obtain ⟨k, rfl⟩ : ∃ k, patience = k + 1 := ⟨patience - 1, by omega⟩
  have hreported : Reporter.failureOf (.failure f) = some f := rfl
  have hfatal : (expressionSession o text n).reporter.fatal = true := rfl
  simp only [runOptions, startOptions_expression hexpr hsteps, Session.start, hparse, hf,
    Activity.ofProgress, Activity.leave, Activity.after, Except.map, Reporter.settle_failure hreported,
    hfatal, if_true, toEnd, List.append_nil]
  rfl

/-- A program that is given the expression `text` and a budget of `n` steps ends normally exactly if
`text` is a term. Otherwise it exits with the code one, after at least one error was reported in a line
of its own. Nothing that it prints is a report that blames the program. -/
theorem exit_status_tells_grammaticality (hexpr : o.expr = .given text)
    (hsteps : o.steps = .given (n : Int)) (hpatience : n + 3 ≤ patience) :
    let s := expressionSession o text n
    let ran := runOptions files patience o input
    (∀ args, CommandLine.parse args = .ok (.run o) →
      run files patience args input = (ran.1, "", ran.2)) ∧
    (ran.2 = .ok () ↔ ∃ t, parse (lex text) = .ok t) ∧
    ((¬∃ t, parse (lex text) = .ok t) → ran.2 = .error (.exit (.code 1)) ∧
      ∃ ds : List Diagnostic, ds ≠ [] ∧
        ran.1 = s.listing (lex text) ++ ds.flatMap (s.reporter.report .error) ∧
        ∀ d ∈ ds, d.internal = false ∧
          ran.1.HasLine (s.reporter.locate d.span ++ "error: " ++ d.message.text)) ∧
    ∀ (r : Reporter) (severity : Severity) (d : Diagnostic), d.internal = true →
      ¬r.report severity d <:+: ran.1 := by
  intro s ran
  refine ⟨fun args hargs => run_eq_runOptions hargs files patience input, ?_⟩
  cases hparse : parse (lex text) with
  | ok t =>
    obtain ⟨printed, hblameless, hran⟩ :=
      @runOptions_term files o text n patience input hexpr hsteps hpatience t hparse
    rw [show ran = _ from hran]
    refine ⟨by simp, by simp, ?_⟩
    intro r severity d hd
    exact Reporter.not_infix_of_blameless hd hblameless
  | error failure =>
    have hregisters := Reporter.registers_text reporter Session.expressionName text.toList
    obtain ⟨f, hf, hall⟩ := hregisters.blameless_failure hparse
    rw [show ran = _ from runOptions_failure hexpr hsteps hpatience hparse hf]
    refine ⟨by simp, ?_, ?_⟩
    · intro _
      refine ⟨rfl, _, by simp, rfl, ?_⟩
      intro d hd
      obtain ⟨hinternal, -⟩ := hall d hd
      exact ⟨hinternal, Reporter.hasLine_reports (s.lineBegins_listing _) hd hinternal .error⟩
    · intro r severity d hd
      refine Reporter.not_infix_of_blameless hd ?_
      refine (Styled.blameless_append _ _).mpr ⟨s.blameless_listing _, ?_⟩
      exact Styled.blameless_flatMap fun e he => (hall e he).2

/-- An expression with an open bracket, and the same one with the bracket closed. -/
theorem exit_status_tells_open_bracket :
    let files : String → Opened := fun _ => .refused
    let ran (text : String) := run files 6 ["-e", text, "-n", "3"] ""
    (ran "(x").2.2 = .error (.exit (.code 1)) ∧ (ran "(x)").2.2 = .ok () := by
  intro files ran
  have hargs (text : String) (h : CommandLine.parse ["-e", text, "-n", "3"] =
      .ok (.run { expr := .given text, steps := .given (3 : Nat) })) :
      (ran text).2.2 =
        (runOptions files 6 { expr := .given text, steps := .given (3 : Nat) } "").2 := by
    obtain ⟨hrun, -⟩ := @exit_status_tells_grammaticality files
      { expr := .given text, steps := .given (3 : Nat) } text 3 6 "" rfl rfl (by decide)
    rw [show ran text = _ from hrun _ h]
  constructor
  · obtain ⟨-, -, hfailure, -⟩ := @exit_status_tells_grammaticality files
      { expr := .given "(x", steps := .given (3 : Nat) } "(x" 3 6 "" rfl rfl (by decide)
    have hparse : parse (lex "(x") =
        .error (.structural ⟨.missingClosingBracket, some (.single ⟨0, 0⟩)⟩) := by decide
    rw [hargs "(x" (by decide +kernel)]
    exact (hfailure (by simp [hparse])).1
  · obtain ⟨-, hnormal, -⟩ := @exit_status_tells_grammaticality files
      { expr := .given "(x)", steps := .given (3 : Nat) } "(x)" 3 6 "" rfl rfl (by decide)
    have hparse : parse (lex "(x)") = .ok (.var "x") := by decide
    rw [hargs "(x)" (by decide +kernel)]
    exact hnormal.mpr ⟨_, hparse⟩

end Program

end NormalOrder
