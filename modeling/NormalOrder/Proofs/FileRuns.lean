import NormalOrder.Proofs.Diagnosis

namespace NormalOrder

open Text (Palette Styled IsLines unifyNewlines)
open Text.Utf8 (encode)

/-- The diagnostic is about a word of `text`, if it is about a place at all. -/
def Diagnostic.Placed (d : Diagnostic) (text : List Char) : Prop :=
  ∀ span, d.span = some span → ∃ before word after, span.Covers text before word after

def Failure.Placed [Palette] (f : Failure) (text : List Char) : Prop :=
  ∀ d ∈ f.causes ++ [f.diagnostic], d.Placed text

theorem Diagnostic.placed_of_none {d : Diagnostic} (h : d.span = none) (text : List Char) :
    d.Placed text := by
  intro span hspan
  rw [h] at hspan
  cases hspan

theorem Failure.placed_of_none [Palette] {f : Failure} (hcauses : f.causes = [])
    (hspan : f.diagnostic.span = none) (text : List Char) : f.Placed text := by
  intro d hd
  rw [hcauses, List.nil_append, List.mem_singleton] at hd
  rw [hd]
  exact Diagnostic.placed_of_none hspan text

theorem placed_structural [Palette] {text : List Char} {e : ParseError}
    (h : parse (lexFrom .origin text) = .error (.structural e)) : (Failure.parse e).Placed text := by
  intro d hd span hspan
  obtain rfl : d = (Failure.parse e).diagnostic := by simpa [Failure.causes] using hd
  obtain ⟨token, -, htoken, own, before, word, after, hown, hcovers, -⟩ :=
    Parsing.structural_stands h hspan
  obtain rfl : own = span := Option.some.inj (hown.symm.trans htoken)
  exact ⟨before, word, after, hcovers⟩

theorem LexError.placed_diagnostic [Palette] {text : List Char} {e : LexError} {d : Diagnostic}
    (he : .error e ∈ lexFrom .origin text) (hd : e.diagnostic = .ok d) : d.Placed text := by
  intro span hspan
  obtain ⟨own, before, c, after, hown, hcovers, -⟩ := Lexer.marks_lexFrom he
  rw [LexError.span_of_diagnostic hd, hown] at hspan
  cases hspan
  exact ⟨before, [c], after, hcovers⟩

theorem placed_lexical [Palette] {text : List Char} {errors : List LexError}
    {causes : List Diagnostic} (h : ∀ e ∈ errors, .error e ∈ lexFrom .origin text)
    (hcauses : List.Forall₂ (fun e d => e.diagnostic = .ok d) errors causes) :
    (Failure.lexical causes).Placed text := by
  intro d hd
  rcases List.mem_append.mp hd with hd | hd
  · obtain ⟨e, he, hdiagnostic⟩ := LexError.exists_error_of_mem hcauses d hd
    exact LexError.placed_diagnostic (h e he) hdiagnostic
  · rw [List.mem_singleton.mp hd]
    exact Diagnostic.placed_of_none rfl text

namespace Reporter

variable {a b : Reporter} {path : String} {text : List Char}

/-- Two reporters of one text say the same about every place in it. -/
theorem Registers.report_eq [Palette] (ha : a.Registers path text) (hb : b.Registers path text)
    {d : Diagnostic} (hd : d.Placed text) (severity : Severity) :
    a.report severity d = b.report severity d := by
  have hlocate : a.locate d.span = b.locate d.span := by
    simp only [locate, ha.path_eq, hb.path_eq]
  have hexcerpt : a.excerpt severity d.span = b.excerpt severity d.span := by
    cases hspan : d.span with
    | none => rfl
    | some span =>
      obtain ⟨before, word, after, hcovers⟩ := hd span hspan
      simp only [excerpt, Option.bind_eq_bind, Option.bind_some, ha.line_at hcovers,
        hb.line_at hcovers]
  simp only [report, headline, hlocate, hexcerpt]

theorem Registers.throw_eq [Palette] (ha : a.Registers path text) (hb : b.Registers path text)
    {f : Failure} (hf : f.Placed text) : (a.throw f).1 = (b.throw f).1 := by
  refine List.flatMap_congr ?_
  intro d hd
  exact ha.report_eq hb (hf d hd) .error

theorem Registers.settle_eq [Palette] {α : Type} (ha : a.Registers path text)
    (hb : b.Registers path text) (hfatal : a.fatal = b.fatal) {fault : Fault}
    (hfault : ∀ f, failureOf fault = some f → f.Placed text) :
    (a.settle (.error fault : Except Fault α)).printed =
        (b.settle (.error fault : Except Fault α)).printed ∧
      (a.settle (.error fault : Except Fault α)).result =
        (b.settle (.error fault : Except Fault α)).result := by
  cases hf : failureOf fault with
  | none => simp [settle, hf]
  | some f =>
    have hprinted := ha.throw_eq hb (hfault f hf)
    rw [settle_failure hf, settle_failure hf, hprinted, hfatal]
    split <;> exact ⟨rfl, rfl⟩

end Reporter

section Parallel

variable {a b : Reporter} {path : String} {text : List Char}

def Run.under (r : Run) (reporter : Reporter) : Run :=
  { r with session := { r.session with reporter := reporter } }

/-- Two runs that printed the same and differ in their reporters only, `a` and `b`, or that ended
with the same result. -/
inductive Parallel (a b : Reporter) : Styled × Progress → Styled × Progress → Prop
  | ended (printed : Styled) (t u : Session) (result : Except Fault (Option Term)) :
      Parallel a b (printed, .ended t result) (printed, .ended u result)
  | running (printed : Styled) (r : Run) :
      Parallel a b (printed, .running (r.under a)) (printed, .running (r.under b))

theorem Run.next_parallel [Palette] (ha : a.Registers path text) (hb : b.Registers path text)
    (r : Run) :
    Parallel a b (r.under a).next (r.under b).next := by
  have hover (reporter : Reporter) : (r.under reporter).overBudget = r.overBudget := rfl
  unfold next
  rw [hover, hover]
  cases r.overBudget with
  | some n =>
    -- the reporter is asked for this warning only, which is about no place
    have hwarning := ha.report_eq hb (Diagnostic.placed_of_none (d := exhausted n) rfl text) .warning
    simp only [under, hwarning]
    exact .ended _ _ _ _
  | none =>
    cases hinterrupted : (r.session.sink.put r.term).2.2 with
    | true =>
      simp only [under, hinterrupted, if_true]
      exact .ended _ _ _ _
    | false =>
      simp only [under, hinterrupted, Bool.false_eq_true, if_false]
      obtain ⟨clash | _ | t, counter⟩ := r.term.step r.counter
      · exact .ended _ _ _ _
      · exact .ended _ _ _ _
      · exact .running _ ⟨{ r.session with sink := (r.session.sink.put r.term).2.1 }, t, counter, _, _⟩

theorem Run.toEnd_parallel [Palette] (ha : a.Registers path text) (hb : b.Registers path text)
    (r : Run) (fuel : Nat) :
    ((r.under a).toEnd fuel).printed = ((r.under b).toEnd fuel).printed ∧
      ((r.under a).toEnd fuel).result = ((r.under b).toEnd fuel).result := by
  induction fuel generalizing r with
  | zero => exact ⟨rfl, rfl⟩
  | succ fuel ih =>
    have hnext := r.next_parallel ha hb
    rw [toEnd, toEnd]
    generalize (r.under a).next = p at hnext ⊢
    generalize (r.under b).next = q at hnext ⊢
    cases hnext with
    | ended printed t u result => exact ⟨rfl, rfl⟩
    | running printed r' =>
      obtain ⟨hprinted, hresult⟩ := ih r'
      exact ⟨congrArg (printed ++ ·) hprinted, hresult⟩

theorem Session.start_parallel [Palette] (s : Session) (lexemes : List Lexeme) :
    Parallel a b ({ s with reporter := a }.start lexemes) ({ s with reporter := b }.start lexemes) := by
  unfold start
  cases parse lexemes with
  | error failure => exact .ended _ _ _ _
  | ok t => exact .running _ ⟨s, t, 0, 0, none⟩

theorem Parallel.complete [Palette] (ha : a.Registers path text) (hb : b.Registers path text)
    {p q : Styled × Progress} (h : Parallel a b p q) (patience : Nat) :
    (Session.complete patience p).printed = (Session.complete patience q).printed ∧
      (Session.complete patience p).result = (Session.complete patience q).result := by
  cases h with
  | ended printed t u result => exact ⟨rfl, rfl⟩
  | running printed r =>
    obtain ⟨hprinted, hresult⟩ := r.toEnd_parallel ha hb (r.session.horizon patience)
    exact ⟨congrArg (printed ++ ·) hprinted, hresult⟩

end Parallel

namespace Session

/-- A fault leaves the reporter as it is, and what is to be reported lies in the text. -/
theorem complete_start_fault [Palette] {s : Session} {patience : Nat} {text : List Char}
    {fault : Fault}
    (h : (complete patience (s.start (lexFrom .origin text))).result = .error fault) :
    (complete patience (s.start (lexFrom .origin text))).session.reporter = s.reporter ∧
      ∀ f, Reporter.failureOf fault = some f → f.Placed text := by
  cases hparse : parse (lexFrom .origin text) with
  | error failure =>
    obtain ⟨hsession, hresult⟩ := complete_start_error hparse s patience
    rw [hresult] at h
    cases h
    refine ⟨by rw [hsession], ?_⟩
    intro f hf
    cases failure with
    | structural e =>
      cases hf
      exact placed_structural hparse
    | lexical errors =>
      obtain ⟨causes, hcauses, hall⟩ := Fault.ofLexErrors_eq errors
      rw [Fault.ofParseFailure, hcauses] at hf
      cases hf
      exact placed_lexical (Parsing.mem_of_lexical hparse) hall
  | ok t =>
    have hends := complete_start_ok hparse s patience
    rw [h] at hends
    refine ⟨hends.reporter, ?_⟩
    intro f hf
    -- neither an interrupt nor a name that cannot be given is about a place
    obtain rfl | ⟨c, rfl⟩ := hends.fault fault rfl
    · cases hf
      exact Failure.placed_of_none rfl rfl text
    · cases hf
      exact Failure.placed_of_none rfl rfl text

/-- Under two reporters of one text a run ends alike, and so does its report. -/
theorem guarded_eq [Palette] {a b : Reporter} {path : String} {text : List Char}
    (ha : a.Registers path text)
    (hb : b.Registers path text) (hfatal : a.fatal = b.fatal) (s : Session) (patience : Nat)
    {o p : Outcome (Option Term)}
    (ho : o = complete patience ({ s with reporter := a }.start (lexFrom .origin text)))
    (hp : p = complete patience ({ s with reporter := b }.start (lexFrom .origin text))) :
    o.result = p.result ∧ o.guarded.printed = p.guarded.printed ∧
      o.guarded.result = p.guarded.result := by
  obtain ⟨hprinted, hresult⟩ := (s.start_parallel (lexFrom .origin text)).complete ha hb patience
  rw [← ho, ← hp] at hprinted hresult
  cases hfault : o.result with
  | ok last =>
    rw [hfault] at hresult
    simp only [Outcome.guarded, hfault, ← hresult, hprinted]
    exact ⟨trivial, rfl, rfl⟩
  | error fault =>
    rw [hfault] at hresult
    have hoa := complete_start_fault (ho ▸ hfault)
    have hpb := complete_start_fault (hp ▸ hresult.symm)
    rw [← ho] at hoa
    rw [← hp] at hpb
    obtain ⟨hsettled, hend⟩ := ha.settle_eq (α := Option Term) hb hfatal hoa.2
    simp only [Outcome.guarded, hfault, ← hresult, hprinted, hoa.1, hpb.1]
    exact ⟨trivial, by rw [hsettled], hend⟩

end Session

/-- A file with the text `cs` in UTF-8 is read character by character, with its lines kept as far as
they were begun, and its run is in every respect that of the text with line feeds for all line
endings. -/
theorem file_runs_as_text [Palette] (s : Session) (patience : Nat) (path : String) (cs : List Char)
    (hpath : '\x00' ∉ path.toList) :
    let text := unifyNewlines cs
    let reader := Reader.ofBytes (encode cs)
    let file := s.runFile patience path (.bytes (encode cs))
    let direct := s.runText patience (String.ofList text) path
    (reader.rest.1.map (lexFrom .origin) = .ok (lex (String.ofList text)) ∧
      file.result = direct.result ∧ file.guarded.printed = direct.guarded.printed ∧
      file.guarded.result = direct.guarded.result) ∧
    (∀ k, (Reader.pull^[k] reader).next.1 = .ok text[k]?) ∧
    IsLines text (Text.lines text) ∧
    (∀ k, (Reader.pull^[k + 1] reader).lines =
      ((Text.lines text).take ((text.take k).count '\n' + 1)).map String.ofList) ∧
    reader.rest.2 = Reader.pull^[text.length + 1] reader := by
  intro text reader file direct
  have hreader : reader = ⟨[], [], Text.lines text, .clean, false⟩ := Reader.ofBytes_encode cs
  have hrest : reader.rest = (.ok text, ⟨(Text.lines text).map String.ofList, [], [], .clean, true⟩) :=
    Reader.rest_ofBytes_encode cs
  have hremaining : reader.remaining = text := by
    simp [hreader, Reader.remaining, Text.flatten_lines]
  have hsound : reader.Sound := by
    rw [hreader]
    exact ⟨rfl, Reader.line_ne_nil⟩
  have hlines := Text.isLines_lines text
  refine ⟨⟨?_, ?_⟩, ?_, hlines, ?_, ?_⟩
  · rw [hrest, lex, String.toList_ofList]
    rfl
  · exact Session.guarded_eq (Reporter.registers_file _ _ _) (Reporter.registers_text _ _ _) rfl s
      patience (s.runFile_eq patience path cs hpath) (s.runText_eq patience path text)
  · intro k
    rw [Reader.next_iterate hsound, hremaining]
  · intro k
    rw [hreader, Reader.lines_taken hlines, List.nil_append]
  · have hall := Reader.pull_iterate_all [] [] (Text.lines text) Reader.line_ne_nil
    rw [List.nil_append, Text.flatten_lines, List.nil_append] at hall
    rw [hrest, hreader, hall]

/-- An open bracket on the last line of a file with all three kinds of line endings. -/
theorem file_runs_as_text_unclosed :
    let s : Session :=
      { reporter := { fatal := false }, sink := .trace { quiet := false }, budget := some 3
        showTokens := true }
    let content := encode "x\r\r\n(y\r".toList
    let file := s.runFile 0 "f.lc" (.bytes content)
    let direct := s.runText 0 "x\n\n(y\n" "f.lc"
    '\x00' ∉ "f.lc".toList ∧ file.result = direct.result ∧
      file.guarded.printed = direct.guarded.printed ∧ file.guarded.result = direct.guarded.result ∧
      (Reader.pull^[3] (Reader.ofBytes content)).lines = ["x\n", "\n"] := by
  intro s content file direct
  have hpath : '\x00' ∉ "f.lc".toList := by decide
  have htext : unifyNewlines "x\r\r\n(y\r".toList = "x\n\n(y\n".toList := by decide
  obtain ⟨⟨-, hresult, hprinted, hend⟩, -, -, hlines, -⟩ :=
    file_runs_as_text s 0 "f.lc" "x\r\r\n(y\r".toList hpath
  rw [htext, String.ofList_toList] at hresult hprinted hend
  have htaken := hlines 2
  rw [htext] at htaken
  exact ⟨hpath, hresult, hprinted, hend, htaken.trans (by decide)⟩

end NormalOrder
