import NormalOrder.Proofs.Endings
import NormalOrder.Proofs.Places
import NormalOrder.Proofs.Reading

namespace NormalOrder

open Text (Palette Styled sinceNewline untilNewline newlineAfter splitAfterNewlines unifyNewlines)
open Text.Utf8 (encode)

@[simp] theorem Text.Styled.text_plain (s : String) : (Styled.plain s).text = s := by
  simp [Styled.text, Styled.plain]

@[simp] theorem Text.Styled.text_boldIn [Palette] (c : Text.Colour) (s : String) :
    (Styled.boldIn c s).text = s := by
  simp [Styled.text, Styled.boldIn, Text.Style.piece]

namespace Reporter

/-- The reporter knows `text` as the source `path`, with or without an empty piece at the end. -/
structure Registers (r : Reporter) (path : String) (text : List Char) : Prop where
  path_eq : r.path = some path
  lines_eq : r.lines = (splitAfterNewlines text).map String.ofList ∨
    r.lines = (Text.lines text).map String.ofList

theorem registers_text (r : Reporter) (path : String) (text : List Char) :
    (r.register path ((splitAfterNewlines text).map String.ofList)).Registers path text :=
  ⟨rfl, .inl rfl⟩

theorem registers_file (r : Reporter) (path : String) (text : List Char) :
    (r.register path ((Text.lines text).map String.ofList)).Registers path text :=
  ⟨rfl, .inr rfl⟩

theorem Registers.line_at {r : Reporter} {path : String} {text before word after : List Char}
    {span : Span} (h : r.Registers path text) (hspan : span.Covers text before word after) :
    r.lines[span.first.row]? = some (String.ofList
      (sinceNewline before ++ word ++ untilNewline after ++ newlineAfter after)) := by
  have hrow : span.first.row = before.count '\n' := by rw [hspan.first_eq, Point.after_eq]
  have hpiece := Text.getElem?_splitAfterNewlines before (word ++ after)
  rw [Text.untilNewline_append hspan.oneLine, Text.newlineAfter_append hspan.oneLine,
    ← List.append_assoc before, ← hspan.text_eq, ← hrow] at hpiece
  rw [List.append_assoc, List.append_assoc, ← List.append_assoc word]
  obtain hlines | hlines := h.lines_eq
  · rw [hlines, List.getElem?_map, hpiece, Option.map_some]
  · -- the line holds the word, so it is not the empty piece that a file lacks
    have hline := Text.getElem?_lines (by simp [hspan.nonempty]) hpiece
    rw [hlines, List.getElem?_map, hline, Option.map_some]

theorem dropWhile_newline {cs : List Char} (h : '\n' ∉ cs) : cs.dropWhile (· = '\n') = cs := by
  cases cs with
  | nil => rfl
  | cons c cs =>
    simp only [List.mem_cons, not_or] at h
    simp [Ne.symm h.1]

theorem bareLine_feed {line : List Char} (h : '\n' ∉ line) (after : List Char) :
    bareLine (String.ofList (line ++ newlineAfter after)) = line := by
  have hline : '\n' ∉ line.reverse := by simpa using h
  obtain hfeed | hfeed := Text.newlineAfter_cases after
  · rw [hfeed, List.append_nil, bareLine, String.toList_ofList, dropWhile_newline hline,
      List.reverse_reverse]
  · have hdrop : ('\n' :: line.reverse).dropWhile (· = '\n') = line.reverse := by
      rw [List.dropWhile_cons_of_pos (by simp), dropWhile_newline hline]
    rw [hfeed, bareLine, String.toList_ofList, List.reverse_append, List.reverse_singleton,
      List.singleton_append, hdrop, List.reverse_reverse]

/-- The line with an underline below it. -/
def underlined (line : List Char) (start width : Nat) : String :=
  "  " ++ String.ofList line ++ "\n  " ++ String.ofList (List.replicate start ' ') ++
    "^" ++ String.ofList (List.replicate (width - 1) '~')

/-- Where the reporter says `span` is, and how it shows the `word` there in its line. -/
structure Underlines [Palette] (r : Reporter) (path : String) (span : Span)
    (line word : List Char) : Prop where
  oneRow : span.last.row = span.first.row
  bare : '\n' ∉ line
  registered : r.lines[span.first.row]? = some (String.ofList line) ∨
    r.lines[span.first.row]? = some (String.ofList (line ++ ['\n']))
  width : span.last.column + 1 = span.first.column + word.length
  marked : (line.drop span.first.column).take word.length = word
  shown : ∀ severity, (r.excerpt severity (some span)).map Styled.text =
    some (underlined line span.first.column word.length)
  located : r.locate (some span) = path ++ ":" ++ toString (span.first.row + 1) ++ ":" ++
    toString (span.first.column + 1) ++ ": "

theorem excerpt_text [Palette] {r : Reporter} {span : Span} {left word right after : List Char}
    (hline : r.lines[span.first.row]? =
      some (String.ofList (left ++ word ++ right ++ newlineAfter after)))
    (hbare : '\n' ∉ left ++ word ++ right) (hword : word ≠ [])
    (hrow : span.last.row = span.first.row) (hfirst : span.first.column = left.length)
    (hlast : span.last.column + 1 = span.first.column + word.length) (severity : Severity) :
    (r.excerpt severity (some span)).map Styled.text =
      some (underlined (left ++ word ++ right) span.first.column word.length) := by
  have hstop : endColumn span (left ++ word ++ right).length = left.length + word.length := by
    have hpositive := List.length_pos_iff.mpr hword
    simp only [endColumn, hrow, if_true, hlast, hfirst, List.length_append]
    omega
  have htake : (left ++ word ++ right).take left.length = left := by simp
  have hmarked : ((left ++ word ++ right).drop left.length).take
      (left.length + word.length - left.length) = word := by simp
  have hdrop : (left ++ word ++ right).drop (left.length + word.length) = right := by
    rw [← List.length_append, List.drop_left]
  have hunderline : String.ofList ('^' :: List.replicate (word.length - 1) '~') =
      "^" ++ String.ofList (List.replicate (word.length - 1) '~') := by
    rw [← List.singleton_append, String.ofList_append]
  rw [← hfirst, Nat.add_sub_cancel_left] at hmarked
  rw [← hfirst] at htake hdrop hstop
  simp only [excerpt, hline, Option.bind_eq_bind, Option.bind_some, Option.pure_def, Option.map_some,
    bareLine_feed hbare, hstop, Nat.add_sub_cancel_left, htake, hmarked, hdrop, hunderline]
  simp only [Styled.text_append, Styled.text_plain, Styled.text_boldIn, underlined,
    String.ofList_append, String.append_assoc]

theorem Registers.underlines [Palette] {r : Reporter} {path : String}
    {text before word after : List Char}
    {span : Span} (h : r.Registers path text) (hspan : span.Covers text before word after) :
    r.Underlines path span (sinceNewline before ++ word ++ untilNewline after) word := by
  have hline := h.line_at hspan
  have hfirst : span.first = ⟨before.count '\n', (sinceNewline before).length⟩ := by
    rw [hspan.first_eq, Point.after_eq]
  have hlast := hspan.last_point
  have hrow : span.last.row = span.first.row := by rw [hlast, hfirst]
  have hcolumn : span.first.column = (sinceNewline before).length := by rw [hfirst]
  have hwidth : span.last.column + 1 = span.first.column + word.length := by
    have hpositive := List.length_pos_iff.mpr hspan.nonempty
    rw [hlast, hfirst]
    dsimp only
    omega
  have hbare : '\n' ∉ sinceNewline before ++ word ++ untilNewline after := by
    simp [hspan.oneLine, Text.newline_notMem_sinceNewline, Text.newline_notMem_untilNewline]
  refine ⟨hrow, hbare, ?_, hwidth, ?_, ?_, ?_⟩
  · obtain hfeed | hfeed := Text.newlineAfter_cases after
    · rw [hfeed, List.append_nil] at hline
      exact .inl hline
    · rw [hfeed] at hline
      exact .inr hline
  · rw [hcolumn, List.append_assoc, List.drop_left, List.take_left]
  · exact excerpt_text hline hbare hspan.nonempty hrow hcolumn hwidth
  · simp only [locate, h.path_eq]

end Reporter

namespace Session

/-- A run of `text`, called `path`: of the text as it is, or of a file that holds it in UTF-8 with
whatever line endings. -/
inductive Runs [Palette] (s : Session) (patience : Nat) (path : String) (text : List Char) :
    Outcome (Option Term) → Prop
  | text : Runs s patience path text (s.runText patience (String.ofList text) path)
  | file (cs : List Char) (hpath : '\x00' ∉ path.toList) (htext : unifyNewlines cs = text) :
      Runs s patience path text (s.runFile patience path (.bytes (encode cs)))

theorem runText_eq [Palette] (s : Session) (patience : Nat) (path : String) (text : List Char) :
    s.runText patience (String.ofList text) path =
      complete patience
        ({ s with
            reporter := s.reporter.register path ((splitAfterNewlines text).map String.ofList) }.start
          (lexFrom .origin text)) := by
  rw [runText, startText, lex, String.toList_ofList]

theorem runFile_eq [Palette] (s : Session) (patience : Nat) (path : String) (cs : List Char)
    (hpath : '\x00' ∉ path.toList) :
    s.runFile patience path (.bytes (encode cs)) =
      complete patience
        ({ s with
            reporter := s.reporter.register path
              ((Text.lines (unifyNewlines cs)).map String.ofList) }.start
          (lexFrom .origin (unifyNewlines cs))) := by
  have hclear : path.toList.contains '\x00' = false := by simpa using hpath
  simp only [runFile, startFile, hclear, Reader.rest_ofBytes_encode, Bool.false_eq_true, if_false]

theorem Runs.exists_reporter [Palette] {s : Session} {patience : Nat} {path : String}
    {text : List Char} {o : Outcome (Option Term)} (h : s.Runs patience path text o) :
    ∃ r : Reporter, r.Registers path text ∧
      o = complete patience ({ s with reporter := r }.start (lexFrom .origin text)) := by
  cases h with
  | text => exact ⟨_, Reporter.registers_text _ _ _, runText_eq s patience path text⟩
  | file cs hpath htext =>
    subst htext
    exact ⟨_, Reporter.registers_file _ _ _, runFile_eq s patience path cs hpath⟩

end Session

namespace Reporter

/-- The spot of `text` at `span`: `word` stands there, and the reporter shows its line with exactly
`word` underlined. -/
def PointsOut [Palette] (r : Reporter) (path : String) (text : List Char) (span : Span)
    (word : List Char) :
    Prop :=
  ∃ before after, span.Covers text before word after ∧
    r.Underlines path span (sinceNewline before ++ word ++ untilNewline after) word

/-- The token of `text` at `span` is pointed out. -/
def PointsOutToken [Palette] (r : Reporter) (path : String) (text : List Char)
    (span : Span) : Prop :=
  ∃ token word, .ok token ∈ lexFrom .origin text ∧ token.span = some span ∧
    token.kind.IsSpelling word ∧ r.PointsOut path text span word

/-- The character that a lexing error is about is pointed out by its diagnostic. -/
def PointsOutCharacter [Palette] (r : Reporter) (path : String) (text : List Char) (e : LexError)
    (d : Diagnostic) : Prop :=
  e.diagnostic = .ok d ∧ ∃ span c, d.span = some span ∧
    (e.cause = .invalidCharacter c ∨ e.cause = .interrupting c) ∧ r.PointsOut path text span [c]

theorem Registers.pointsOutToken [Palette] {r : Reporter} {path : String} {text : List Char}
    {e : ParseError} {span : Span} (h : r.Registers path text)
    (he : parse (lexFrom .origin text) = .error (.structural e)) (hspan : e.span = some span) :
    r.PointsOutToken path text span := by
  obtain ⟨token, hmem, htoken, own, before, word, after, hown, hcovers, hword⟩ :=
    Parsing.structural_stands he hspan
  obtain rfl : own = span := Option.some.inj (hown.symm.trans htoken)
  exact ⟨token, word, hmem, htoken, hword, before, after, hcovers, h.underlines hcovers⟩

theorem Registers.pointsOutCharacter [Palette] {r : Reporter} {path : String} {text : List Char}
    {e : LexError}
    {d : Diagnostic} (h : r.Registers path text) (he : .error e ∈ lexFrom .origin text)
    (hd : e.diagnostic = .ok d) : r.PointsOutCharacter path text e d := by
  obtain ⟨span, before, c, after, hspan, hcovers, hcause⟩ := Lexer.marks_lexFrom he
  have hdspan : d.span = some span := by rw [LexError.span_of_diagnostic hd, hspan]
  exact ⟨hd, span, c, hdspan, hcause, before, after, hcovers, h.underlines hcovers⟩

end Reporter

/-- A parse that fails ends the run, and every error in it that has a span is pointed out: the token
that a structural error is about, and the character that each lexing error is about. -/
theorem diagnosis_underlines_offender [Palette] {s : Session} {patience : Nat} {path : String}
    {text : List Char} {o : Session.Outcome (Option Term)} (h : s.Runs patience path text o) :
    (∀ e, parse (lexFrom .origin text) = .error (.structural e) →
      o.result = .error (.failure (.parse e)) ∧
        ∀ span, e.span = some span → o.session.reporter.PointsOutToken path text span) ∧
      ∀ errors, parse (lexFrom .origin text) = .error (.lexical errors) →
        ∃ causes, o.result = .error (.failure (.lexical causes)) ∧
          List.Forall₂ (o.session.reporter.PointsOutCharacter path text) errors causes := by
  obtain ⟨r, hr, rfl⟩ := h.exists_reporter
  constructor
  · intro e he
    obtain ⟨hsession, hresult⟩ := Session.complete_start_error he { s with reporter := r } patience
    rw [hsession, hresult]
    refine ⟨rfl, ?_⟩
    intro span hspan
    exact hr.pointsOutToken he hspan
  · intro errors he
    obtain ⟨hsession, hresult⟩ := Session.complete_start_error he { s with reporter := r } patience
    obtain ⟨causes, hcauses, hall⟩ := Fault.ofLexErrors_eq errors
    rw [hsession, hresult]
    refine ⟨causes, by rw [Fault.ofParseFailure, hcauses], ?_⟩
    have hlexemes := Parsing.mem_of_lexical he
    refine ((List.forall₂_and_left _ _).mpr ⟨hlexemes, hall⟩).imp ?_
    rintro e d ⟨hmem, hd⟩
    exact hr.pointsOutCharacter hmem hd

/-- A binder without a body on the second line of a file, and a stray character inside an identifier
after a form feed, which begins no line. -/
theorem diagnosis_underlines_binder :
    let s : Session := { reporter := { fatal := true }, sink := .collect [] }
    let cs := "f\r\n λ foo.".toList
    let span : Span := ⟨⟨1, 3⟩, ⟨1, 5⟩⟩
    let file := s.runFile 0 "f.lc" (.bytes (encode cs))
    let text := "x\x0cy!z".toList
    let expression := s.runText 0 (String.ofList text) "<expr>"
    let bang : LexError := ⟨.interrupting '!', some (.single ⟨0, 3⟩)⟩
    (file.result = .error (.failure (.parse ⟨.missingBody, some span⟩)) ∧
      file.session.reporter.PointsOutToken "f.lc" (unifyNewlines cs) span) ∧
      ∃ causes, expression.result = .error (.failure (.lexical causes)) ∧
        List.Forall₂ (expression.session.reporter.PointsOutCharacter "<expr>" text) [bang] causes := by
  intro s cs span file text expression bang
  have hfile : parse (lexFrom .origin (unifyNewlines cs)) =
      .error (.structural ⟨.missingBody, some span⟩) := by decide
  have htext : parse (lexFrom .origin text) = .error (.lexical [bang]) := by decide
  have hruns : s.Runs 0 "f.lc" (unifyNewlines cs) file := .file cs (by decide) rfl
  have hexpression : s.Runs 0 "<expr>" text expression := .text
  obtain ⟨hresult, hpointed⟩ := (diagnosis_underlines_offender hruns).1 _ hfile
  exact ⟨⟨hresult, hpointed span rfl⟩, (diagnosis_underlines_offender hexpression).2 _ htext⟩

end NormalOrder
