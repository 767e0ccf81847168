import NormalOrder.Proofs.EscapeSequences
import NormalOrder.Proofs.Independence
import NormalOrder.Proofs.Lines
import NormalOrder.Proofs.Places
import NormalOrder.Proofs.Reduction

namespace NormalOrder

open Text (EscapeFree Palette Styled escapeFree_append escapeFree_int escapeFree_nat
  escapeFree_ofList)

namespace Text

theorem escape_notMem_unifyNewlines {cs : List Char} (h : '\x1b' ∉ cs) :
    '\x1b' ∉ unifyNewlines cs := by
  fun_induction unifyNewlines cs with
  | case1 => exact h
  | case2 cs ih => simp_all
  | case3 cs _ ih => simp_all
  | case4 c cs _ _ ih => simp_all

theorem escape_notMem_of_mem_lines {cs l : List Char} (h : '\x1b' ∉ cs)
    (hl : l ∈ splitAfterNewlines cs) : '\x1b' ∉ l := by
  intro hmem
  rw [← flatten_splitAfterNewlines cs] at h
  exact h (List.mem_flatten_of_mem hl hmem)

theorem escapeFree_lines {ls : List (List Char)} (h : ∀ l ∈ ls, '\x1b' ∉ l) :
    ∀ line ∈ ls.map String.ofList, EscapeFree line := by
  intro line hline
  obtain ⟨l, hl, rfl⟩ := List.mem_map.mp hline
  exact (escapeFree_ofList l).mpr (h l hl)

end Text

section

variable {p q : Palette}

/-- The two say the same, one by the palette `p` and the other by `q`. -/
structure Diagnostic.Alike (p q : Palette) (d e : Diagnostic) : Prop where
  message : d.message.Alike p q e.message
  span : d.span = e.span
  excerpt : d.excerpt = e.excerpt
  internal : d.internal = e.internal

theorem Diagnostic.alike_of_message {s t : Styled} (h : s.Alike p q t) (span : Option Span)
    (excerpt internal : Bool) :
    Diagnostic.Alike p q ⟨s, span, excerpt, internal⟩ ⟨t, span, excerpt, internal⟩ :=
  ⟨h, rfl, rfl, rfl⟩

/-- The two are reported by diagnostics that are alike. -/
def Failure.Alike (p q : Palette) (f g : Failure) : Prop :=
  List.Forall₂ (Diagnostic.Alike p q) (f.causes ++ [@Failure.diagnostic p f])
    (g.causes ++ [@Failure.diagnostic q g])

theorem Failure.alike_general {d e : Diagnostic} (h : d.Alike p q e) :
    (Failure.general d).Alike p q (.general e) :=
  .cons h .nil

/-- The two stop a run alike. -/
inductive Fault.Alike (p q : Palette) : Fault → Fault → Prop where
  | failure {f g : Failure} (h : f.Alike p q g) : Alike p q (.failure f) (.failure g)
  | interrupted : Alike p q .interrupted .interrupted
  | unforeseen {u : Unforeseen} (h : EscapeFree (u.label ++ ": " ++ u.message)) :
      Alike p q (.unforeseen u) (.unforeseen u)

/-- A run gives the same under both palettes, or is stopped alike. -/
inductive ResultsAlike (p q : Palette) {α : Type} : Except Fault α → Except Fault α → Prop where
  | ok (a : α) : ResultsAlike p q (.ok a) (.ok a)
  | error {x y : Fault} (h : x.Alike p q y) : ResultsAlike p q (.error x) (.error y)

theorem Fault.Alike.exists_failures {x y : Fault} (h : x.Alike p q y) :
    ∃ f g, @Reporter.failureOf p x = some f ∧ @Reporter.failureOf q y = some g ∧ f.Alike p q g := by
  cases h with
  | @failure f g h => exact ⟨f, g, rfl, rfl, h⟩
  | interrupted =>
    refine ⟨_, _, rfl, rfl, ?_⟩
    apply Failure.alike_general
    apply Diagnostic.alike_of_message
    exact Styled.alike_plain (by decide)
  | unforeseen h =>
    refine ⟨_, _, rfl, rfl, ?_⟩
    apply Failure.alike_general
    apply Diagnostic.alike_of_message
    exact Styled.alike_setOff (by decide) h (by decide)

/-- A fault that goes on to the caller says nothing in styles. -/
theorem Fault.Alike.passesOn {x y : Fault} (h : x.Alike p q y) :
    Reporter.passesOn x = Reporter.passesOn y ∧ (Reporter.passesOn y = true → x = y) := by
  cases h with
  | failure => exact ⟨rfl, fun hpasses => by cases hpasses⟩
  | interrupted => exact ⟨rfl, fun _ => rfl⟩
  | unforeseen => exact ⟨rfl, fun _ => rfl⟩

theorem Text.Utf8.Fault.escapeFree_message (f : Text.Utf8.Fault) : EscapeFree f.message := by
  obtain ⟨reason, offset, bytes⟩ := f
  have hreason : EscapeFree reason.message := by cases reason <;> decide
  have hplace : ∀ place, EscapeFree place →
      EscapeFree ("'utf-8' codec can't decode " ++ place ++ ": " ++ reason.message) := by
    intro place h
    simp only [escapeFree_append, h, hreason]
    decide
  apply hplace
  dsimp only
  split
  · simp only [escapeFree_append, escapeFree_ofList, escapeFree_nat, escape_notMem_hex]
    decide
  · simp only [escapeFree_append, escapeFree_nat]
    decide

namespace LexError

theorem alike_diagnostic {text : List Char} {e : LexError} {d d' : Diagnostic}
    (htext : '\x1b' ∉ text) (he : .error e ∈ lexFrom .origin text)
    (hd : @diagnostic p e = .ok d) (hd' : @diagnostic q e = .ok d') : d.Alike p q d' := by
  obtain ⟨span, before, c, after, -, hcovers, hcause⟩ := Lexer.marks_lexFrom he
  have hc : c ≠ '\x1b' := by
    rintro rfl
    exact htext (by rw [hcovers.text_eq]; simp)
  have hchar : EscapeFree c.toString := by simpa using hc
  obtain ⟨cause, own⟩ := e
  obtain rfl | rfl := hcause
  · rw [@diagnostic_invalidCharacter p] at hd
    rw [@diagnostic_invalidCharacter q] at hd'
    obtain rfl := Except.ok.inj hd
    obtain rfl := Except.ok.inj hd'
    apply Diagnostic.alike_of_message
    exact Styled.alike_setOff_piece (by decide) hchar (by decide)
  · rw [Cause.interrupting, @diagnostic_brokenIdentifier p] at hd
    rw [Cause.interrupting, @diagnostic_brokenIdentifier q] at hd'
    obtain rfl := Except.ok.inj hd
    obtain rfl := Except.ok.inj hd'
    apply Diagnostic.alike_of_message
    apply Styled.alike_plain
    simp only [escapeFree_append, hchar]
    decide

theorem alike_diagnostics {text : List Char} (htext : '\x1b' ∉ text) {errors : List LexError}
    (h : ∀ e ∈ errors, .error e ∈ lexFrom .origin text) {ds ds' : List Diagnostic}
    (hds : List.Forall₂ (fun e d => @diagnostic p e = .ok d) errors ds)
    (hds' : List.Forall₂ (fun e d => @diagnostic q e = .ok d) errors ds') :
    List.Forall₂ (Diagnostic.Alike p q) ds ds' := by
  induction hds generalizing ds' with
  | nil =>
    cases hds'
    exact .nil
  | cons hd _ ih =>
    obtain ⟨he, herrors⟩ := List.forall_mem_cons.mp h
    cases hds' with
    | cons hd' hrest => exact .cons (alike_diagnostic htext he hd hd') (ih herrors hrest)

end LexError

theorem ParseError.Kind.escapeFree_message (k : ParseError.Kind) : EscapeFree k.message := by
  cases k <;> decide

/-- What is wrong with a source is said alike if the source has no escape character. -/
theorem Fault.alike_parseFailure {text : List Char} {failure : ParseFailure}
    (htext : '\x1b' ∉ text) (h : parse (lexFrom .origin text) = .error failure) :
    (@Fault.ofParseFailure p failure).Alike p q (@Fault.ofParseFailure q failure) := by
  cases failure with
  | structural e =>
    have hmessage := Styled.alike_plain (p := p) (q := q) e.kind.escapeFree_message
    exact .failure (.cons (Diagnostic.alike_of_message hmessage _ _ _) .nil)
  | lexical errors =>
    obtain ⟨causes, hcauses, hall⟩ := @Fault.ofLexErrors_eq p errors
    obtain ⟨causes', hcauses', hall'⟩ := @Fault.ofLexErrors_eq q errors
    have halike := LexError.alike_diagnostics htext (Parsing.mem_of_lexical h) hall hall'
    have hcount : causes.length = causes'.length := halike.length_eq
    have hnoun : EscapeFree (if 1 < causes.length then " lexing errors" else " lexing error") := by
      split <;> decide
    have hsummary : Diagnostic.Alike p q (@Failure.diagnostic p (.lexical causes))
        (@Failure.diagnostic q (.lexical causes')) := by
      simp only [Failure.diagnostic, ← hcount]
      apply Diagnostic.alike_of_message
      exact Styled.alike_setOff (by decide) (escapeFree_nat causes.length) hnoun
    simp only [Fault.ofParseFailure, hcauses, hcauses']
    exact .failure (List.rel_append halike (.cons hsummary .nil))

namespace Reporter

/-- Neither the path nor a line of the source has an escape character. -/
structure EscapeFree (r : Reporter) : Prop where
  path : ∀ path, r.path = some path → Text.EscapeFree path
  lines : ∀ line ∈ r.lines, Text.EscapeFree line

variable {r : Reporter}

theorem EscapeFree.remove (r : Reporter) : r.remove.EscapeFree :=
  ⟨by simp [Reporter.remove], by simp [Reporter.remove]⟩

theorem EscapeFree.locate (h : r.EscapeFree) (span : Option Span) :
    Text.EscapeFree (r.locate span) := by
  cases hpath : r.path with
  | none =>
    simp only [Reporter.locate, hpath]
    decide
  | some path =>
    have hfree := h.path path hpath
    cases span with
    | none =>
      simp only [Reporter.locate, hpath, escapeFree_append, hfree]
      decide
    | some s =>
      simp only [Reporter.locate, hpath, escapeFree_append, escapeFree_nat, hfree]
      decide

theorem escape_notMem_bareLine {line : String} (h : Text.EscapeFree line) :
    '\x1b' ∉ bareLine line := by
  intro hmem
  have hline : '\x1b' ∈ line.toList.reverse :=
    (List.dropWhile_sublist _).subset (List.mem_reverse.mp hmem)
  exact h (List.mem_reverse.mp hline)

/-- The line that a report shows. -/
theorem EscapeFree.excerpt (h : r.EscapeFree) (severity : Severity) (span : Option Span) :
    Styled.Alike p q (((@Reporter.excerpt p r severity span).map Styled.line).getD [])
      (((@Reporter.excerpt q r severity span).map Styled.line).getD []) := by
  cases span with
  | none => exact Styled.alike_nil
  | some s =>
    cases hline : r.lines[s.first.row]? with
    | none =>
      simp only [Reporter.excerpt, hline, Option.bind_eq_bind, Option.bind_some, Option.bind_none]
      exact Styled.alike_nil
    | some line =>
      have hbare := escape_notMem_bareLine (h.lines line (List.mem_of_getElem? hline))
      have htake (n : Nat) : '\x1b' ∉ (bareLine line).take n :=
        fun hmem => hbare (List.mem_of_mem_take hmem)
      have hdrop (n : Nat) : '\x1b' ∉ (bareLine line).drop n :=
        fun hmem => hbare (List.mem_of_mem_drop hmem)
      have hmarked (m n : Nat) : '\x1b' ∉ ((bareLine line).drop m).take n :=
        fun hmem => hdrop m (List.mem_of_mem_take hmem)
      simp only [Reporter.excerpt, hline, Option.bind_eq_bind, Option.bind_some, Option.pure_def,
        Option.map_some, Option.getD_some]
      refine ((((Styled.alike_plain ?left).append (Styled.alike_boldIn ?marked _)).append
        (Styled.alike_plain ?right)).append (Styled.alike_boldIn ?underline _)).line
      case left =>
        rw [escapeFree_append]
        exact ⟨by decide, (escapeFree_ofList _).mpr (htake _)⟩
      case marked => exact (escapeFree_ofList _).mpr (hmarked _ _)
      case right =>
        rw [escapeFree_append, escapeFree_append, escapeFree_ofList, escapeFree_ofList]
        exact ⟨⟨hdrop _, by decide⟩, by simp⟩
      case underline =>
        rw [escapeFree_ofList]
        simp

theorem EscapeFree.report (h : r.EscapeFree) (severity : Severity) {d e : Diagnostic}
    (hd : d.Alike p q e) :
    (@Reporter.report p r severity d).Alike p q (@Reporter.report q r severity e) := by
  obtain ⟨message, span, excerpt, internal⟩ := d
  obtain ⟨message', span', excerpt', internal'⟩ := e
  obtain ⟨hmessage, hspan, hexcerpt, hinternal⟩ := hd
  cases hspan
  cases hexcerpt
  cases hinternal
  have hlabel : Text.EscapeFree severity.label := by cases severity <;> decide
  have hblame : Styled.Alike p q
      (if internal then @Styled.boldIn p severity.colour "[internal] " else [])
      (if internal then @Styled.boldIn q severity.colour "[internal] " else []) := by
    split
    · exact Styled.alike_boldIn (by decide) _
    · exact Styled.alike_nil
  have hheadline : Styled.Alike p q
      (@Reporter.headline p r severity ⟨message, span, excerpt, internal⟩)
      (@Reporter.headline q r severity ⟨message', span, excerpt, internal⟩) :=
    (((Styled.alike_bold (h.locate span)).append hblame).append
      (Styled.alike_boldIn hlabel _)).append hmessage
  refine hheadline.line.append ?_
  dsimp only
  split
  · exact h.excerpt severity span
  · exact Styled.alike_nil

theorem EscapeFree.throw (h : r.EscapeFree) {f g : Failure} (hf : f.Alike p q g) :
    (@Reporter.throw p r f).1.Alike p q (@Reporter.throw q r g).1 :=
  Styled.alike_flatMap hf fun _ _ hd => h.report .error hd

/-- The same faults are reported, and the same go on to the caller. -/
theorem EscapeFree.settle {α : Type} (h : r.EscapeFree) {x y : Except Fault α}
    (hresult : ResultsAlike p q x y) :
    (@Reporter.settle p α r x).printed.Alike p q (@Reporter.settle q α r y).printed ∧
      (@Reporter.settle p α r x).reporter = (@Reporter.settle q α r y).reporter ∧
      (@Reporter.settle p α r x).result = (@Reporter.settle q α r y).result := by
  cases hresult with
  | ok a => exact ⟨Styled.alike_nil, rfl, rfl⟩
  | error hfault =>
    obtain ⟨f, g, hf, hg, halike⟩ := hfault.exists_failures
    obtain ⟨hpasses, hsame⟩ := hfault.passesOn
    rw [@settle_failure p _ _ _ hf, @settle_failure q _ _ _ hg, hpasses]
    have hthrown := h.throw halike
    split
    · exact ⟨hthrown, rfl, rfl⟩
    · refine ⟨hthrown, rfl, ?_⟩
      dsimp only
      split
      · rename_i hgoesOn
        rw [hsame hgoesOn]
      · rfl

end Reporter

namespace Sink

/-- The term that a quiet trace will print has no escape character. -/
def EscapeFree : Sink → Prop
  | .trace tr => ∀ t, tr.last = some t → t.EscapeFree
  | .collect _ => True

theorem alike_put (s : Sink) {t : Term} (ht : t.EscapeFree) :
    (@put p s t).1.Alike p q (@put q s t).1 := by
  cases s with
  | collect ts => exact Styled.alike_nil
  | trace tr =>
    have hmark : Styled.Alike p q (if tr.steps = 0 then .plain " " else @Styled.boldIn p .cyan "β")
        (if tr.steps = 0 then .plain " " else @Styled.boldIn q .cyan "β") := by
      split
      · exact Styled.alike_plain (by decide)
      · exact Styled.alike_boldIn (by decide) _
    have hterm : (Styled.plain (" " ++ t.text)).Alike p q (Styled.plain (" " ++ t.text)) := by
      apply Styled.alike_plain
      rw [escapeFree_append]
      exact ⟨by decide, ht.text⟩
    have hentry : (@Trace.entry p tr t).Alike p q (@Trace.entry q tr t) := (hmark.append hterm).line
    simp only [put, Trace.put]
    split
    · exact Styled.alike_nil
    · exact hentry

/-- Styles are nothing to a sink. -/
theorem put_snd (p q : Palette) (s : Sink) (t : Term) : (@put p s t).2 = (@put q s t).2 := by
  cases s <;> rfl

theorem escapeFree_put [Palette] (s : Sink) {t : Term} (ht : t.EscapeFree) :
    (s.put t).2.1.EscapeFree := by
  cases s with
  | collect ts => trivial
  | trace tr =>
    intro u hu
    obtain rfl := Option.some.inj hu
    exact ht

theorem EscapeFree.close {s : Sink} (h : s.EscapeFree) : s.close.1.Alike p q s.close.1 := by
  cases s with
  | collect ts => exact Styled.alike_nil
  | trace tr =>
    simp only [Sink.close, Trace.close]
    split
    · rename_i t _ hlast
      exact (Styled.alike_plain (h t hlast).text).line
    · exact Styled.alike_nil

end Sink

namespace Session

/-- Nothing that a session holds has an escape character. -/
structure EscapeFree (s : Session) : Prop where
  reporter : s.reporter.EscapeFree
  sink : s.sink.EscapeFree

/-- The two runs print the same texts, leave the same session, which can go on to report what
stopped them, and end alike. -/
structure Outcome.Alike (p q : Palette) {α : Type} (o o' : Outcome α) : Prop where
  printed : o.printed.Alike p q o'.printed
  session : o.session = o'.session
  reporter : o'.session.reporter.EscapeFree
  result : ResultsAlike p q o.result o'.result

theorem Outcome.Alike.after {α : Type} {o o' : Outcome α} (h : o.Alike p q o') {s t : Styled}
    (hprinted : s.Alike p q t) : (o.after s).Alike p q (o'.after t) :=
  ⟨hprinted.append h.printed, h.session, h.reporter, h.result⟩

theorem EscapeFree.conclude {s : Session} (h : s.EscapeFree) {x y : Except Fault (Option Term)}
    (hresult : ResultsAlike p q x y) : (s.conclude x).Alike p q (s.conclude y) := by
  cases hresult with
  | ok last => exact ⟨h.sink.close, rfl, .remove s.reporter, .ok last⟩
  | error hfault => exact ⟨h.sink.close, rfl, h.reporter, .error hfault⟩

end Session

/-- A run of a term without escape characters, whose names are none of those that are still to be
drawn. -/
structure Run.EscapeFree (r : Run) : Prop where
  session : r.session.EscapeFree
  term : r.term.EscapeFree
  fresh : r.term.FreshFrom r.counter

/-- What was printed so far is alike, and the run goes on in the same way or has ended alike. -/
inductive Progress.Alike (p q : Palette) : Styled × Progress → Styled × Progress → Prop where
  | running {s t : Styled} {r : Run} (hprinted : s.Alike p q t) (hr : r.EscapeFree) :
      Alike p q (s, .running r) (t, .running r)
  | ended {s t : Styled} {a b : Session} {x y : Except Fault (Option Term)}
      (h : Session.Outcome.Alike p q ⟨s, a, x⟩ ⟨t, b, y⟩) :
      Alike p q (s, .ended a x) (t, .ended b y)

theorem Session.EscapeFree.finish {a : Session} (h : a.EscapeFree)
    {x y : Except Fault (Option Term)} (hresult : ResultsAlike p q x y) {s t : Styled}
    (hprinted : s.Alike p q t) : Progress.Alike p q (a.finish x s) (a.finish y t) :=
  .ended ((h.conclude hresult).after hprinted)

namespace Run

variable {r : Run}

/-- Handing on a term and making a step brings in no escape character, and meets no clash. -/
theorem EscapeFree.next (h : r.EscapeFree) :
    Progress.Alike p q (@Run.next p r) (@Run.next q r) := by
  cases hover : r.overBudget with
  | some n =>
    have hremark : Diagnostic.Alike p q (@exhausted p n) (@exhausted q n) := by
      apply Diagnostic.alike_of_message
      exact Styled.alike_setOff (by decide) (escapeFree_int n) (by decide)
    simp only [Run.next, hover]
    exact h.session.finish (.ok r.last) (h.session.reporter.report .warning hremark)
  | none =>
    have hprinted := r.session.sink.alike_put (p := p) (q := q) h.term
    have hsink := @Sink.escapeFree_put q r.session.sink r.term h.term
    have hsame := Sink.put_snd p q r.session.sink r.term
    rcases hp : @Sink.put p r.session.sink r.term with ⟨printed, sink, interrupted⟩
    rcases hq : @Sink.put q r.session.sink r.term with ⟨printed', sink', interrupted'⟩
    rw [hp, hq] at hprinted hsame
    rw [hq] at hsink
    cases hsame
    have hsession : ({ r.session with sink := sink } : Session).EscapeFree :=
      ⟨h.session.reporter, hsink⟩
    -- no name of the term can be drawn, so the step does not clash
    obtain ⟨result, d, hstep, hspec⟩ := Term.step_spec r.term r.counter h.fresh
    have hstep : r.term.step r.counter = (.ok result, d) := hstep
    simp only [Run.next, hover, hp, hq, hstep]
    cases interrupted with
    | true => exact hsession.finish (.error .interrupted) hprinted
    | false =>
      cases result with
      | none => exact hsession.finish (.ok (some r.term)) hprinted
      | some t =>
        exact .running hprinted ⟨hsession, h.term.drawn hspec.1, hspec.1.freshFrom h.fresh⟩

theorem EscapeFree.toEnd (h : r.EscapeFree) (fuel : Nat) :
    (@Run.toEnd p r fuel).Alike p q (@Run.toEnd q r fuel) := by
  induction fuel generalizing r with
  | zero => exact h.session.conclude (.error .interrupted)
  | succ fuel ih =>
    have hnext := h.next (p := p) (q := q)
    generalize hp : @Run.next p r = progress at hnext
    generalize hq : @Run.next q r = progress' at hnext
    cases hnext with
    | running hprinted hr =>
      rw [@toEnd_of_running p _ _ _ hp, @toEnd_of_running q _ _ _ hq]
      exact (ih hr).after hprinted
    | ended hended =>
      rw [@toEnd_of_ended p _ _ _ _ hp, @toEnd_of_ended q _ _ _ _ hq]
      exact hended

end Run

theorem Term.escapeFree_of_written {t : Term} (h : ∀ x ∈ t.names, IsWritten x) : t.EscapeFree := by
  intro x hx hmem
  obtain ⟨halphanumeric, -⟩ := (h x hx).2 '\x1b' hmem
  exact absurd halphanumeric (by decide)

/-- What is read of a file has the characters of its text. -/
theorem Reader.escapeFree_rest {content : List UInt8}
    (h : '\x1b' ∉ (Text.Utf8.decode content).1) :
    (∀ line ∈ (Reader.ofBytes content).rest.2.lines, EscapeFree line) ∧
      ∀ cs, (Reader.ofBytes content).rest.1 = .ok cs → '\x1b' ∉ cs := by
  rcases hdecode : Text.Utf8.decode content with ⟨text, ending⟩
  rw [hdecode] at h
  have hpieces (cs : List Char) (hcs : '\x1b' ∉ cs) :
      ∀ l ∈ Text.splitAfterNewlines (Text.unifyNewlines cs), '\x1b' ∉ l :=
    fun l hl => Text.escape_notMem_of_mem_lines (Text.escape_notMem_unifyNewlines hcs) hl
  cases ending with
  | clean =>
    simp only [Reader.ofBytes, hdecode]
    refine ⟨Text.escapeFree_lines fun l hl => hpieces text h l (List.mem_filter.mp hl).1, ?_⟩
    intro cs hcs
    obtain rfl : (Text.lines (Text.unifyNewlines text)).flatten = cs := Except.ok.inj hcs
    rw [Text.flatten_lines]
    exact Text.escape_notMem_unifyNewlines h
  | invalid f =>
    simp only [Reader.ofBytes, hdecode]
    exact ⟨Text.escapeFree_lines (by simp), fun cs hcs => by cases hcs⟩
  | cutShort f =>
    simp only [Reader.ofBytes, hdecode]
    refine ⟨Text.escapeFree_lines fun l hl => ?_, fun cs hcs => by cases hcs⟩
    refine hpieces _ ?_ l (List.dropLast_subset _ hl)
    split
    · exact fun hmem => h (List.dropLast_subset _ hmem)
    · exact h

namespace Session

/-- Neither the text of a source nor the path has an escape character. The text of a file is what its
bytes spell up to the first fault. -/
def Source.EscapeFree : Source → Prop
  | .text source path => Text.EscapeFree source ∧ Text.EscapeFree path
  | .file path .refused => Text.EscapeFree path
  | .file path (.bytes content) => Text.EscapeFree path ∧ '\x1b' ∉ (Text.Utf8.decode content).1

instance (source : Source) : Decidable source.EscapeFree :=
  match source with
  | .text source path => inferInstanceAs (Decidable (Text.EscapeFree source ∧ Text.EscapeFree path))
  | .file path .refused => inferInstanceAs (Decidable (Text.EscapeFree path))
  | .file path (.bytes content) =>
    inferInstanceAs (Decidable (Text.EscapeFree path ∧ '\x1b' ∉ (Text.Utf8.decode content).1))

variable {s : Session}

theorem EscapeFree.register (h : s.EscapeFree) {path : String} (hpath : Text.EscapeFree path)
    {lines : List String} (hlines : ∀ line ∈ lines, Text.EscapeFree line) :
    ({ s with reporter := s.reporter.register path lines } : Session).EscapeFree := by
  refine ⟨⟨?_, hlines⟩, h.sink⟩
  intro own hown
  obtain rfl := Option.some.inj hown
  exact hpath

theorem EscapeFree.start (h : s.EscapeFree) {text : List Char} (htext : '\x1b' ∉ text) :
    Progress.Alike p q (@Session.start p s (lexFrom .origin text))
      (@Session.start q s (lexFrom .origin text)) := by
  have hlisting (lexemes : List Lexeme) : Styled.Alike p q
      (if s.showTokens then
        lexemes.flatMap fun l => Styled.line (@Styled.faint p (lexemeText l)) else [])
      (if s.showTokens then
        lexemes.flatMap fun l => Styled.line (@Styled.faint q (lexemeText l)) else []) := by
    split
    · refine Styled.alike_flatMap (R := Eq) (List.forall₂_refl lexemes) ?_
      rintro l _ rfl
      exact (Styled.alike_piece (escapeFree_lexemeText l) .faint).line
    · exact Styled.alike_nil
  cases hparse : parse (lexFrom .origin text) with
  | error failure =>
    simp only [Session.start, hparse]
    exact .ended ⟨hlisting _, rfl, h.reporter, .error (Fault.alike_parseFailure htext hparse)⟩
  | ok t =>
    have hsource : parse (lex (String.ofList text)) = .ok t := by simpa [lex] using hparse
    simp only [Session.start, hparse]
    exact .running (hlisting _)
      ⟨h, Term.escapeFree_of_written (written_of_parse hsource),
        Term.freshFrom_of_parse hsource 0⟩

theorem alike_complete {begun begun' : Styled × Progress} (h : Progress.Alike p q begun begun')
    (patience : Nat) : (@complete p patience begun).Alike p q (@complete q patience begun') := by
  cases h with
  | running hprinted hr => exact (hr.toEnd _).after hprinted
  | ended h => exact h

/-- A fault before there is a text is reported without the source. -/
theorem EscapeFree.ended (h : s.EscapeFree) {x y : Fault} (hfault : x.Alike p q y) :
    Progress.Alike p q ([], .ended s (.error x)) ([], .ended s (.error y)) :=
  .ended ⟨Styled.alike_nil, rfl, h.reporter, .error hfault⟩

theorem EscapeFree.startText (h : s.EscapeFree) {text path : String}
    (htext : Text.EscapeFree text) (hpath : Text.EscapeFree path) :
    Progress.Alike p q (@Session.startText p s text path) (@Session.startText q s text path) := by
  have hlines := Text.escapeFree_lines fun l => Text.escape_notMem_of_mem_lines (l := l) htext
  exact (h.register hpath hlines).start htext

theorem EscapeFree.startFile (h : s.EscapeFree) {path : String} {file : Opened}
    (hfile : (Source.file path file).EscapeFree) :
    Progress.Alike p q (@Session.startFile p s path file) (@Session.startFile q s path file) := by
  cases hnull : path.toList.contains '\x00' with
  | true =>
    simp only [Session.startFile, hnull, if_true]
    exact h.ended (.unforeseen (by decide))
  | false =>
    cases file with
    | refused =>
      have hpath : Text.EscapeFree path := hfile
      simp only [Session.startFile, hnull, Bool.false_eq_true, if_false]
      refine h.ended (.failure ?_)
      apply Failure.alike_general
      apply Diagnostic.alike_of_message
      exact Styled.alike_setOff (by decide) hpath (by decide)
    | bytes content =>
      obtain ⟨hpath, hcontent⟩ := hfile
      obtain ⟨hlines, htext⟩ := Reader.escapeFree_rest hcontent
      have hregistered := h.register hpath hlines
      simp only [Session.startFile, hnull, Bool.false_eq_true, if_false]
      cases hrest : (Reader.ofBytes content).rest.1 with
      | error f =>
        have hfault : Text.EscapeFree ("UnicodeDecodeError" ++ ": " ++ f.message) := by
          rw [escapeFree_append]
          exact ⟨by decide, f.escapeFree_message⟩
        exact hregistered.ended (.unforeseen hfault)
      | ok cs => exact hregistered.start (htext cs hrest)

theorem EscapeFree.run (h : s.EscapeFree) {source : Source} (hsource : source.EscapeFree)
    (patience : Nat) :
    (@Session.run p s patience source).Alike p q (@Session.run q s patience source) := by
  cases source with
  | text text path => exact alike_complete (h.startText hsource.1 hsource.2) patience
  | file path file => exact alike_complete (h.startFile hsource) patience

theorem escapeFree_awaiting_fresh (quiet : Bool) (budget : Option Int) (showTokens : Bool)
    (interrupt : Option Int) : ((fresh quiet budget showTokens).awaiting interrupt).EscapeFree := by
  refine ⟨⟨?_, ?_⟩, ?_⟩
  · intro path hpath
    cases hpath
  · intro line hline
    cases hline
  · intro t ht
    cases ht

/-- The two guarded runs differ in how styles are shown, and in nothing else. -/
structure Outcome.Matches (p q : Palette) {α : Type} (o o' : Outcome α) : Prop where
  printed : o.printed.Alike p q o'.printed
  session : o.session = o'.session
  result : o.result = o'.result

theorem Outcome.Alike.guarded {α : Type} {o o' : Outcome α} (h : o.Alike p q o') :
    (@Outcome.guarded p α o).Matches p q (@Outcome.guarded q α o') := by
  obtain ⟨hprinted, hreporter, hresult⟩ := h.reporter.settle h.result
  simp only [Outcome.guarded, h.session]
  exact ⟨h.printed.append hprinted, by rw [hreporter], hresult⟩

theorem matches_performAll {quiet : Bool} {budget : Option Int} {showTokens : Bool} {s : Session}
    (hs : Idle quiet budget showTokens s) {calls : List Call}
    (h : ∀ c ∈ calls, c.source.EscapeFree) :
    List.Forall₂ (Outcome.Matches p q) (@performAll p s calls) (@performAll q s calls) := by
  induction calls generalizing s with
  | nil => exact .nil
  | cons c calls ih =>
    obtain ⟨hc, hcalls⟩ := List.forall_mem_cons.mp h
    have hrun := (escapeFree_awaiting_fresh quiet budget showTokens c.interrupt).run
      (p := p) (q := q) hc c.patience
    have hmatches : (@perform p s c).Matches p q (@perform q s c) := by
      rw [@perform_idle _ _ _ p _ hs, @perform_idle _ _ _ q _ hs]
      exact hrun.guarded
    have hidle : Idle quiet budget showTokens (@perform q s c).session := by
      rw [@perform_idle _ _ _ q _ hs]
      exact @idle_perform_fresh _ _ _ q c
    simp only [performAll, hmatches.session]
    exact .cons hmatches (ih hidle hcalls)

end Session

end

namespace Session

/-- What the caller sees of a guarded run: the output, the last term or the fault that is passed on,
and the session afterwards. -/
structure Seen where
  output : String
  result : Except Fault (Option (Option Term))
  session : Session

def Outcome.seen (o : Outcome (Option (Option Term))) : Seen :=
  ⟨o.printed.shown, o.result, o.session⟩

theorem seen_of_matches {on off : Palette} (hon : on.Wraps) (hoff : off.IsBare)
    {coloured bare : List (Outcome (Option (Option Term)))}
    (h : List.Forall₂ (Outcome.Matches on off) coloured bare) :
    bare.map Outcome.seen =
      coloured.map fun o => { o.seen with output := Text.stripped o.seen.output } := by
  induction h with
  | nil => rfl
  | cons ho _ ih =>
    rw [List.map_cons, List.map_cons, ih]
    simp only [Outcome.seen, ho.printed.stripped hon hoff, ho.session, ho.result]

/-- Colours change nothing but escape sequences. Whichever texts and files are run one after the
other, as long as no source and no path has an escape character, and whatever shows the colours, as
long as it wraps a text in escape sequences and leaves it as it is where colours are off: deleting
the escape sequences from the output with colours, of one run and of all, leaves the output without,
and the terms and the session are the same. The bare text of what is printed is that output too. -/
theorem colours_add_escape_sequences (on off : Palette) (hon : on.Wraps) (hoff : off.IsBare)
    (quiet : Bool) (budget : Option Int) (showTokens : Bool) (calls : List Call)
    (h : ∀ c ∈ calls, c.source.EscapeFree) :
    let coloured := @performAll on (fresh quiet budget showTokens) calls
    let bare := @performAll off (fresh quiet budget showTokens) calls
    let output (outcomes : List (Outcome (Option (Option Term)))) : Styled :=
      outcomes.flatMap Outcome.printed
    (bare.map Outcome.seen =
      coloured.map fun o => { o.seen with output := Text.stripped o.seen.output }) ∧
    (output bare).shown = Text.stripped (output coloured).shown ∧
    (output bare).shown = (output coloured).text := by
  intro coloured bare output
  have hmatches : List.Forall₂ (Outcome.Matches on off) coloured bare :=
    matches_performAll idle_fresh h
  have houtput : (output coloured).Alike on off (output bare) :=
    Styled.alike_flatMap hmatches fun _ _ ho => ho.printed
  exact ⟨seen_of_matches hon hoff hmatches, (houtput.stripped hon hoff).symm,
    (houtput.text_eq hoff).symm⟩

/-- A brace that is no character of the alphabet, a file with a carriage return, a run that is stopped
after two terms, and a file that cannot be decoded. -/
theorem colours_add_escape_sequences_brace :
    let calls : List Call := [
      ⟨.text "λx.\x7b x" "<in>", 5, none⟩,
      ⟨.file "y.lc" (.bytes [0x28, 0x0d, 0x0a, 0x79]), 5, none⟩,
      ⟨.text "(λx.x x) λx.x x" "<in>", 5, some 2⟩,
      ⟨.file "z.lc" (.bytes [0x79, 0xff]), 5, none⟩]
    let coloured := @performAll Text.terminal (fresh false (some 3) true) calls
    let bare := @performAll Palette.bare (fresh false (some 3) true) calls
    let output (outcomes : List (Outcome (Option (Option Term)))) : Styled :=
      outcomes.flatMap Outcome.printed
    (Text.terminal.Wraps ∧ Palette.bare.IsBare ∧ ∀ c ∈ calls, c.source.EscapeFree) ∧
    (bare.map Outcome.seen =
      coloured.map fun o => { o.seen with output := Text.stripped o.seen.output }) ∧
    (output bare).shown = Text.stripped (output coloured).shown ∧
    (output bare).shown = (output coloured).text := by
  intro calls coloured bare output
  have h : ∀ c ∈ calls, c.source.EscapeFree := by decide
  exact ⟨⟨Palette.wraps_terminal, Palette.isBare_bare, h⟩,
    colours_add_escape_sequences Text.terminal Palette.bare Palette.wraps_terminal
      Palette.isBare_bare false (some 3) true calls h⟩

end Session

end NormalOrder
