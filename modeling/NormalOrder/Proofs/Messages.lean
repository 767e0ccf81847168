import NormalOrder.Proofs.Places

namespace NormalOrder

open Text (Palette Styled)

namespace Text.Template

/-- The text with every `b` written twice. -/
def doubled (b : Char) (s : String) : String :=
  String.ofList (s.toList.flatMap fun c => if c = b then [c, c] else [c])

/-- Doubling the opening braces and then the closing ones escapes a text. -/
theorem doubled_doubled (s : String) : doubled '\x7d' (doubled '\x7b' s) = escape s := by
  have hchar (c : Char) : ((if c = '\x7b' then [c, c] else [c]).flatMap fun d =>
      if d = '\x7d' then [d, d] else [d]) = if c = '\x7b' || c = '\x7d' then [c, c] else [c] := by
    by_cases hopen : c = '\x7b'
    · simp [hopen]
    · by_cases hclose : c = '\x7d' <;> simp [hopen, hclose]
  simp only [doubled, escape, String.toList_ofList, List.flatMap_assoc, hchar]

end Text.Template

open Text.Template (doubled escape)

namespace LexError

theorem Cause.interrupting_injective {c d : Char}
    (h : Cause.interrupting c = Cause.interrupting d) : c = d := by
  have hmessage := congrArg String.toList (Cause.brokenIdentifier.inj h)
  simpa [Char.toString_eq_singleton] using hmessage

/-- The diagnostic says that the character `c` is invalid, and whether it interrupts an
identifier. -/
def SaysOf (e : LexError) (c : Char) (d : Diagnostic) : Prop :=
  e.cause = .invalidCharacter c ∧ d.message.text = "invalid character '" ++ c.toString ++ "'" ∨
    e.cause = .interrupting c ∧
      d.message.text = "invalid character '" ++ c.toString ++ "' found in an identifier"

theorem exists_saysOf [Palette] {e : LexError} {c : Char}
    (h : e.cause = .invalidCharacter c ∨ e.cause = .interrupting c) :
    ∃ message, e.diagnostic = .ok { message, span := e.span } ∧
      e.SaysOf c { message, span := e.span } := by
  obtain ⟨cause, span⟩ := e
  obtain rfl | rfl : cause = .invalidCharacter c ∨ cause = .interrupting c := h
  · exact ⟨_, diagnostic_invalidCharacter c span, .inl ⟨rfl, by simp [Styled.text]⟩⟩
  · exact ⟨_, diagnostic_brokenIdentifier _ span, .inr ⟨rfl, by simp [Styled.text, Styled.plain]⟩⟩

end LexError

namespace Failure

/-- The template of the message that sums up `n` lexing errors. -/
def summary (n : Nat) : String :=
  "aborting due to \x7b\x7d lexing error" ++ if 1 < n then "s" else ""

theorem summary_eq (n : Nat) :
    summary n = escape "aborting due to " ++ "\x7b\x7d" ++
      escape (if 1 < n then " lexing errors" else " lexing error") := by
  unfold summary
  split <;> decide

/-- The message that sums up lexing errors is what its template makes of their number. -/
theorem message_summary [Palette] (causes : List Diagnostic) :
    ∃ message, Text.Template.message true (summary causes.length) [toString causes.length] =
        .ok message ∧
      message.text = (lexical causes).diagnostic.message.text ∧
      message.shown = (lexical causes).diagnostic.message.shown := by
  refine ⟨_, by rw [summary_eq, Text.Template.message_bare_field], ?_, ?_⟩
  · simp [diagnostic, Styled.text, Styled.plain, Styled.bold, Text.Style.piece, String.append_assoc]
  · simp [diagnostic, Styled.shown, Styled.plain, Styled.bold, Text.Style.piece,
      String.append_assoc]

end Failure

/-- A text with its braces doubled fills to itself. Hence every error of a lexed source has its
diagnostic, which says in plain text which character it is about, and any errors can be summed up as
one failure. -/
theorem lexical_messages_verbatim [Palette] :
    (∀ m : String, escape m = doubled '\x7d' (doubled '\x7b' m) ∧
      Text.Template.format (doubled '\x7d' (doubled '\x7b' m)) [] = .ok m) ∧
    (∀ (source : String) (e : LexError), .error e ∈ lex source →
      ∃ span before c after message, e.span = some span ∧
        span.Covers source.toList before [c] after ∧
        e.diagnostic = .ok { message, span } ∧ e.SaysOf c { message, span }) ∧
    ∀ errors : List LexError, ∃ causes message,
      Fault.ofLexErrors errors = .failure (.lexical causes) ∧
        List.Forall₂ (fun e d => e.diagnostic = .ok d) errors causes ∧
        Text.Template.message true (Failure.summary errors.length) [toString errors.length] =
          .ok message ∧
        message.text = (Failure.lexical causes).diagnostic.message.text ∧
        message.shown = (Failure.lexical causes).diagnostic.message.shown := by
  refine ⟨?escape, ?source, ?list⟩
  case escape =>
    intro m
    rw [Text.Template.doubled_doubled]
    exact ⟨rfl, Text.Template.format_escape m []⟩
  case source =>
    intro source e he
    obtain ⟨span, before, c, after, hspan, hcovers, hcause⟩ := Lexer.marks_lexFrom he
    obtain ⟨message, hdiagnostic, hsays⟩ := LexError.exists_saysOf hcause
    rw [hspan] at hdiagnostic hsays
    exact ⟨span, before, c, after, message, hspan, hcovers, hdiagnostic, hsays⟩
  case list =>
    intro errors
    obtain ⟨causes, hcauses, hall⟩ := Fault.ofLexErrors_eq errors
    obtain ⟨message, hmessage, htext, hcoloured⟩ := Failure.message_summary causes
    rw [← hall.length_eq] at hmessage
    exact ⟨causes, message, hcauses, hall, hmessage, htext, hcoloured⟩

/-- An opening brace that stands alone, and a closing brace inside an identifier. -/
theorem lexical_messages_verbatim_braces :
    let source := "\x7b x\x7dy"
    let opening : LexError := ⟨.invalidCharacter '\x7b', some (.single ⟨0, 0⟩)⟩
    let closing : LexError := ⟨.interrupting '\x7d', some (.single ⟨0, 3⟩)⟩
    (.error opening ∈ lex source ∧ ∃ d, opening.diagnostic = .ok d ∧
        d.message.text = "invalid character '\x7b'") ∧
      (.error closing ∈ lex source ∧ ∃ d, closing.diagnostic = .ok d ∧
        d.message.text = "invalid character '\x7d' found in an identifier") ∧
      ∃ causes, Fault.ofLexErrors [opening, closing] = .failure (.lexical causes) := by
  intro source opening closing
  obtain ⟨-, hsource, hlist⟩ := lexical_messages_verbatim
  have hopening : .error opening ∈ lex source := by decide
  have hclosing : .error closing ∈ lex source := by decide
  refine ⟨⟨hopening, ?_⟩, ⟨hclosing, ?_⟩, ?_⟩
  · obtain ⟨_, _, c, _, _, -, -, hd, hsays⟩ := hsource source opening hopening
    obtain ⟨hcause, htext⟩ | ⟨hcause, -⟩ := hsays
    · obtain rfl : '\x7b' = c := LexError.Cause.invalidCharacter.inj hcause
      exact ⟨_, hd, htext⟩
    · cases hcause
  · obtain ⟨_, _, c, _, _, -, -, hd, hsays⟩ := hsource source closing hclosing
    obtain ⟨hcause, -⟩ | ⟨hcause, htext⟩ := hsays
    · cases hcause
    · obtain rfl : '\x7d' = c := LexError.Cause.interrupting_injective hcause
      exact ⟨_, hd, htext⟩
  · obtain ⟨causes, _, hcauses, -⟩ := hlist [opening, closing]
    exact ⟨causes, hcauses⟩

end NormalOrder
