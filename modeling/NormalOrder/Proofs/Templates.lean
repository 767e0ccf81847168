import NormalOrder.Fault
import Mathlib.Data.List.Forall2

namespace NormalOrder

namespace Text.Template

theorem parts_escape_append (s : String) (cs : List Char) :
    parts .text ((escape s).toList ++ cs) =
      (s.toList.map fun c => .ok (.literal c)) ++ parts .text cs := by
  rw [escape, String.toList_ofList]
  induction s.toList with
  | nil => rfl
  | cons c cs ih =>
    -- the first of two braces opens something, and the second makes a literal of it
    by_cases hopen : c = '\x7b'
    · simpa [hopen, parts, Mode.step] using ih
    · by_cases hclose : c = '\x7d'
      · simpa [hclose, parts, Mode.step] using ih
      · simpa [hopen, hclose, parts, Mode.step] using ih

theorem parts_escape (s : String) :
    parts .text (escape s).toList = s.toList.map fun c => .ok (.literal c) := by
  simpa [parts, Mode.atEnd] using parts_escape_append s []

theorem fillParts_literals (fillLayout : Filling) (args : List (List Char)) (numbering : Numbering)
    (cs ds : List Char) (ps : List (Except Error Part)) (after : Numbering)
    (h : fillParts fillLayout args numbering ps = .ok (ds, after)) :
    fillParts fillLayout args numbering ((cs.map fun c => .ok (.literal c)) ++ ps) =
      .ok (cs ++ ds, after) := by
  induction cs with
  | nil => exact h
  | cons c cs ih =>
    rw [List.map_cons, List.cons_append, fillParts, ih]
    rfl

theorem format_escape (s : String) (args : List String) : format (escape s) args = .ok s := by
  have hfill := fillParts_literals (fill (args.map String.toList) 1) (args.map String.toList)
    .undecided s.toList [] [] .undecided rfl
  rw [List.append_nil, List.append_nil, ← parts_escape] at hfill
  rw [format, fill, hfill]
  simp [bind, Except.bind, pure, Except.pure]

theorem parts_bare_field (cs : List Char) :
    parts .text ('\x7b' :: '\x7d' :: cs) = .ok (.field { name := [] }) :: parts .text cs := rfl

/-- A field that asks for nothing is the argument itself. -/
theorem fill_bare_field (fillLayout : Filling) (arg : List Char) :
    Field.fill fillLayout [arg] .undecided { name := [] } = .ok (arg, .automatic 1) := by
  have hvalue : Field.value [arg] .undecided { name := [] } = .ok (arg, .automatic 1) := rfl
  have hlayout : Layout.read [] = .ok {} := rfl
  simp [Field.fill, hvalue, convert, hlayout, bind, Except.bind, pure, Except.pure, Except.mapError]

/-- A field between two escaped texts is filled, and the texts stay what they are. -/
theorem format_bare_field (before after arg : String) :
    format (escape before ++ "\x7b\x7d" ++ escape after) [arg] = .ok (before ++ arg ++ after) := by
  have hparts : parts .text (escape before ++ "\x7b\x7d" ++ escape after).toList =
      (before.toList.map fun c => .ok (.literal c)) ++
        (.ok (.field { name := [] }) :: after.toList.map fun c => .ok (.literal c)) := by
    have hfield : "\x7b\x7d".toList = ['\x7b', '\x7d'] := by decide
    rw [String.toList_append, String.toList_append, List.append_assoc, parts_escape_append, hfield,
      List.cons_append, List.singleton_append, parts_bare_field, parts_escape]
  have hafter := fillParts_literals (fill [arg.toList] 1) [arg.toList] (.automatic 1)
    after.toList [] [] (.automatic 1) rfl
  rw [List.append_nil, List.append_nil] at hafter
  have htail : fillParts (fill [arg.toList] 1) [arg.toList] .undecided
      (.ok (.field { name := [] }) :: after.toList.map fun c => .ok (.literal c)) =
      .ok (arg.toList ++ after.toList, .automatic 1) := by
    rw [fillParts, fill_bare_field]
    simp [hafter, bind, Except.bind, pure, Except.pure]
  have hfill := fillParts_literals (fill [arg.toList] 1) [arg.toList] .undecided
    before.toList _ _ _ htail
  rw [← hparts] at hfill
  rw [format, List.map_singleton, fill, hfill]
  simp [bind, Except.bind, pure, Except.pure, String.append_assoc]

theorem message_bare_field [Palette] (before after arg : String) :
    message true (escape before ++ "\x7b\x7d" ++ escape after) [arg] =
      .ok [⟨before ++ arg ++ after, before ++ Palette.paint .bold arg ++ after⟩] := by
  simp only [message, List.map_singleton, format_bare_field]
  rfl

theorem format_invalid_character (arg : String) :
    format "invalid character '\x7b\x7d'" [arg] = .ok ("invalid character '" ++ arg ++ "'") := by
  have htemplate : "invalid character '\x7b\x7d'" =
      escape "invalid character '" ++ "\x7b\x7d" ++ escape "'" := by decide
  rw [htemplate, format_bare_field]

end Text.Template

open Text (Palette)

namespace LexError

theorem message_invalidCharacter [Palette] (c : Char) (span : Option Span) :
    message ⟨.invalidCharacter c, span⟩ =
      .ok [⟨"invalid character '" ++ c.toString ++ "'",
        "invalid character '" ++ Palette.paint .bold c.toString ++ "'"⟩] := by
  simp only [message, Text.Template.message, List.map_singleton,
    Text.Template.format_invalid_character]
  rfl

theorem message_brokenIdentifier [Palette] (m : String) (span : Option Span) :
    message ⟨.brokenIdentifier m, span⟩ = .ok [⟨m, m⟩] := by
  simp only [message, Text.Template.message, List.map_nil, Text.Template.format_escape]
  rfl

theorem diagnostic_invalidCharacter [Palette] (c : Char) (span : Option Span) :
    diagnostic ⟨.invalidCharacter c, span⟩ =
      .ok
        { message := [⟨"invalid character '" ++ c.toString ++ "'",
            "invalid character '" ++ Palette.paint .bold c.toString ++ "'"⟩]
          span := span } := by
  rw [diagnostic, message_invalidCharacter]
  rfl

theorem diagnostic_brokenIdentifier [Palette] (m : String) (span : Option Span) :
    diagnostic ⟨.brokenIdentifier m, span⟩ = .ok { message := .plain m, span := span } := by
  rw [diagnostic, message_brokenIdentifier]
  rfl

theorem exists_diagnostic [Palette]
    (e : LexError) : ∃ d, e.diagnostic = .ok d ∧ d.span = e.span := by
  obtain ⟨cause, span⟩ := e
  cases cause with
  | invalidCharacter c => exact ⟨_, diagnostic_invalidCharacter c span, rfl⟩
  | brokenIdentifier m => exact ⟨_, diagnostic_brokenIdentifier m span, rfl⟩

theorem span_of_diagnostic [Palette] {e : LexError} {d : Diagnostic} (h : e.diagnostic = .ok d) :
    d.span = e.span := by
  obtain ⟨own, hown, hspan⟩ := e.exists_diagnostic
  obtain rfl : d = own := Except.ok.inj (h.symm.trans hown)
  exact hspan

theorem exists_diagnostics [Palette] (errors : List LexError) :
    ∃ causes, errors.mapM diagnostic = .ok causes ∧
      List.Forall₂ (fun e d => e.diagnostic = .ok d) errors causes := by
  induction errors with
  | nil => exact ⟨[], rfl, .nil⟩
  | cons e errors ih =>
    obtain ⟨d, hd, -⟩ := e.exists_diagnostic
    obtain ⟨causes, hcauses, hall⟩ := ih
    refine ⟨d :: causes, ?_, .cons hd hall⟩
    rw [List.mapM_cons, hd, hcauses]
    rfl

theorem exists_error_of_mem [Palette] {errors : List LexError} {causes : List Diagnostic}
    (h : List.Forall₂ (fun e d => e.diagnostic = .ok d) errors causes) :
    ∀ d ∈ causes, ∃ e ∈ errors, e.diagnostic = .ok d := by
  induction h with
  | nil => simp
  | cons hd _ ih =>
    refine List.forall_mem_cons.mpr ⟨⟨_, List.mem_cons_self, hd⟩, ?_⟩
    intro d hmem
    obtain ⟨e, he, hdiagnostic⟩ := ih d hmem
    exact ⟨e, List.mem_cons_of_mem _ he, hdiagnostic⟩

end LexError

/-- Lexing errors always amount to a failure that lists the diagnostic of each of them. -/
theorem Fault.ofLexErrors_eq [Palette] (errors : List LexError) :
    ∃ causes, Fault.ofLexErrors errors = .failure (.lexical causes) ∧
      List.Forall₂ (fun e d => e.diagnostic = .ok d) errors causes := by
  obtain ⟨causes, hcauses, hall⟩ := LexError.exists_diagnostics errors
  refine ⟨causes, ?_, hall⟩
  rw [Fault.ofLexErrors, hcauses]

end NormalOrder
