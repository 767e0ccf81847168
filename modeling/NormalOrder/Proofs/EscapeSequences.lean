import NormalOrder.Proofs.Naming
import NormalOrder.Term.Printer
import NormalOrder.Token.Basic
import NormalOrder.Text.Styled
import Mathlib.Data.List.Forall2

namespace NormalOrder

namespace Text

/-- A character that may stand between the bracket and the last letter of an escape sequence. -/
def isCode (c : Char) : Bool := c.isDigit || c = ';'

/-- The length of the escape sequence that a text begins with: an escape character, a bracket, digits
and semicolons, and the letter `m`. It is zero if there is none. -/
def sequenceLength : List Char → Nat
  | '\x1b' :: '[' :: cs =>
    let codes := cs.takeWhile isCode
    if cs[codes.length]? = some 'm' then codes.length + 3 else 0
  | _ => 0

/-- Deletes the first characters, as many as are given, and every escape sequence behind them. -/
def stripFrom : Nat → List Char → List Char
  | _, [] => []
  | n + 1, _ :: cs => stripFrom n cs
  | 0, c :: cs =>
    match sequenceLength (c :: cs) with
    | 0 => c :: stripFrom 0 cs
    | n + 1 => stripFrom n cs

/-- The text without its escape sequences. -/
def strip (cs : List Char) : List Char := stripFrom 0 cs

def stripped (s : String) : String := String.ofList (strip s.toList)

theorem sequenceLength_of_ne {c : Char} (h : c ≠ '\x1b') (cs : List Char) :
    sequenceLength (c :: cs) = 0 := by
  unfold sequenceLength
  split
  · rename_i heq
    exact absurd (List.cons.inj heq).1 h
  · rfl

theorem strip_append {cs : List Char} (h : '\x1b' ∉ cs) (ds : List Char) :
    strip (cs ++ ds) = cs ++ strip ds := by
  induction cs with
  | nil => rfl
  | cons c cs ih =>
    rw [List.mem_cons, not_or] at h
    have hrest := ih h.2
    simp only [strip] at hrest ⊢
    rw [List.cons_append, stripFrom, sequenceLength_of_ne (Ne.symm h.1)]
    simp only [hrest, List.cons_append]

theorem stripFrom_append (cs ds : List Char) : stripFrom cs.length (cs ++ ds) = strip ds := by
  induction cs with
  | nil => rfl
  | cons c cs ih => exact ih

theorem sequenceLength_escapeSequence {code : List Char} (h : ∀ c ∈ code, isCode c = true)
    (ds : List Char) :
    sequenceLength ('\x1b' :: '[' :: (code ++ 'm' :: ds)) = code.length + 3 := by
  have hcodes : (code ++ 'm' :: ds).takeWhile isCode = code := by
    rw [List.takeWhile_append_of_pos h, List.takeWhile_cons_of_neg (by decide), List.append_nil]
  simp [sequenceLength, hcodes]

/-- The characters are escape sequences, one after the other. -/
inductive IsSequences : List Char → Prop where
  | nil : IsSequences []
  | cons {code rest : List Char} (hcode : ∀ c ∈ code, isCode c = true) (hrest : IsSequences rest) :
      IsSequences ('\x1b' :: '[' :: (code ++ 'm' :: rest))

theorem strip_sequences {cs : List Char} (h : IsSequences cs) (ds : List Char) :
    strip (cs ++ ds) = strip ds := by
  induction h with
  | nil => rfl
  | @cons code rest hcode _ ih =>
    have hskip := stripFrom_append ('[' :: (code ++ ['m'])) (rest ++ ds)
    have hsplit : '\x1b' :: '[' :: (code ++ 'm' :: rest) ++ ds =
        '\x1b' :: '[' :: (code ++ 'm' :: (rest ++ ds)) := by simp
    rw [hsplit, strip, stripFrom, sequenceLength_escapeSequence hcode]
    simpa [ih] using hskip

theorem isSequences_append {cs ds : List Char} (hcs : IsSequences cs) (hds : IsSequences ds) :
    IsSequences (cs ++ ds) := by
  induction hcs with
  | nil => exact hds
  | cons hcode _ ih => simpa using IsSequences.cons hcode ih

theorem isSequences_escapeSequence {code : String} (h : code.toList.all isCode = true) :
    IsSequences (escapeSequence code).toList := by
  have hone := IsSequences.cons (List.all_eq_true.mp h) .nil
  simpa [escapeSequence] using hone

/-- What begins like a sequence but does not end like one stays. -/
example : stripped "\x1b[1;31mx\x1b[2;y" = "x\x1b[2;y" := by decide

namespace Palette

/-- The palette shows styles by escape sequences on both sides of a text. -/
def Wraps (p : Palette) : Prop :=
  ∀ style s, ∃ before after : String, IsSequences before.toList ∧ IsSequences after.toList ∧
    p.paint style s = before ++ s ++ after

/-- The palette shows no styles. -/
def IsBare (p : Palette) : Prop := ∀ style s, p.paint style s = s

/-- The palette of a terminal without colours. -/
abbrev bare : Palette where
  paint _ s := s

theorem isBare_bare : bare.IsBare := fun _ _ => rfl

theorem wraps_terminal : terminal.Wraps := by
  intro style s
  refine ⟨style.opening, reset, ?_, isSequences_escapeSequence (by decide), rfl⟩
  cases style with
  | bold => exact isSequences_escapeSequence (by decide)
  | faint => exact isSequences_escapeSequence (by decide)
  | boldIn colour =>
    have hcode : colour.code.toList.all isCode = true := by cases colour <;> decide
    rw [Style.opening, String.toList_append]
    exact isSequences_append (isSequences_escapeSequence (by decide))
      (isSequences_escapeSequence hcode)

end Palette

/-- No character of the text begins an escape sequence. -/
def EscapeFree (s : String) : Prop := '\x1b' ∉ s.toList

instance (s : String) : Decidable (EscapeFree s) := inferInstanceAs (Decidable ('\x1b' ∉ s.toList))

@[simp] theorem escapeFree_append (s t : String) :
    EscapeFree (s ++ t) ↔ EscapeFree s ∧ EscapeFree t := by
  simp [EscapeFree]

@[simp] theorem escapeFree_ofList (cs : List Char) : EscapeFree (String.ofList cs) ↔ '\x1b' ∉ cs := by
  simp [EscapeFree]

@[simp] theorem escapeFree_singleton (c : Char) : EscapeFree (String.singleton c) ↔ c ≠ '\x1b' := by
  simp [EscapeFree, eq_comm]

theorem escape_notMem_toDigits {b : Nat} (hb : 1 < b) (n : Nat) : '\x1b' ∉ Nat.toDigits b n := by
  have hdigit (n : Nat) : n.digitChar ≠ '\x1b' := Nat.digitChar_ne '\x1b' (by decide)
  induction n using Nat.strongRecOn with
  | ind n ih =>
    rw [Nat.toDigits_eq_if hb]
    split
    · simp [(hdigit n).symm]
    · have hlt : n / b < n := Nat.div_lt_self (by omega) hb
      simp [ih (n / b) hlt, (hdigit (n % b)).symm]

theorem escapeFree_nat (n : Nat) : EscapeFree (toString n) := by
  rw [Nat.toString_eq_ofList_toDigits, escapeFree_ofList]
  exact escape_notMem_toDigits (by decide) n

theorem escapeFree_int (n : Int) : EscapeFree (toString n) := by
  cases n with
  | ofNat n => exact escapeFree_nat n
  | negSucc n => exact (escapeFree_append "-" _).mpr ⟨by decide, escapeFree_nat (n + 1)⟩

@[simp] theorem escape_notMem_hex (width n : Nat) : '\x1b' ∉ hex width n := by
  simp [hex, escape_notMem_toDigits]

theorem escape_notMem_quotedChar {q : Char} (hq : q ≠ '\x1b') (c : Char) :
    '\x1b' ∉ quotedChar isPrintable q c := by
  unfold quotedChar
  split_ifs with hquote _ _ _ hshown
  · have hc : c ≠ '\x1b' := by
      rintro rfl
      simp only [Bool.or_eq_true, decide_eq_true_eq] at hquote
      obtain hback | hsame := hquote
      · exact absurd hback (by decide)
      · exact hq hsame.symm
    simpa using hc.symm
  · decide
  · decide
  · decide
  · have hc : c ≠ '\x1b' := by
      rintro rfl
      exact absurd hshown (by decide)
    simpa using hc.symm
  all_goals simp

/-- A quoted text has no escape character, even if the text has some. -/
theorem escapeFree_quoted (s : String) : EscapeFree (quoted s) := by
  have hq : quoteFor s.toList ≠ '\x1b' := by
    unfold quoteFor
    split <;> decide
  have hbody : '\x1b' ∉ s.toList.flatMap (quotedChar isPrintable (quoteFor s.toList)) := by
    intro h
    obtain ⟨c, -, hc⟩ := List.mem_flatMap.mp h
    exact escape_notMem_quotedChar hq c hc
  rw [quoted, quotedBy, escapeFree_ofList]
  simp [hq.symm, hbody]

/-- A text, and the style that it is shown in if it has one. -/
structure Part where
  style : Option Style
  text : String

/-- What the palette makes of a part. -/
def Palette.write (p : Palette) : Part → String
  | ⟨none, s⟩ => s
  | ⟨some style, s⟩ => p.paint style s

theorem Palette.IsBare.join_write {p : Palette} (hp : p.IsBare) (parts : List Part) :
    String.join (parts.map p.write) = String.join (parts.map Part.text) := by
  congr 1
  apply List.map_congr_left
  rintro ⟨style, s⟩ -
  cases style with
  | none => rfl
  | some style => exact hp style s

/-- Where no part has an escape character of its own, those that a palette wraps it in are all that
is deleted. -/
theorem Palette.Wraps.strip_write {p : Palette} (hp : p.Wraps) {parts : List Part}
    (h : ∀ part ∈ parts, EscapeFree part.text) :
    strip (String.join (parts.map p.write)).toList =
      (String.join (parts.map Part.text)).toList := by
  induction parts with
  | nil => rfl
  | cons part parts ih =>
    obtain ⟨hpart, hparts⟩ := List.forall_mem_cons.mp h
    have hrest := ih hparts
    rw [List.map_cons, List.map_cons, String.join_cons, String.join_cons, String.toList_append,
      String.toList_append]
    obtain ⟨style, s⟩ := part
    cases style with
    | none => rw [Palette.write, strip_append hpart, hrest]
    | some style =>
      obtain ⟨before, after, hbefore, hafter, hpaint⟩ := hp style s
      rw [Palette.write, hpaint, String.toList_append, String.toList_append, List.append_assoc,
        List.append_assoc, strip_sequences hbefore, strip_append hpart, strip_sequences hafter,
        hrest]

namespace Styled

/-- The two are made of the same texts in the same styles, none with an escape character of its own,
which one shows by the palette `p` and the other by `q`. -/
def Alike (p q : Palette) (s t : Styled) : Prop :=
  ∃ parts : List Part, (∀ part ∈ parts, EscapeFree part.text) ∧
    (s.shown = String.join (parts.map p.write) ∧ t.shown = String.join (parts.map q.write)) ∧
    s.text = String.join (parts.map Part.text) ∧ t.text = String.join (parts.map Part.text)

variable {p q : Palette} {s t : Styled}

theorem Alike.stripped (h : s.Alike p q t) (hp : p.Wraps) (hq : q.IsBare) :
    stripped s.shown = t.shown := by
  obtain ⟨parts, hparts, ⟨hs, ht⟩, -⟩ := h
  rw [Text.stripped, hs, hp.strip_write hparts, String.ofList_toList, ht, hq.join_write]

theorem Alike.text_eq (h : s.Alike p q t) (hq : q.IsBare) : s.text = t.shown := by
  obtain ⟨parts, -, ⟨-, ht⟩, hs, -⟩ := h
  rw [hs, ht, hq.join_write]

theorem alike_nil : Alike p q [] [] := ⟨[], by simp, ⟨rfl, rfl⟩, rfl, rfl⟩

theorem Alike.append {s' t' : Styled} (h : s.Alike p q t) (h' : s'.Alike p q t') :
    Alike p q (s ++ s') (t ++ t') := by
  obtain ⟨parts, hparts, ⟨hs, ht⟩, hstext, httext⟩ := h
  obtain ⟨parts', hparts', ⟨hs', ht'⟩, hstext', httext'⟩ := h'
  refine ⟨parts ++ parts', ?_, ⟨?_, ?_⟩, ?_, ?_⟩
  · intro part hpart
    rcases List.mem_append.mp hpart with hpart | hpart
    · exact hparts part hpart
    · exact hparts' part hpart
  · rw [shown_append, hs, hs', List.map_append, String.join_append]
  · rw [shown_append, ht, ht', List.map_append, String.join_append]
  · rw [text_append, hstext, hstext', List.map_append, String.join_append]
  · rw [text_append, httext, httext', List.map_append, String.join_append]

theorem alike_flatMap {α β : Type} {R : α → β → Prop} {xs : List α} {ys : List β} {f : α → Styled}
    {g : β → Styled} (h : List.Forall₂ R xs ys) (hfg : ∀ x y, R x y → (f x).Alike p q (g y)) :
    Alike p q (xs.flatMap f) (ys.flatMap g) := by
  induction h with
  | nil => exact alike_nil
  | cons hxy _ ih => exact (hfg _ _ hxy).append ih

theorem alike_plain {s : String} (h : Text.EscapeFree s) : Alike p q (plain s) (plain s) :=
  ⟨[⟨none, s⟩], by simpa using h, by simp [plain, shown, Palette.write], by simp [plain, text]⟩

theorem alike_piece {s : String} (h : Text.EscapeFree s) (style : Style) :
    Alike p q [@Style.piece p style s] [@Style.piece q style s] :=
  ⟨[⟨some style, s⟩], by simpa using h, by simp [Style.piece, shown, Palette.write],
    by simp [Style.piece, text]⟩

theorem alike_bold {s : String} (h : Text.EscapeFree s) : Alike p q (@bold p s) (@bold q s) :=
  alike_piece h .bold

theorem alike_boldIn {s : String} (h : Text.EscapeFree s) (c : Colour) :
    Alike p q (@boldIn p c s) (@boldIn q c s) :=
  alike_piece h (.boldIn c)

/-- A text may be set off between plain ones. -/
theorem alike_setOff {left s right : String} (hleft : Text.EscapeFree left) (h : Text.EscapeFree s)
    (hright : Text.EscapeFree right) :
    Alike p q (plain left ++ @bold p s ++ plain right) (plain left ++ @bold q s ++ plain right) :=
  ((alike_plain hleft).append (alike_bold h)).append (alike_plain hright)

/-- The same if the three are one piece. -/
theorem alike_setOff_piece {left s right : String} (hleft : Text.EscapeFree left)
    (h : Text.EscapeFree s) (hright : Text.EscapeFree right) :
    Alike p q [⟨left ++ s ++ right, left ++ p.paint .bold s ++ right⟩]
      [⟨left ++ s ++ right, left ++ q.paint .bold s ++ right⟩] := by
  have hparts : Alike p q _ _ := alike_setOff hleft h hright
  simpa [Alike, text, shown, plain, bold, Style.piece, String.append_assoc] using hparts

theorem Alike.line (h : s.Alike p q t) : s.line.Alike p q t.line :=
  h.append (alike_plain (by decide))

end Styled

end Text

open Text (EscapeFree escapeFree_append escapeFree_int escapeFree_nat escapeFree_quoted)

theorem escapeFree_spanText (span : Option Span) : EscapeFree (spanText span) := by
  cases span with
  | none => decide
  | some s =>
    simp only [spanText, Span.text, Point.text, escapeFree_append, escapeFree_nat]
    decide

theorem escapeFree_spanFields (span : Option Span) : EscapeFree (spanFields span) := by
  cases span with
  | none => decide
  | some s =>
    have hpoint (p : Point) : EscapeFree p.fields := by
      change EscapeFree ("Point(row=" ++ toString p.row ++ ", column=" ++ toString p.column ++ ")")
      simp only [escapeFree_append, escapeFree_nat]
      decide
    change EscapeFree ("Position(start=" ++ s.first.fields ++ ", end=" ++ s.last.fields ++ ")")
    simp only [escapeFree_append, hpoint]
    decide

theorem escapeFree_kindText (k : Token.Kind) : EscapeFree k.text := by
  cases k with
  | identifier name =>
    change EscapeFree ("Identifier(name=" ++ Text.quoted name ++ ")")
    simp only [escapeFree_append, escapeFree_quoted]
    decide
  | _ => decide

/-- Whatever is lexed, its token listing has no escape character. -/
theorem escapeFree_lexemeText (l : Lexeme) : EscapeFree (lexemeText l) := by
  cases l with
  | ok t =>
    simp only [lexemeText, Token.text, escapeFree_append, escapeFree_kindText, escapeFree_spanText]
    decide
  | error e =>
    obtain ⟨cause, span⟩ := e
    cases cause with
    | invalidCharacter c =>
      change EscapeFree ("InvalidCharacterError(char=" ++ Text.quoted c.toString ++
        ", position=" ++ spanFields span ++ ")")
      simp only [escapeFree_append, escapeFree_quoted, escapeFree_spanFields]
      decide
    | brokenIdentifier message =>
      change EscapeFree ("IdentifierError(message=" ++ Text.quoted message ++
        ", position=" ++ spanFields span ++ ")")
      simp only [escapeFree_append, escapeFree_quoted, escapeFree_spanFields]
      decide

theorem escapeFree_generated (k : Int) : EscapeFree (generated k) := by
  simp only [generated, escapeFree_append, escapeFree_int]
  decide

namespace Term

/-- No name of the term has an escape character. -/
def EscapeFree (t : Term) : Prop := ∀ x ∈ t.names, Text.EscapeFree x

theorem escapeFree_textAll {ts : List Term} (h : ∀ t ∈ ts, Text.EscapeFree t.text) :
    Text.EscapeFree (textAll ts) := by
  induction ts with
  | nil => decide
  | cons t ts ih =>
    obtain ⟨ht, hts⟩ := List.forall_mem_cons.mp h
    rw [textAll, element]
    split
    all_goals
      simp only [escapeFree_append, ht, ih hts]
      decide

/-- A term is written with its names, and signs that are no escape characters. -/
theorem EscapeFree.text {t : Term} (h : t.EscapeFree) : Text.EscapeFree t.text := by
  induction t with
  | var x => exact h x (by simp [names])
  | lam x b ih =>
    have hx := h x (by simp [names])
    have hb := ih fun y hy => h y (List.mem_cons_of_mem _ hy)
    rw [Term.text, bodyText]
    split
    all_goals
      simp only [escapeFree_append, hx, hb]
      decide
  | app f a rest hf ha hrest =>
    have hfn := hf fun x hx => h x (mem_names_app.mpr (.inl hx))
    have harg := ha fun x hx => h x (mem_names_app.mpr (.inr (.inl hx)))
    have hall := escapeFree_textAll fun t ht =>
      hrest t ht fun x hx => h x (mem_names_app.mpr (.inr (.inr ⟨t, ht, hx⟩)))
    rw [Term.text, element, element]
    split <;> split
    all_goals
      simp only [escapeFree_append, hfn, harg, hall]
      decide

/-- Drawing names brings in no escape character. -/
theorem EscapeFree.drawn {c d : Int} {t u : Term} (h : t.EscapeFree)
    (hdrawn : Drawn c d t.names u.names) : u.EscapeFree := by
  intro x hx
  obtain hx | ⟨k, -, -, rfl⟩ := hdrawn.2 x hx
  · exact h x hx
  · exact escapeFree_generated k

end Term

end NormalOrder
