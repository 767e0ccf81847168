import NormalOrder.Proofs.Tokenisation
import Mathlib.Data.List.DropRight

namespace NormalOrder

open Text (isAlphanumeric)

namespace Lexer

/-- What one piece of a text leaves behind. -/
structure Feed where
  lexemes : List Lexeme
  /-- Where the next piece begins. -/
  point : Point
  deriving DecidableEq, Repr

/-- Reads a piece that begins at `p`, with no identifier open before it or after it. -/
def feed (p : Point) (piece : String) : Feed :=
  ⟨lexFrom p piece.toList, p.advance piece.toList⟩

/-- The end of a text, as far back as it has no separator. -/
def lastBlock (cs : List Char) : List Char := cs.rtakeWhile (!isSeparator ·)

/-- The identifier that is open when `cs` has been read, and what `cs` has yielded by then. -/
def read (p : Point) (word : Option Word) : List Char → Option Word × List Lexeme
  | [] => (word, [])
  | c :: cs =>
    let (next, lexemes) := step word p c
    let (last, more) := read (p.next c) next cs
    (last, lexemes ++ more)

theorem read_append (p : Point) (word : Option Word) (cs ds : List Char) :
    read p word (cs ++ ds) =
      ((read (p.advance cs) (read p word cs).1 ds).1,
        (read p word cs).2 ++ (read (p.advance cs) (read p word cs).1 ds).2) := by
  induction cs generalizing p word with
  | nil => rfl
  | cons c cs ih => simp [read, ih, Point.advance]

/-- Lexing goes on from the state that the text so far leaves. -/
theorem scan_append (p : Point) (word : Option Word) (cs ds : List Char) :
    scan p word (cs ++ ds) =
      (read p word cs).2 ++ scan (p.advance cs) (read p word cs).1 ds := by
  induction cs generalizing p word with
  | nil => rfl
  | cons c cs ih => simp [scan, read, ih, Point.advance]

theorem outside_separator (p : Point) (c : Char) (hc : isSeparator c = true) :
    (outside p c).1 = none := by
  cases hk : Token.Kind.ofReserved? c with
  | some kind => simp [outside, hk]
  | none =>
    have hb : Text.isBlank c = true := by simpa [isSeparator, isReserved, hk] using hc
    simp [outside, hk, hb, isAlphanumeric_of_isBlank c hb]

theorem outside_block (p : Point) (c : Char) (hc : isSeparator c = false) :
    (outside p c).1.isSome = isAlphanumeric c := by
  obtain ⟨hblank, hres⟩ := not_separator c hc
  cases ha : isAlphanumeric c with
  | true => simp [outside, hres, ha]
  | false => simp [outside, hres, ha, hblank]

section

variable {c : Char}

theorem step_word_separator (hc : isSeparator c = true) (w : Word) (p : Point) :
    step (some w) p c = ((outside p c).1, .ok (w.token p) :: (outside p c).2) :=
  if_pos hc

theorem step_word_alphanumeric (hc : isSeparator c = false) (ha : isAlphanumeric c = true) (w : Word)
    (p : Point) : step (some w) p c = (some { w with name := w.name.push c }, []) := by
  have hc' : (Text.isBlank c || isReserved c) = false := hc
  simp [step, inside, hc', ha]

theorem step_word_faulty (hc : isSeparator c = false) (ha : isAlphanumeric c = false) (w : Word)
    (p : Point) : step (some w) p c = (some w, [.error ⟨.interrupting c, some (.single p)⟩]) := by
  have hc' : (Text.isBlank c || isReserved c) = false := hc
  simp [step, inside, hc', ha]

end

/-- A separator closes the identifier that is open, an alphanumeric character opens one, and any other
character leaves things as they are. -/
theorem isSome_step (word : Option Word) (p : Point) (c : Char) :
    (step word p c).1.isSome = (!isSeparator c && (word.isSome || isAlphanumeric c)) := by
  cases hc : isSeparator c with
  | true =>
    have hclosed := outside_separator p c hc
    cases word with
    | none => simp [step, hclosed]
    | some w => simp [step_word_separator hc, hclosed]
  | false =>
    cases word with
    | none => simp [step, outside_block p c hc]
    | some w =>
      cases ha : isAlphanumeric c with
      | true => simp [step_word_alphanumeric hc ha]
      | false => simp [step_word_faulty hc ha]

/-- An identifier is open at the end of a text if there is a character for one since the last
separator. -/
theorem isSome_read (p : Point) (cs : List Char) :
    (read p none cs).1.isSome = (lastBlock cs).any isAlphanumeric := by
  -- from the end of the text: its last character decides whether the block before it matters
  induction cs using List.reverseRecOn with
  | nil => rfl
  | append_singleton cs c ih =>
    have hlast : (read p none (cs ++ [c])).1 = (step (read p none cs).1 (p.advance cs) c).1 := by
      rw [read_append]
      rfl
    rw [hlast, isSome_step, ih]
    cases hc : isSeparator c with
    | true => simp [lastBlock, hc]
    | false => simp [lastBlock, hc]

/-- A token that comes first while an identifier is open is that identifier, and it has not become
shorter. -/
theorem head_scan_word {p : Point} {w : Word} {cs : List Char} {token : Token} {rest : List Lexeme}
    (h : scan p (some w) cs = .ok token :: rest) :
    ∃ name, token.kind = .identifier name ∧ w.name.length ≤ name.length := by
  induction cs generalizing p w with
  | nil =>
    obtain ⟨rfl, -⟩ : w.token p = token ∧ [] = rest := by simpa [scan] using h
    exact ⟨w.name, rfl, le_rfl⟩
  | cons c cs ih =>
    cases hc : isSeparator c with
    | true =>
      simp only [scan, step_word_separator hc, List.cons_append, List.cons.injEq, Except.ok.injEq] at h
      obtain ⟨rfl, -⟩ := h
      exact ⟨w.name, rfl, le_rfl⟩
    | false =>
      cases ha : isAlphanumeric c with
      | true =>
        simp only [scan, step_word_alphanumeric hc ha, List.nil_append] at h
        obtain ⟨name, hname, hle⟩ := ih h
        refine ⟨name, hname, ?_⟩
        rw [String.length_push] at hle
        omega
      | false => simp [scan, step_word_faulty hc ha] at h

/-- An identifier that could go on is not closed here. -/
theorem scan_word_ne {c : Char} (hc : isSeparator c = false) (p : Point) (w : Word)
    (cs : List Char) (rest : List Lexeme) :
    .ok (w.token p) :: rest ≠ scan p (some w) (c :: cs) := by
  intro h
  cases ha : isAlphanumeric c with
  | true =>
    have hpush : scan (p.next c) (some { w with name := w.name.push c }) cs =
        .ok (w.token p) :: rest := by
      simpa [scan, step_word_alphanumeric hc ha] using h.symm
    obtain ⟨name, hname, hle⟩ := head_scan_word hpush
    obtain rfl : w.name = name := by simpa [Word.token] using hname
    rw [String.length_push] at hle
    omega
  | false => simp [scan, step_word_faulty hc ha] at h

/-- Closing what is open before `cs` makes no difference if nothing is open, or `cs` would close it. -/
theorem scan_split_iff (p : Point) (word : Option Word) (cs : List Char) :
    scan p word [] ++ scan p none cs = scan p word cs ↔
      ¬(word.isSome ∧ ∃ c ∈ cs.head?, isSeparator c = false) := by
  cases word with
  | none => simp [scan]
  | some w =>
    cases cs with
    | nil => simp [scan]
    | cons c cs =>
      cases hc : isSeparator c with
      | true =>
        have hnew : step none p c = outside p c := rfl
        simp [scan, step_word_separator hc, hnew, hc]
      | false => simpa [scan, hc] using scan_word_ne hc p w cs (scan p none (c :: cs))

/-- A text read in two pieces ends where it ends when read as one. It yields the same lexemes unless the
cut goes through an identifier: a character of one stands behind the last separator of the first piece,
and the second piece does not begin with a separator. -/
theorem feed_pieces (p : Point) (a b : String) :
    (feed (feed p a).point b).point = (feed p (a ++ b)).point ∧
    ((feed p a).lexemes ++ (feed (feed p a).point b).lexemes = (feed p (a ++ b)).lexemes ↔
      ¬((∃ c ∈ lastBlock a.toList, isAlphanumeric c = true) ∧
        ∃ c ∈ b.toList.head?, isSeparator c = false)) := by
  refine ⟨?point, ?lexemes⟩
  case point => simp [feed, Point.advance_append]
  case lexemes =>
    -- both ways begin with what `a` yields before its end, and differ in what becomes of the open word
    let q := p.advance a.toList
    let word := (read p none a.toList).1
    have hfirst : scan p none a.toList = (read p none a.toList).2 ++ scan q word [] := by
      simpa using scan_append p none a.toList []
    have hwhole : scan p none (a ++ b).toList = (read p none a.toList).2 ++ scan q word b.toList := by
      rw [String.toList_append]
      exact scan_append p none a.toList b.toList
    have hopen : word.isSome ↔ ∃ c ∈ lastBlock a.toList, isAlphanumeric c = true := by
      rw [isSome_read, List.any_eq_true]
    calc scan p none a.toList ++ scan q none b.toList = scan p none (a ++ b).toList
        ↔ scan q word [] ++ scan q none b.toList = scan q word b.toList := by
          rw [hfirst, hwhole, List.append_assoc, List.append_cancel_left_eq]
      _ ↔ ¬(word.isSome ∧ ∃ c ∈ b.toList.head?, isSeparator c = false) := scan_split_iff q word b.toList
      _ ↔ _ := by rw [hopen]

/-- A faulty character does not close an identifier. -/
example :
    let first := feed .origin "(x;"
    first.lexemes ++ (feed first.point "y)").lexemes ≠ (feed .origin "(x;y)").lexemes ∧
      first.lexemes ++ (feed first.point ")").lexemes = (feed .origin "(x;)").lexemes := by
  decide

end Lexer

end NormalOrder
