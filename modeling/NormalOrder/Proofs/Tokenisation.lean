import NormalOrder.Token.Lexer
import Mathlib.Data.List.Chain
import Mathlib.Data.List.Induction

namespace NormalOrder

open Text (inRanges blankRanges alphanumericRanges isBlank isAlphanumeric)

/-- The point of the character that follows `text`: the line feeds before it, and the characters
since the last of them. -/
def Point.after (text : List Char) : Point :=
  ⟨text.count '\n', (text.reverse.takeWhile (· != '\n')).length⟩

theorem Point.after_eq_advance (text : List Char) : Point.after text = Point.origin.advance text := by
  induction text using List.reverseRecOn with
  | nil => rfl
  | append_singleton text c ih =>
    rw [Point.advance_append, ← ih]
    by_cases hc : c = '\n'
    · simp [Point.after, Point.advance, Point.next, hc]
    · simp [Point.after, Point.advance, Point.next, hc]

theorem Point.before_advance_concat (p : Point) (w : List Char) (c : Char) (hc : c ≠ '\n') :
    (p.advance (w ++ [c])).before = p.advance w := by
  rw [Point.advance_append]
  simp [Point.advance, Point.next, Point.before, hc]

theorem Point.next_advance (p : Point) (text : List Char) (c : Char) :
    (p.advance text).next c = p.advance (text ++ [c]) := by
  rw [Point.advance_append]
  rfl

namespace Lexer

/-- The characters a text is cut at. -/
def isSeparator (c : Char) : Bool := isBlank c || isReserved c

inductive Piece where
  | separator (c : Char)
  /-- Characters between two separators. -/
  | block (w : List Char)
  deriving DecidableEq, Repr

namespace Piece

def chars : Piece → List Char
  | .separator c => [c]
  | .block w => w

def isBlock : Piece → Bool
  | .separator _ => false
  | .block _ => true

/-- A separator alone, or some characters none of which is one. -/
def Proper : Piece → Prop
  | .separator c => isSeparator c = true
  | .block w => w ≠ [] ∧ ∀ c ∈ w, isSeparator c = false

end Piece

/-- The pieces of `cs`: separators and blocks, with each block as long as it can be. -/
structure IsCut (cs : List Char) (ps : List Piece) : Prop where
  join : ps.flatMap Piece.chars = cs
  proper : ∀ p ∈ ps, p.Proper
  maximal : ps.IsChain fun p q => ¬(p.isBlock ∧ q.isBlock)

/-- Puts a character that is no separator in front of a text that is cut already. -/
def extendBlock (c : Char) : List Piece → List Piece
  | .block w :: ps => .block (c :: w) :: ps
  | ps => .block [c] :: ps

/-- Cuts a text at its separators. -/
def cut : List Char → List Piece
  | [] => []
  | c :: cs => if isSeparator c then .separator c :: cut cs else extendBlock c (cut cs)

theorem isCut_extendBlock (c : Char) (cs : List Char) (ps : List Piece)
    (hc : isSeparator c = false) (h : IsCut cs ps) : IsCut (c :: cs) (extendBlock c ps) := by
  obtain ⟨hjoin, hproper, hmax⟩ := h
  match ps with
  | [] =>
    refine ⟨by simpa [extendBlock, Piece.chars] using hjoin, ?_, by simp [extendBlock]⟩
    simp [extendBlock, Piece.Proper, hc]
  | .separator d :: ps =>
    refine ⟨by simpa [extendBlock, Piece.chars] using hjoin, ?_, ?_⟩
    · simpa [extendBlock, Piece.Proper, hc] using hproper
    · simpa [extendBlock, Piece.isBlock] using hmax
  | .block w :: ps =>
    refine ⟨by simpa [extendBlock, Piece.chars] using hjoin, ?_, ?_⟩
    · intro p hp
      rcases List.mem_cons.mp hp with rfl | hp
      · have hw := (hproper (.block w) (by simp)).2
        exact ⟨by simp, List.forall_mem_cons.mpr ⟨hc, hw⟩⟩
      · exact hproper p (List.mem_cons_of_mem _ hp)
    · cases ps with
      | nil => simp [extendBlock]
      | cons q ps => simpa [extendBlock, Piece.isBlock] using hmax

theorem isCut_cut (cs : List Char) : IsCut cs (cut cs) := by
  induction cs with
  | nil => exact ⟨rfl, by simp [cut], by simp [cut]⟩
  | cons c cs ih =>
    cases hc : isSeparator c with
    | false => simpa [cut, hc] using isCut_extendBlock c cs (cut cs) hc ih
    | true =>
      have hcut : cut (c :: cs) = .separator c :: cut cs := by simp [cut, hc]
      rw [hcut]
      refine ⟨by simp [Piece.chars, ih.join], ?_, ?_⟩
      · exact List.forall_mem_cons.mpr ⟨hc, ih.proper⟩
      · cases hps : cut cs with
        | nil => simp
        | cons q ps =>
          have := ih.maximal
          rw [hps] at this
          simpa [Piece.isBlock] using this

/-- An error for each character of `w` that is not alphanumeric. The text before `w` is `before`, and
`place` tells where the character after a text stands. -/
def faults (place : List Char → Point) (cause : Char → LexError.Cause) (before : List Char) :
    List Char → List Lexeme
  | [] => []
  | c :: w =>
    if isAlphanumeric c then faults place cause (before ++ [c]) w
    else .error ⟨cause c, some (.single (place before))⟩ :: faults place cause (before ++ [c]) w

theorem faults_of_alphanumeric (place : List Char → Point) (cause : Char → LexError.Cause)
    (before w : List Char) (hw : ∀ c ∈ w, isAlphanumeric c = true) :
    faults place cause before w = [] := by
  induction w generalizing before with
  | nil => rfl
  | cons c w ih =>
    have hc := hw c (by simp)
    have hrest := ih (before ++ [c]) (fun d hd => hw d (List.mem_cons_of_mem _ hd))
    simp [faults, hc, hrest]

/-- What a block yields: the characters before the first alphanumeric one are invalid, and from there
on the alphanumeric characters spell an identifier that the others interrupt. -/
def blockLexemes (place : List Char → Point) (before w : List Char) : List Lexeme :=
  let lead := w.takeWhile (!isAlphanumeric ·)
  let word := w.dropWhile (!isAlphanumeric ·)
  faults place .invalidCharacter before lead ++
    if word = [] then []
    else
      faults place .interrupting (before ++ lead) word ++
        [.ok ⟨.identifier (String.ofList (word.filter isAlphanumeric)),
          some ⟨place (before ++ lead), place (before ++ w.dropLast)⟩⟩]

/-- What a piece yields: a reserved character is a token, a blank is nothing. -/
def pieceLexemes (place : List Char → Point) (before : List Char) : Piece → List Lexeme
  | .separator c =>
    match Token.Kind.ofReserved? c with
    | some kind => [.ok ⟨kind, some (.single (place before))⟩]
    | none => []
  | .block w => blockLexemes place before w

/-- What the pieces of a text yield, one after the other. -/
def tokenise (place : List Char → Point) (before : List Char) : List Piece → List Lexeme
  | [] => []
  | p :: ps => pieceLexemes place before p ++ tokenise place (before ++ p.chars) ps

/-- No identifier goes on into `rest`. -/
def Delimited (rest : List Char) : Prop := ∀ c ∈ rest.head?, isSeparator c = true

theorem not_separator (c : Char) (h : isSeparator c = false) :
    isBlank c = false ∧ Token.Kind.ofReserved? c = none := by
  simpa [isSeparator, isReserved] using h

theorem exists_range_of_inRanges (n : Nat) (ranges : List (Nat × Nat))
    (h : inRanges n ranges = true) : ∃ r ∈ ranges, r.1 ≤ n ∧ n ≤ r.2 := by
  induction ranges with
  | nil => simp [inRanges] at h
  | cons r rest ih =>
    simp only [inRanges, Bool.and_eq_true, Bool.or_eq_true, decide_eq_true_eq] at h
    obtain ⟨hlo, hhi | hrest⟩ := h
    · exact ⟨r, by simp, hlo, hhi⟩
    · obtain ⟨q, hq, hn⟩ := ih hrest
      exact ⟨q, List.mem_cons_of_mem _ hq, hn⟩

/-- No blank is a letter or a numeral. -/
theorem isAlphanumeric_of_isBlank (c : Char) (h : isBlank c = true) : isAlphanumeric c = false := by
  have disjoint : ∀ r ∈ blankRanges, ∀ n ∈ List.range' r.1 (r.2 + 1 - r.1),
      inRanges n alphanumericRanges = false := by decide +kernel
  obtain ⟨r, hr, hlo, hhi⟩ := exists_range_of_inRanges c.toNat blankRanges h
  exact disjoint r hr c.toNat (List.mem_range'_1.mpr (by omega))

theorem scan_separator (p : Point) (c : Char) (cs : List Char) (hc : isSeparator c = true) :
    scan p none (c :: cs) =
      pieceLexemes (fun _ => p) [] (.separator c) ++ scan (p.next c) none cs := by
  cases hk : Token.Kind.ofReserved? c with
  | some kind => simp [scan, step, outside, pieceLexemes, hk]
  | none =>
    have hb : isBlank c = true := by simpa [isSeparator, isReserved, hk] using hc
    simp [scan, step, outside, pieceLexemes, hk, hb, isAlphanumeric_of_isBlank c hb]

/-- An open identifier takes in a whole block and ends where the block does. -/
theorem scan_word (p : Point) (before : List Char) (v : Word) (w rest : List Char)
    (hw : ∀ c ∈ w, isSeparator c = false) (hrest : Delimited rest) :
    scan (p.advance before) (some v) (w ++ rest) =
      faults p.advance .interrupting before w ++
        .ok ⟨.identifier (String.ofList (v.name.toList ++ w.filter isAlphanumeric)),
          some ⟨v.start, (p.advance (before ++ w)).before⟩⟩ ::
        scan (p.advance (before ++ w)) none rest := by
  induction w generalizing before v with
  | nil =>
    cases rest with
    | nil => simp [scan, faults, Word.token]
    | cons c cs =>
      have hc : isSeparator c = true := hrest c (by simp)
      have hc' : (isBlank c || isReserved c) = true := hc
      simp [scan, step, inside, faults, Word.token, hc']
  | cons c w ih =>
    have hc := hw c (by simp)
    have hc' : (isBlank c || isReserved c) = false := hc
    have ih' (u : Word) := ih (before ++ [c]) u (fun d hd => hw d (List.mem_cons_of_mem _ hd))
    cases ha : isAlphanumeric c with
    | true => simp [scan, step, inside, faults, hc', ha, Point.next_advance, ih']
    | false => simp [scan, step, inside, faults, hc', ha, Point.next_advance, ih']

theorem blockLexemes_cons_invalid (place : List Char → Point) (before w : List Char) (c : Char)
    (hc : isAlphanumeric c = false) :
    blockLexemes place before (c :: w) =
      .error ⟨.invalidCharacter c, some (.single (place before))⟩ ::
        blockLexemes place (before ++ [c]) w := by
  cases w with
  | nil => simp [blockLexemes, faults, hc]
  | cons d w => simp [blockLexemes, faults, hc]

theorem blockLexemes_cons_word (place : List Char → Point) (before w : List Char) (c : Char)
    (hc : isAlphanumeric c = true) :
    blockLexemes place before (c :: w) =
      faults place .interrupting (before ++ [c]) w ++
        [.ok ⟨.identifier (String.ofList (c :: w.filter isAlphanumeric)),
          some ⟨place before, place (before ++ (c :: w).dropLast)⟩⟩] := by
  simp [blockLexemes, faults, hc]

/-- The last character of a block stands one column before the character after it. -/
theorem before_advance_block (p : Point) (before w : List Char) (hne : w ≠ [])
    (hw : ∀ c ∈ w, isSeparator c = false) :
    (p.advance (before ++ w)).before = p.advance (before ++ w.dropLast) := by
  have hlast : w.getLast hne ≠ '\n' := by
    intro h
    have hsep := hw _ (List.getLast_mem hne)
    rw [h] at hsep
    exact absurd hsep (by decide)
  conv_lhs => rw [← List.dropLast_concat_getLast hne, ← List.append_assoc]
  exact Point.before_advance_concat p _ _ hlast

theorem scan_block (p : Point) (before w rest : List Char)
    (hw : ∀ c ∈ w, isSeparator c = false) (hrest : Delimited rest) :
    scan (p.advance before) none (w ++ rest) =
      blockLexemes p.advance before w ++ scan (p.advance (before ++ w)) none rest := by
  induction w generalizing before with
  | nil => simp [blockLexemes, faults]
  | cons c w ih =>
    obtain ⟨hblank, hres⟩ := not_separator c (hw c (by simp))
    have hw' : ∀ d ∈ w, isSeparator d = false := fun d hd => hw d (List.mem_cons_of_mem _ hd)
    cases ha : isAlphanumeric c with
    | true =>
      have hend := before_advance_block p before (c :: w) (by simp) hw
      have hword := scan_word p (before ++ [c]) ⟨p.advance before, c.toString⟩ w rest hw' hrest
      rw [blockLexemes_cons_word _ _ _ _ ha, ← hend]
      simpa [scan, step, outside, hres, ha, Point.next_advance, Char.toString_eq_singleton] using hword
    | false =>
      rw [blockLexemes_cons_invalid _ _ _ _ ha]
      simpa [scan, step, outside, hres, ha, hblank, Point.next_advance] using ih (before ++ [c]) hw'

/-- What follows a block of a cut cannot go on with it. -/
theorem IsCut.delimited {cs w : List Char} {ps : List Piece} (h : IsCut cs (.block w :: ps)) :
    Delimited (ps.flatMap Piece.chars) := by
  cases ps with
  | nil => simp [Delimited]
  | cons q ps =>
    cases q with
    | separator c =>
      have hc : isSeparator c = true := h.proper (.separator c) (by simp)
      simpa [Delimited, Piece.chars] using hc
    | block v => simpa [Piece.isBlock] using h.maximal

theorem IsCut.tail {cs : List Char} {q : Piece} {ps : List Piece} (h : IsCut cs (q :: ps)) :
    IsCut (ps.flatMap Piece.chars) ps :=
  ⟨rfl, fun r hr => h.proper r (List.mem_cons_of_mem _ hr), h.maximal.tail⟩

/-- Lexing goes piece by piece, from wherever the text begins. -/
theorem scan_eq_tokenise (p : Point) (before cs : List Char) (ps : List Piece) (h : IsCut cs ps) :
    scan (p.advance before) none cs = tokenise p.advance before ps := by
  induction ps generalizing before cs with
  | nil =>
    have hcs : cs = [] := by simpa using h.join.symm
    simp [hcs, scan, tokenise]
  | cons q ps ih =>
    have hjoin : cs = q.chars ++ ps.flatMap Piece.chars := by simpa using h.join.symm
    have htail := ih (before ++ q.chars) _ h.tail
    cases q with
    | separator c =>
      have hc : isSeparator c = true := h.proper (.separator c) (by simp)
      rw [hjoin, Piece.chars, List.singleton_append, scan_separator _ _ _ hc, Point.next_advance, tokenise]
      exact congrArg _ htail
    | block w =>
      have hw := (h.proper (.block w) (by simp)).2
      rw [hjoin, Piece.chars, scan_block p before w _ hw h.delimited, tokenise]
      exact congrArg _ htail

/-- Lexing a source is cutting it at its separators and reading each piece on its own, with every
character at its own point. -/
theorem lex_eq_tokenise (source : String) :
    IsCut source.toList (cut source.toList) ∧
      lex source = tokenise Point.after [] (cut source.toList) := by
  have hcut := isCut_cut source.toList
  refine ⟨hcut, ?_⟩
  have hplace : Point.after = Point.origin.advance := funext Point.after_eq_advance
  rw [hplace]
  exact scan_eq_tokenise Point.origin [] source.toList _ hcut

end Lexer

end NormalOrder
