import NormalOrder.Proofs.Printing
import NormalOrder.Proofs.Runs

namespace NormalOrder

open Token (Kind)
open Text (isBlank)

namespace Lexer

/-- The tokens that a piece shows. A block shows an identifier, whatever its characters are. -/
def Piece.kinds : Piece → List Kind
  | .separator c => (Kind.ofReserved? c).toList
  | .block w => [.identifier (String.ofList w)]

/-- The tokens that a text shows. -/
def outline (cs : List Char) : List Kind := (cut cs).flatMap Piece.kinds

theorem cut_separator {c : Char} (hc : isSeparator c = true) (cs : List Char) :
    cut (c :: cs) = .separator c :: cut cs := by
  simp [cut, hc]

/-- Characters up to a separator are one block. -/
theorem cut_block {w : List Char} (hne : w ≠ []) (hw : ∀ c ∈ w, isSeparator c = false)
    {rest : List Char} (hrest : Delimited rest) : cut (w ++ rest) = .block w :: cut rest := by
  induction w with
  | nil => exact absurd rfl hne
  | cons c w ih =>
    have hc := hw c (by simp)
    cases w with
    | nil =>
      -- what follows begins with no block that the character could extend
      cases rest with
      | nil => simp [cut, hc, extendBlock]
      | cons d rest =>
        have hd : isSeparator d = true := hrest d rfl
        simp [cut, hc, hd, extendBlock]
    | cons d w =>
      have hblock := ih (by simp) fun e he => hw e (List.mem_cons_of_mem _ he)
      rw [List.cons_append, cut, hblock]
      simp [hc, extendBlock]

/-- Wherever the text `cs` stands, it shows the tokens `ks`, if no name goes on behind it. -/
def Shows (cs : List Char) (ks : List Kind) : Prop :=
  ∀ rest, Delimited rest → outline (cs ++ rest) = ks ++ outline rest

theorem shows_block {w : List Char} (hne : w ≠ []) (hw : ∀ c ∈ w, isSeparator c = false) :
    Shows w [.identifier (String.ofList w)] := by
  intro rest hrest
  rw [outline, cut_block hne hw hrest]
  rfl

theorem spelling_shows : Spelling Shows where
  nil := fun _ _ => rfl
  append {cs ds ks ls} hcs hds hd := by
    intro rest hrest
    have hdelim : Delimited (ds ++ rest) := by
      cases ds with
      | nil => exact hrest
      | cons d ds => exact hd
    rw [List.append_assoc, hcs _ hdelim, hds _ hrest, List.append_assoc]
  reserved {c k cs ks} hc hcs := by
    intro rest hrest
    have hsep : isSeparator c = true := by simp [isSeparator, isReserved, hc]
    have hrest' := hcs rest hrest
    simpa [outline, cut_separator hsep, Piece.kinds, hc] using hrest'
  space {cs ks} hcs := by
    intro rest hrest
    have hsep : isSeparator ' ' = true := by decide
    have hrest' := hcs rest hrest
    simpa [outline, cut_separator hsep, Piece.kinds, Kind.ofReserved?] using hrest'

end Lexer

/-- A name that stands out in a text: it has characters, and none of them is a blank, a lambda, a
bracket or a dot. -/
def IsLegible (x : String) : Prop :=
  x.toList ≠ [] ∧ ∀ c ∈ x.toList, isBlank c = false ∧ c ∉ ['\\', 'λ', '(', ')', '.']

theorem IsLegible.not_separator {x : String} (hx : IsLegible x) :
    ∀ c ∈ x.toList, Lexer.isSeparator c = false := by
  intro c hc
  obtain ⟨hblank, hmarks⟩ := hx.2 c hc
  have hreserved : isReserved c = false := by
    by_contra hres
    apply hmarks
    rcases Lexer.isReserved_cases (by simpa using hres) with rfl | rfl | rfl | rfl | rfl <;> simp
  simp [Lexer.isSeparator, hblank, hreserved]

theorem isLegible_of_not_separator {x : String} (hne : x.toList ≠ [])
    (h : ∀ c ∈ x.toList, Lexer.isSeparator c = false) : IsLegible x := by
  refine ⟨hne, ?_⟩
  intro c hc
  have hsep := h c hc
  refine ⟨(Lexer.not_separator c hsep).1, ?_⟩
  intro hmarks
  simp only [List.mem_cons, List.not_mem_nil, or_false] at hmarks
  rcases hmarks with rfl | rfl | rfl | rfl | rfl <;> revert hsep <;> decide

theorem isLegible_of_written {x : String} (hx : IsWritten x) : IsLegible x :=
  isLegible_of_not_separator hx.1 (Lexer.not_separator_of_written hx)

theorem Lexer.not_separator_of_isDigit {c : Char} (h : c.isDigit = true) :
    isSeparator c = false := by
  have hdigits : ∀ n ∈ List.range' 48 10, isSeparator (Char.ofNat n) = false := by decide
  obtain ⟨hlow, hhigh⟩ : 48 ≤ c.toNat ∧ c.toNat ≤ 57 := by
    simpa [Char.isDigit, UInt32.le_iff_toNat_le] using h
  rw [← Char.ofNat_toNat c]
  exact hdigits c.toNat (List.mem_range'_1.mpr (by omega))

theorem Lexer.not_separator_of_mem_repr {n : Nat} {c : Char} (hc : c ∈ n.repr.toList) :
    isSeparator c = false := by
  rw [Nat.toList_repr] at hc
  exact not_separator_of_isDigit (Nat.isDigit_of_mem_toDigits (by decide) (by decide) hc)

/-- No text is cut at a generated name, which no source can hold. -/
theorem isLegible_generated (k : Int) : IsLegible (generated k) := by
  have hnumber : ∀ c ∈ k.repr.toList, Lexer.isSeparator c = false := by
    intro c hc
    match k with
    | .ofNat n => exact Lexer.not_separator_of_mem_repr hc
    | .negSucc n =>
      have hsign : c ∈ ("-" ++ (n + 1).repr).toList := hc
      rw [String.toList_append] at hsign
      rcases List.mem_append.mp hsign with hminus | hdigit
      · obtain rfl : c = '-' := List.mem_singleton.mp hminus
        decide
      · exact Lexer.not_separator_of_mem_repr hdigit
  have hchars : (generated k).toList = '#' :: k.repr.toList := by
    simp [generated, Int.toString_eq_repr]
  apply isLegible_of_not_separator
  · simp [hchars]
  · rw [hchars]
    exact List.forall_mem_cons.mpr ⟨by decide, hnumber⟩

namespace Term

/-- All names of the term stand out. -/
def IsLegible (t : Term) : Prop := ∀ x ∈ t.names, NormalOrder.IsLegible x

/-- The text of a term shows its tokens. -/
theorem outline_text {t : Term} (h : t.IsLegible) : Lexer.outline t.text.toList = t.kinds := by
  have hshows : Lexer.Shows t.text.toList t.kinds := by
    apply spelt_text Lexer.spelling_shows
    intro x hx
    have hblock := Lexer.shows_block (h x hx).1 (h x hx).not_separator
    rwa [String.ofList_toList] at hblock
  have hend := hshows [] (by simp [Lexer.Delimited])
  have hnone : Lexer.outline [] = [] := rfl
  rwa [List.append_nil, hnone, List.append_nil] at hend

/-- No two terms have the same tokens. -/
theorem kinds_injective {t u : Term} (h : t.kinds = u.kinds) : t = u := by
  let tokens : List Token := t.kinds.map fun kind => ⟨kind, none⟩
  have htokens : tokens.map Token.kind = t.kinds := by simp [tokens, Function.comp_def]
  have ht : parse (tokens.map .ok) = .ok t :=
    (parse_eq_ok_iff tokens t).mpr (htokens ▸ t.expression_kinds)
  have hu : parse (tokens.map .ok) = .ok u :=
    (parse_eq_ok_iff tokens u).mpr (htokens ▸ h ▸ u.expression_kinds)
  exact Except.ok.inj (ht.symm.trans hu)

theorem text_injective {t u : Term} (ht : t.IsLegible) (hu : u.IsLegible) (h : t.text = u.text) :
    t = u := by
  apply kinds_injective
  rw [← outline_text ht, ← outline_text hu, h]

/-- Drawn names stand out, so every term that a reduction reaches is legible if the first one is. -/
theorem IsLegible.stateAfter {t u : Term} {c d : Int} {k : Nat} (h : t.IsLegible)
    (hstate : t.stateAfter c k = some (u, d)) : u.IsLegible := by
  intro x hx
  obtain hx | ⟨k, -, -, rfl⟩ := (drawn_of_stateAfter hstate).2 x hx
  · exact h x hx
  · exact isLegible_generated k

theorem isLegible_of_parse {source : String} {t : Term} (h : parse (lex source) = .ok t) :
    t.IsLegible :=
  fun x hx => isLegible_of_written (written_of_parse h x hx)

/-- Legible terms are the same if their texts are. Terms read from a source are legible, and so is
every term that a reduction reaches from a legible one, so the texts along any two reductions tell
their terms apart, whatever names were drawn. -/
theorem text_unambiguous :
    (∀ t u : Term, t.IsLegible → u.IsLegible → t.text = u.text → t = u) ∧
    (∀ (source : String) (t : Term), parse (lex source) = .ok t → t.IsLegible) ∧
    ∀ t u : Term, t.IsLegible → u.IsLegible → ∀ (k l : Nat) (c d c' d' : Int) (v w : Term),
      stateAfter c t k = some (v, c') → stateAfter d u l = some (w, d') →
        (v.IsLegible ∧ w.IsLegible) ∧ (v.text = w.text → v = w) := by
  refine ⟨fun _ _ => text_injective, fun _ _ => isLegible_of_parse, ?_⟩
  intro t u ht hu k l c d c' d' v w hv hw
  have hv' := ht.stateAfter hv
  have hw' := hu.stateAfter hw
  exact ⟨⟨hv', hw'⟩, text_injective hv' hw'⟩

/-- Two reductions of different lengths reach the text `λ#0.(z #0)`, so they reach one term. -/
theorem text_unambiguous_generated :
    let t : Term := .app (.lam "x" (.lam "y" (.app (.var "x") (.var "y") []))) (.var "z") []
    let u : Term := .app (.lam "a" (.var "a")) t []
    (parse (lex "(λx y.x y) z") = .ok t ∧ parse (lex "(λa.a) ((λx y.x y) z)") = .ok u) ∧
      ∃ v w, stateAfter 0 t 1 = some (v, 1) ∧ stateAfter 0 u 2 = some (w, 1) ∧
        v.text = "λ#0.(z #0)" ∧ w.text = "λ#0.(z #0)" ∧ (v.IsLegible ∧ w.IsLegible) ∧ v = w := by
  intro t u
  let v : Term := .lam "#0" (.app (.var "z") (.var "#0") [])
  obtain ⟨-, hread, htraces⟩ := text_unambiguous
  have ht : parse (lex "(λx y.x y) z") = .ok t := by decide
  have hu : parse (lex "(λa.a) ((λx y.x y) z)") = .ok u := by decide
  have hv : stateAfter 0 t 1 = some (v, 1) := by decide +kernel
  have hw : stateAfter 0 u 2 = some (v, 1) := by decide +kernel
  have htext : v.text = "λ#0.(z #0)" := by decide
  obtain ⟨hlegible, hsame⟩ := htraces t u (hread _ t ht) (hread _ u hu) 1 2 0 0 1 1 v v hv hw
  exact ⟨⟨ht, hu⟩, v, v, hv, hw, htext, htext, hlegible, hsame rfl⟩

end Term

end NormalOrder
