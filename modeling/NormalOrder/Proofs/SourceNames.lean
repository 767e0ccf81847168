import NormalOrder.Proofs.Grammar
import NormalOrder.Token.Lexer
import Mathlib.Data.List.Basic

namespace NormalOrder

open Token (Kind)
open Text (isAlphanumeric)

namespace Term

theorem names_applyTo (t : Term) (ts : List Term) : (t.applyTo ts).names = namesAll (t :: ts) := by
  cases ts <;> simp [applyTo, names, namesAll]

theorem names_collapse {ts : List Term} {t : Term} (h : collapse ts = .ok t) :
    t.names = namesAll ts := by
  cases ts with
  | nil => cases h
  | cons u us =>
    obtain rfl : u.applyTo us = t := by simpa [collapse] using h
    exact names_applyTo u us

theorem namesAll_append (ts us : List Term) : namesAll (ts ++ us) = namesAll ts ++ namesAll us := by
  induction ts with
  | nil => rfl
  | cons t ts ih => simp [namesAll, ih]

theorem names_foldr_lam (xs : List String) (t : Term) : (xs.foldr .lam t).names = xs ++ t.names := by
  induction xs with
  | nil => rfl
  | cons x xs ih => simp [names, ih]

end Term

namespace Grammar

/-- The names of the identifiers, in their order. -/
def identifiers (ks : List Kind) : List String :=
  ks.filterMap fun
    | .identifier x => some x
    | _ => none

theorem identifiers_append (ks ls : List Kind) :
    identifiers (ks ++ ls) = identifiers ks ++ identifiers ls := by
  simp [identifiers]

theorem identifiers_map (xs : List String) : identifiers (xs.map .identifier) = xs := by
  induction xs with
  | nil => rfl
  | cons x xs ih => simp [identifiers]

mutual

/-- A derived term has the names of its tokens. -/
theorem names_expression {ks : List Kind} {t : Term} : Expression ks t → t.names = identifiers ks
  | .atoms ha hc => by rw [Term.names_collapse hc, names_atoms ha]
  | .abstraction ha hl hc => by
    rw [Term.names_collapse hc, Term.namesAll_append, names_atoms ha, identifiers_append,
      ← names_abstraction hl]
    simp [Term.namesAll]

theorem names_atom {ks : List Kind} {t : Term} : Atom ks t → t.names = identifiers ks
  | .identifier x => rfl
  | .brackets he => by
    rw [names_expression he]
    simp [identifiers]

theorem names_atoms {ks : List Kind} {ts : List Term} : Atoms ks ts →
    Term.namesAll ts = identifiers ks
  | .nil => rfl
  | .cons ha hs => by rw [Term.namesAll, names_atom ha, names_atoms hs, identifiers_append]

theorem names_abstraction {ks : List Kind} {t : Term} : Abstraction ks t → t.names = identifiers ks
  | @Abstraction.binders x xs ks t he => by
    have hids : identifiers (.lambda :: .identifier x :: (xs.map .identifier ++ .dot :: ks)) =
        x :: (identifiers (xs.map .identifier) ++ identifiers ks) := by simp [identifiers]
    rw [hids, identifiers_map, Term.names, Term.names_foldr_lam, names_expression he]

end

theorem mem_identifiers {x : String} {ks : List Kind} (h : x ∈ identifiers ks) :
    .identifier x ∈ ks := by
  obtain ⟨k, hk, hx⟩ := List.mem_filterMap.mp h
  cases k with
  | identifier y =>
    obtain rfl : y = x := by simpa using hx
    exact hk
  | _ => simp at hx

end Grammar

/-- A name that can be written in a source: some alphanumeric characters, none of them a lambda. -/
def IsWritten (x : String) : Prop :=
  x.toList ≠ [] ∧ ∀ c ∈ x.toList, isAlphanumeric c = true ∧ c ≠ 'λ'

instance (x : String) : Decidable (IsWritten x) :=
  decidable_of_iff
    (x.toList ≠ [] ∧ x.toList.all (fun c => isAlphanumeric c && decide (c ≠ 'λ')) = true)
    (by simp [IsWritten])

namespace Lexer

theorem ofReserved?_ne_identifier (c : Char) (x : String) :
    Token.Kind.ofReserved? c ≠ some (.identifier x) := by
  unfold Token.Kind.ofReserved?
  split <;> simp

theorem outside_written (p : Point) (c : Char) :
    (∀ w ∈ (outside p c).1, IsWritten w.name) ∧
      ∀ x span, .ok ⟨.identifier x, span⟩ ∉ (outside p c).2 := by
  unfold outside
  cases hk : Token.Kind.ofReserved? c with
  | some kind =>
    refine ⟨by simp, ?_⟩
    intro x span hx
    have hkind : kind = .identifier x := by
      have h := List.mem_singleton.mp hx
      simp only [Except.ok.injEq, Token.mk.injEq] at h
      exact h.1.symm
    exact ofReserved?_ne_identifier c x (hkind ▸ hk)
  | none =>
    have hlam : c ≠ 'λ' := by
      intro h
      rw [h] at hk
      cases hk
    dsimp only
    split_ifs with ha hb
    · refine ⟨?_, by simp⟩
      intro w hw
      obtain rfl : (⟨p, c.toString⟩ : Word) = w := by simpa using hw
      simp [IsWritten, Char.toString_eq_singleton, ha, hlam]
    · simp
    · simp

/-- The open identifier stays one that can be written, and so does every identifier that ends. -/
theorem step_written (word : Option Word) (p : Point) (c : Char)
    (hword : ∀ w ∈ word, IsWritten w.name) :
    (∀ w ∈ (step word p c).1, IsWritten w.name) ∧
      ∀ x span, .ok ⟨.identifier x, span⟩ ∈ (step word p c).2 → IsWritten x := by
  obtain ⟨hopen, hdone⟩ := outside_written p c
  cases word with
  | none => exact ⟨hopen, fun x span hx => absurd hx (hdone x span)⟩
  | some w =>
    have hw : IsWritten w.name := hword w rfl
    simp only [step, inside]
    split_ifs with hsep ha
    · refine ⟨hopen, ?_⟩
      intro x span hx
      rcases List.mem_cons.mp hx with hx | hx
      · simp only [Word.token, Except.ok.injEq, Token.mk.injEq, Kind.identifier.injEq] at hx
        exact hx.1 ▸ hw
      · exact absurd hx (hdone x span)
    · refine ⟨?_, by simp⟩
      intro v hv
      obtain rfl : ({ w with name := w.name.push c } : Word) = v := by simpa using hv
      have hlam : c ≠ 'λ' := by
        intro h
        rw [h] at hsep
        exact hsep (by decide)
      refine ⟨by simp, ?_⟩
      intro d hd
      have hd' : d ∈ w.name.toList ∨ d = c := by simpa using hd
      rcases hd' with hd' | rfl
      · exact hw.2 d hd'
      · exact ⟨ha, hlam⟩
    · refine ⟨?_, by simp⟩
      intro v hv
      obtain rfl : w = v := by simpa using hv
      exact hw

theorem scan_written (p : Point) (word : Option Word) (cs : List Char)
    (hword : ∀ w ∈ word, IsWritten w.name) (x : String) (span : Option Span)
    (hx : .ok ⟨.identifier x, span⟩ ∈ scan p word cs) : IsWritten x := by
  induction cs generalizing p word with
  | nil =>
    cases word with
    | none => simp [scan] at hx
    | some w =>
      simp only [scan, Word.token, List.mem_singleton, Except.ok.injEq, Token.mk.injEq,
        Kind.identifier.injEq] at hx
      exact hx.1 ▸ hword w rfl
  | cons c cs ih =>
    obtain ⟨hopen, hdone⟩ := step_written word p c hword
    have hscan : scan p word (c :: cs) =
        (step word p c).2 ++ scan (p.next c) (step word p c).1 cs := by
      cases word <;> rfl
    rw [hscan] at hx
    rcases List.mem_append.mp hx with hx | hx
    · exact hdone x span hx
    · exact ih (p.next c) (step word p c).1 hopen hx

end Lexer

/-- A run that succeeds met no lexing error. -/
theorem Parsing.tokens_of_run_ok {p : Parsing} {lexemes : List Lexeme} {t : Term}
    (h : (p.run lexemes).1 = .ok t) : ∃ tokens : List Token, lexemes = tokens.map .ok := by
  induction lexemes generalizing p with
  | nil => exact ⟨[], rfl⟩
  | cons lexeme lexemes ih =>
    cases lexeme with
    | error e => simp [run] at h
    | ok token =>
      cases hs : p.step token with
      | error e => simp [run, hs] at h
      | ok q =>
        obtain ⟨tokens, rfl⟩ := ih (p := q) (by simpa [run, hs] using h)
        exact ⟨token :: tokens, rfl⟩

/-- Every name of a term read from a source can be written. -/
theorem written_of_parse {source : String} {t : Term} (h : parse (lex source) = .ok t) :
    ∀ x ∈ t.names, IsWritten x := by
  intro x hx
  obtain ⟨tokens, htokens⟩ := Parsing.tokens_of_run_ok h
  rw [htokens, parse_eq_ok_iff] at h
  rw [Grammar.names_expression h] at hx
  obtain ⟨token, hmem, hkind⟩ := List.mem_map.mp (Grammar.mem_identifiers hx)
  have hlex : .ok token ∈ lex source := by
    rw [htokens]
    exact List.mem_map_of_mem hmem
  obtain ⟨kind, span⟩ := token
  obtain rfl : kind = .identifier x := hkind
  exact Lexer.scan_written _ none _ (by simp) x span hlex

end NormalOrder
