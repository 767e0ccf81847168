import NormalOrder.Term.Printer
import NormalOrder.Proofs.SourceNames
import NormalOrder.Proofs.Terms
import NormalOrder.Proofs.Tokenisation

namespace NormalOrder

open Token (Kind)
open Text (isBlank isAlphanumeric)
open Grammar

namespace Lexer

/-- What each lexeme is, without its place. -/
def kinds (lexemes : List Lexeme) : List (Except LexError Kind) :=
  lexemes.map (Except.map Token.kind)

/-- Wherever the text `cs` stands, it is lexed to tokens of the kinds `ks`, if no identifier goes on
behind it. -/
def Spells (cs : List Char) (ks : List Kind) : Prop :=
  ∀ p rest, Delimited rest →
    ∃ q, kinds (scan p none (cs ++ rest)) = ks.map .ok ++ kinds (scan q none rest)

theorem spells_nil : Spells [] [] := fun p _ _ => ⟨p, rfl⟩

theorem spells_append {cs ds : List Char} {ks ls : List Kind} (hcs : Spells cs ks)
    (hds : Spells ds ls) (hd : Delimited ds) : Spells (cs ++ ds) (ks ++ ls) := by
  intro p rest hrest
  have hdelim : Delimited (ds ++ rest) := by
    cases ds with
    | nil => exact hrest
    | cons d ds => exact hd
  obtain ⟨q, hq⟩ := hcs p (ds ++ rest) hdelim
  obtain ⟨r, hr⟩ := hds q rest hrest
  refine ⟨r, ?_⟩
  rw [List.append_assoc, hq, hr, List.map_append, List.append_assoc]

theorem spells_reserved {c : Char} {k : Kind} (hc : Token.Kind.ofReserved? c = some k)
    {cs : List Char} {ks : List Kind} (hcs : Spells cs ks) : Spells (c :: cs) (k :: ks) := by
  intro p rest hrest
  obtain ⟨q, hq⟩ := hcs (p.next c) rest hrest
  have hsep : isSeparator c = true := by simp [isSeparator, isReserved, hc]
  refine ⟨q, ?_⟩
  rw [List.cons_append, scan_separator _ _ _ hsep]
  simpa [kinds, pieceLexemes, hc, Except.map] using hq

theorem spells_space {cs : List Char} {ks : List Kind} (hcs : Spells cs ks) :
    Spells (' ' :: cs) ks := by
  intro p rest hrest
  obtain ⟨q, hq⟩ := hcs (p.next ' ') rest hrest
  refine ⟨q, ?_⟩
  rw [List.cons_append, scan_separator _ _ _ (by decide)]
  exact hq

theorem delimited_cons {c : Char} (cs : List Char) (hc : isSeparator c = true) :
    Delimited (c :: cs) := by
  intro d hd
  obtain rfl : c = d := by simpa using hd
  exact hc

/-- A relation that tells which tokens a text spells: texts side by side spell the tokens of both, a
reserved character is a token and a space is none. -/
structure Spelling (S : List Char → List Kind → Prop) : Prop where
  nil : S [] []
  append {cs ds : List Char} {ks ls : List Kind} :
    S cs ks → S ds ls → Delimited ds → S (cs ++ ds) (ks ++ ls)
  reserved {c : Char} {k : Kind} {cs : List Char} {ks : List Kind} :
    Token.Kind.ofReserved? c = some k → S cs ks → S (c :: cs) (k :: ks)
  space {cs : List Char} {ks : List Kind} : S cs ks → S (' ' :: cs) ks

theorem spelling_spells : Spelling Spells where
  nil := spells_nil
  append := spells_append
  reserved hc := spells_reserved hc
  space := spells_space

theorem Spelling.brackets {S : List Char → List Kind → Prop} (hS : Spelling S) {cs : List Char}
    {ks : List Kind} (hcs : S cs ks) :
    S ('(' :: (cs ++ [')'])) (.opening :: (ks ++ [.closing])) := by
  have hclose : S [')'] [.closing] := hS.reserved rfl hS.nil
  exact hS.reserved rfl (hS.append hcs hclose (delimited_cons [] rfl))

theorem isReserved_cases {c : Char} (h : isReserved c = true) :
    c = 'λ' ∨ c = '\\' ∨ c = '(' ∨ c = ')' ∨ c = '.' := by
  unfold isReserved Token.Kind.ofReserved? at h
  split at h <;> simp at h ⊢

theorem not_separator_of_written {x : String} (hx : IsWritten x) :
    ∀ c ∈ x.toList, isSeparator c = false := by
  intro c hc
  obtain ⟨ha, hlam⟩ := hx.2 c hc
  have hblank : isBlank c = false := by
    cases hb : isBlank c with
    | false => rfl
    | true => rw [isAlphanumeric_of_isBlank c hb] at ha; cases ha
  have hres : isReserved c = false := by
    cases hr : isReserved c with
    | false => rfl
    | true =>
      rcases isReserved_cases hr with h | rfl | rfl | rfl | rfl
      · exact absurd h hlam
      all_goals exact absurd ha (by decide)
  simp [isSeparator, hblank, hres]

theorem spells_identifier {x : String} (hx : IsWritten x) : Spells x.toList [.identifier x] := by
  intro p rest hrest
  have hscan := scan_block p [] x.toList rest (not_separator_of_written hx) hrest
  have hname : String.ofList x.toList = x := String.ofList_toList
  obtain ⟨c, w, hcw⟩ := List.exists_cons_of_ne_nil hx.1
  have hc : isAlphanumeric c = true := (hx.2 c (by simp [hcw])).1
  have hw : ∀ d ∈ w, isAlphanumeric d = true := by
    intro d hd
    exact (hx.2 d (by simp [hcw, hd])).1
  rw [hcw, blockLexemes_cons_word _ _ _ _ hc, faults_of_alphanumeric _ _ _ _ hw,
    List.filter_eq_self.mpr hw, ← hcw, hname] at hscan
  refine ⟨p.advance x.toList, ?_⟩
  have hkinds := congrArg kinds hscan
  simpa [kinds, Point.advance, Except.map] using hkinds

end Lexer

namespace Term

/-- The tokens of a text that stands in brackets if `b` says so. -/
def bracketed (b : Bool) (ks : List Kind) : List Kind :=
  if b then .opening :: (ks ++ [.closing]) else ks

mutual

/-- The tokens of a term as it is written. -/
def kinds : Term → List Kind
  | .var x => [.identifier x]
  | .lam x b => .lambda :: .identifier x :: .dot :: bracketed b.isApp b.kinds
  | .app f a rest => bracketed (!f.isVar) f.kinds ++ (bracketed (!a.isVar) a.kinds ++ kindsAll rest)

def kindsAll : List Term → List Kind
  | [] => []
  | t :: ts => bracketed (!t.isVar) t.kinds ++ kindsAll ts

end

theorem atom_bracketed {t : Term} (h : Expression t.kinds t) :
    Atom (bracketed (!t.isVar) t.kinds) t := by
  cases t with
  | var x => exact .identifier x
  | lam x b => exact .brackets h
  | app f a rest => exact .brackets h

theorem expression_of_atom {ks : List Kind} {t : Term} (h : Atom ks t) : Expression ks t := by
  have hatoms : Atoms (ks ++ []) [t] := .cons h .nil
  rw [List.append_nil] at hatoms
  exact .atoms hatoms rfl

theorem expression_body {b : Term} (h : Expression b.kinds b) :
    Expression (bracketed b.isApp b.kinds) b := by
  cases b with
  | app f a rest => exact expression_of_atom (.brackets h)
  | var x => exact h
  | lam x b => exact h

theorem atoms_kindsAll (ts : List Term) (h : ∀ t ∈ ts, Expression t.kinds t) :
    Atoms (kindsAll ts) ts := by
  induction ts with
  | nil => exact .nil
  | cons t ts ih =>
    have ht := atom_bracketed (h t (by simp))
    exact .cons ht (ih fun u hu => h u (List.mem_cons_of_mem _ hu))

/-- The tokens of a term derive it. -/
theorem expression_kinds (t : Term) : Expression t.kinds t := by
  induction t with
  | var x => exact expression_of_atom (.identifier x)
  | lam x b ih => exact .abstraction .nil (.binders x [] (expression_body ih)) rfl
  | app f a rest hf ha hrest =>
    have hargs := Atoms.cons (atom_bracketed ha) (atoms_kindsAll rest hrest)
    have hatoms := Atoms.cons (atom_bracketed hf) hargs
    exact .atoms hatoms rfl

open Lexer (Spelling Spells Delimited delimited_cons spelling_spells spells_identifier)

theorem delimited_textAll (ts : List Term) : Delimited (textAll ts).toList := by
  cases ts with
  | nil => simp [textAll, Delimited]
  | cons t ts => simpa [textAll] using delimited_cons _ (by decide)

section

variable {S : List Char → List Kind → Prop} (hS : Spelling S)
include hS

theorem spelt_element {t : Term} (h : S t.text.toList t.kinds) :
    S (t.element t.text).toList (bracketed (!t.isVar) t.kinds) := by
  cases hv : t.isVar with
  | true => simpa [element, bracketed, hv] using h
  | false => simpa [element, bracketed, hv] using hS.brackets h

theorem spelt_bodyText {b : Term} (h : S b.text.toList b.kinds) :
    S (b.bodyText b.text).toList (bracketed b.isApp b.kinds) := by
  cases ha : b.isApp with
  | true => simpa [bodyText, bracketed, ha] using hS.brackets h
  | false => simpa [bodyText, bracketed, ha] using h

theorem spelt_textAll (ts : List Term) (h : ∀ t ∈ ts, S t.text.toList t.kinds) :
    S (textAll ts).toList (kindsAll ts) := by
  induction ts with
  | nil => exact hS.nil
  | cons t ts ih =>
    have ht := spelt_element hS (h t (by simp))
    have hts := ih fun u hu => h u (List.mem_cons_of_mem _ hu)
    have hall := hS.space (hS.append ht hts (delimited_textAll ts))
    simpa [textAll, kindsAll] using hall

/-- The text of a term spells its tokens, in whatever way it spells an identifier for each name. -/
theorem spelt_text (t : Term) (h : ∀ x ∈ t.names, S x.toList [.identifier x]) :
    S t.text.toList t.kinds := by
  induction t with
  | var x => exact h x (by simp [names])
  | lam x b ih =>
    have hx := h x (by simp [names])
    have hb := spelt_bodyText hS (ih fun y hy => h y (by simp [names, hy]))
    have hdot : S ('.' :: (b.bodyText b.text).toList) (.dot :: bracketed b.isApp b.kinds) :=
      hS.reserved rfl hb
    have hlam : Token.Kind.ofReserved? 'λ' = some .lambda := rfl
    simpa [text, kinds] using hS.reserved hlam (hS.append hx hdot (delimited_cons _ rfl))
  | app f a rest hf ha hrest =>
    have hf' := spelt_element hS (hf fun y hy => h y (by simp [names, hy]))
    have ha' := spelt_element hS (ha fun y hy => h y (by simp [names, hy]))
    have hrest' := spelt_textAll hS rest fun t ht => hrest t ht fun y hy => h y (by
      rw [names, namesAll_eq_flatMap]
      exact List.mem_append_right _ (List.mem_flatMap.mpr ⟨t, ht, hy⟩))
    have htail := hS.space (hS.append ha' hrest' (delimited_textAll rest))
    simpa [text, kinds] using hS.append hf' htail (delimited_cons _ (by decide))

end

theorem spells_text (t : Term) (h : ∀ x ∈ t.names, IsWritten x) : Spells t.text.toList t.kinds :=
  spelt_text spelling_spells t fun x hx => spells_identifier (h x hx)

end Term

theorem Lexer.tokens_of_kinds {lexemes : List Lexeme} {ks : List Kind}
    (h : Lexer.kinds lexemes = ks.map .ok) :
    ∃ tokens : List Token, lexemes = tokens.map .ok ∧ tokens.map Token.kind = ks := by
  induction lexemes generalizing ks with
  | nil =>
    have hks : ks = [] := by simpa [kinds] using h.symm
    exact ⟨[], rfl, hks.symm⟩
  | cons lexeme lexemes ih =>
    cases ks with
    | nil => simp [kinds] at h
    | cons k ks =>
      cases lexeme with
      | error e => simp [kinds, Except.map] at h
      | ok token =>
        simp only [kinds, List.map_cons, Except.map, List.cons.injEq, Except.ok.injEq] at h
        obtain ⟨tokens, rfl, rfl⟩ := ih h.2
        exact ⟨token :: tokens, rfl, by simp [h.1]⟩

/-- The text of a term is read back as the term. -/
theorem parse_text (t : Term) (h : ∀ x ∈ t.names, IsWritten x) : parse (lex t.text) = .ok t := by
  obtain ⟨q, hq⟩ := t.spells_text h Point.origin [] (by simp [Lexer.Delimited])
  have hkinds : Lexer.kinds (lex t.text) = t.kinds.map .ok := by
    simpa [lex, lexFrom, Lexer.scan, Lexer.kinds] using hq
  obtain ⟨tokens, htokens, hks⟩ := Lexer.tokens_of_kinds hkinds
  rw [htokens, parse_eq_ok_iff, hks]
  exact t.expression_kinds

/-- Printing a term and reading the text gives the term back, if its names can be written. The terms
read from sources are among these, so reading, printing and reading again is reading once. -/
theorem parse_lex_text :
    (∀ t : Term, (∀ x ∈ t.names, IsWritten x) → parse (lex t.text) = .ok t) ∧
      ∀ (source : String) (t : Term), parse (lex source) = .ok t →
        (∀ x ∈ t.names, IsWritten x) ∧ parse (lex t.text) = .ok t := by
  refine ⟨parse_text, ?_⟩
  intro source t h
  have hnames := written_of_parse h
  exact ⟨hnames, parse_text t hnames⟩

theorem parse_lex_text_nested :
    let inner : Term := .app (.lam "x" (.app (.var "x") (.var "é2") [])) (.var "y") []
    let t : Term := .app inner (.app (.var "y") inner []) [.lam "y" (.lam "x" (.var "y"))]
    let u : Term := .lam "x" (.lam "y" (.app (.var "x") (.app (.var "y") (.var "x") []) []))
    parse (lex t.text) = .ok t ∧ parse (lex "\\x y .((x))\n (y x)") = .ok u ∧
      parse (lex u.text) = .ok u := by
  intro inner t u
  have hsource : parse (lex "\\x y .((x))\n (y x)") = .ok u := by decide
  exact ⟨parse_lex_text.1 t (by decide +kernel), hsource, (parse_lex_text.2 _ u hsource).2⟩

end NormalOrder
