import NormalOrder.Parsing.Basic

namespace NormalOrder

open Token (Kind)

namespace Grammar

mutual

/-- `E ::= A+ | A* L`, the items side by side. -/
inductive Expression : List Kind → Term → Prop
  | atoms {ks : List Kind} {ts : List Term} {t : Term} :
      Atoms ks ts → Term.collapse ts = .ok t → Expression ks t
  | abstraction {ks ls : List Kind} {ts : List Term} {u t : Term} :
      Atoms ks ts → Abstraction ls u → Term.collapse (ts ++ [u]) = .ok t → Expression (ks ++ ls) t

/-- `A ::= id | '(' E ')'`. -/
inductive Atom : List Kind → Term → Prop
  | identifier (x : String) : Atom [.identifier x] (.var x)
  | brackets {ks : List Kind} {t : Term} : Expression ks t → Atom (.opening :: (ks ++ [.closing])) t

/-- `A*`. -/
inductive Atoms : List Kind → List Term → Prop
  | nil : Atoms [] []
  | cons {ks ls : List Kind} {t : Term} {ts : List Term} :
      Atom ks t → Atoms ls ts → Atoms (ks ++ ls) (t :: ts)

/-- `L ::= λ id+ '.' E`, one abstraction for each identifier. -/
inductive Abstraction : List Kind → Term → Prop
  | binders (x : String) (xs : List String) {ks : List Kind} {t : Term} : Expression ks t →
      Abstraction (.lambda :: .identifier x :: (xs.map .identifier ++ .dot :: ks))
        (.lam x (xs.foldr .lam t))

end

/-- The items of an expression, or of the end of one: `A* | A* L`. -/
def Items (ks : List Kind) (ts : List Term) : Prop :=
  Atoms ks ts ∨
    ∃ ls ms us u, ks = ls ++ ms ∧ ts = us ++ [u] ∧ Atoms ls us ∧ Abstraction ms u

theorem expression_iff (ks : List Kind) (t : Term) :
    Expression ks t ↔ ∃ ts, Items ks ts ∧ Term.collapse ts = .ok t := by
  constructor
  · intro h
    cases h with
    | atoms ha hc => exact ⟨_, .inl ha, hc⟩
    | abstraction ha hl hc => exact ⟨_, .inr ⟨_, _, _, _, rfl, rfl, ha, hl⟩, hc⟩
  · intro h
    obtain ⟨ts, ha | ⟨ls, ms, us, u, rfl, rfl, ha, hl⟩, hc⟩ := h
    · exact .atoms ha hc
    · exact .abstraction ha hl hc

theorem items_nil : Items [] [] := .inl .nil

theorem items_cons {ks ls : List Kind} {t : Term} {ts : List Term} (ha : Atom ks t)
    (h : Items ls ts) : Items (ks ++ ls) (t :: ts) := by
  obtain h | ⟨ls, ms, us, u, rfl, rfl, hls, hms⟩ := h
  · exact .inl (.cons ha h)
  · exact .inr ⟨ks ++ ls, ms, t :: us, u, by simp, rfl, .cons ha hls, hms⟩

theorem items_abstraction {ks : List Kind} {t : Term} (h : Abstraction ks t) : Items ks [t] :=
  .inr ⟨[], ks, [], t, rfl, rfl, .nil, h⟩

/-- Items are none, or begin with an atom, or are one abstraction. -/
theorem items_cases {ks : List Kind} {ts : List Term} (h : Items ks ts) :
    (ks = [] ∧ ts = []) ∨
      (∃ as ls u us, ks = as ++ ls ∧ ts = u :: us ∧ Atom as u ∧ Items ls us) ∨
      ∃ u, ts = [u] ∧ Abstraction ks u := by
  obtain h | ⟨ls, ms, us, u, rfl, rfl, hls, hms⟩ := h
  · cases h with
    | nil => exact .inl ⟨rfl, rfl⟩
    | cons ha hs => exact .inr (.inl ⟨_, _, _, _, rfl, rfl, ha, .inl hs⟩)
  · cases hls with
    | nil => exact .inr (.inr ⟨u, rfl, hms⟩)
    | @cons as ls v vs ha hs =>
      refine .inr (.inl ⟨as, ls ++ ms, v, vs ++ [u], by simp, rfl, ha, .inr ?_⟩)
      exact ⟨ls, ms, vs, u, rfl, rfl, hs, hms⟩

theorem items_nil_iff (ts : List Term) : Items [] ts ↔ ts = [] := by
  constructor
  · intro h
    obtain ⟨-, hts⟩ | ⟨as, ls, u, us, hks, -, ha, -⟩ | ⟨u, -, hl⟩ := items_cases h
    · exact hts
    · cases ha <;> simp at hks
    · cases hl
  · intro h
    rw [h]
    exact items_nil

theorem items_identifier_iff (x : String) (ks : List Kind) (ts : List Term) :
    Items (.identifier x :: ks) ts ↔ ∃ us, ts = .var x :: us ∧ Items ks us := by
  constructor
  · intro h
    obtain ⟨hks, -⟩ | ⟨as, ls, u, us, hks, rfl, ha, hs⟩ | ⟨u, -, hl⟩ := items_cases h
    · simp at hks
    · cases ha with
      | identifier y =>
        simp only [List.cons_append, List.nil_append, List.cons.injEq, Kind.identifier.injEq] at hks
        obtain ⟨rfl, rfl⟩ := hks
        exact ⟨us, rfl, hs⟩
      | brackets he => simp at hks
    · cases hl
  · intro h
    obtain ⟨us, rfl, h⟩ := h
    exact items_cons (.identifier x) h

theorem items_opening_iff (ks : List Kind) (ts : List Term) :
    Items (.opening :: ks) ts ↔
      ∃ es ls u us, ks = es ++ .closing :: ls ∧ ts = u :: us ∧ Expression es u ∧ Items ls us := by
  constructor
  · intro h
    obtain ⟨hks, -⟩ | ⟨as, ls, u, us, hks, rfl, ha, hs⟩ | ⟨u, -, hl⟩ := items_cases h
    · simp at hks
    · cases ha with
      | identifier y => simp at hks
      | @brackets es _ he =>
        refine ⟨es, ls, u, us, by simpa using hks, rfl, he, hs⟩
    · cases hl
  · intro h
    obtain ⟨es, ls, u, us, rfl, rfl, he, hs⟩ := h
    simpa using items_cons (.brackets he) hs

theorem items_lambda_iff (ks : List Kind) (ts : List Term) :
    Items (.lambda :: ks) ts ↔
      ∃ (x : String) (xs : List String) (es : List Kind) (u : Term),
        ks = .identifier x :: (xs.map .identifier ++ .dot :: es) ∧ Expression es u ∧
        ts = [.lam x (xs.foldr .lam u)] := by
  constructor
  · intro h
    obtain ⟨hks, -⟩ | ⟨as, ls, u, us, hks, rfl, ha, hs⟩ | ⟨u, rfl, hl⟩ := items_cases h
    · simp at hks
    · cases ha <;> simp at hks
    · cases hl with
      | binders x xs he => exact ⟨x, xs, _, _, rfl, he, rfl⟩
  · intro h
    obtain ⟨x, xs, es, u, rfl, he, rfl⟩ := h
    exact items_abstraction (.binders x xs he)

/-- No item begins with a dot or a closing bracket. -/
theorem items_head {k : Kind} {ks : List Kind} {ts : List Term} (h : Items (k :: ks) ts) :
    k ≠ .dot ∧ k ≠ .closing := by
  obtain ⟨hks, -⟩ | ⟨as, ls, u, us, hks, -, ha, -⟩ | ⟨u, -, hl⟩ := items_cases h
  · simp at hks
  · cases ha <;> simp only [List.cons_append, List.cons.injEq] at hks <;> simp [hks.1]
  · cases hl
    simp

end Grammar

open Grammar

namespace Stack

/-- What is left to read is `ks`, once `done` has been read in the innermost scope and nothing else
can be added to it: binders close by themselves, a bracket needs its closing bracket, after which the
scope around it may go on. The whole input then spells `t`. -/
def Closes (base : List Term) : List Scope → List Term → List Kind → Term → Prop
  | [], done, ks, t => ks = [] ∧ Term.collapse (base ++ done) = .ok t
  | .binder x _ ts :: scopes, done, ks, t =>
    ∃ body, Term.collapse (ts ++ done) = .ok body ∧ Closes base scopes [.lam x body] ks t
  | .bracket _ ts :: scopes, done, ks, t =>
    ∃ u ls ms us, ks = .closing :: (ls ++ ms) ∧ Term.collapse (ts ++ done) = .ok u ∧
      Items ls us ∧ Closes base scopes (u :: us) ms t

/-- The kinds `ks` complete the terms read so far to the term `t`. -/
def Completes (s : Stack) (ks : List Kind) (t : Term) : Prop :=
  ∃ ls ms us, ks = ls ++ ms ∧ Items ls us ∧ Closes s.base s.scopes us ms t

theorem closes_append (s : Stack) (new done : List Term) (ks : List Kind) (t : Term) :
    Closes (s.append new).base (s.append new).scopes done ks t ↔
      Closes s.base s.scopes (new ++ done) ks t := by
  obtain ⟨base, scopes⟩ := s
  match scopes with
  | [] => simp [append, Closes]
  | .bracket _ ts :: scopes => simp [append, Scope.append, Closes]
  | .binder x _ ts :: scopes => simp [append, Scope.append, Closes]

theorem closes_head {base : List Term} {scopes : List Scope} {done : List Term} {k : Kind}
    {ks : List Kind} {t : Term} (h : Closes base scopes done (k :: ks) t) : k = .closing := by
  induction scopes generalizing done with
  | nil => simp [Closes] at h
  | cons scope scopes ih =>
    cases scope with
    | bracket span ts =>
      obtain ⟨u, ls, ms, us, hks, -⟩ := h
      simp only [List.cons.injEq] at hks
      exact hks.1
    | binder x span ts =>
      obtain ⟨body, -, hrest⟩ := h
      exact ih hrest

/-- Unless a closing bracket comes next, the innermost scope goes on. -/
theorem completes_cons_iff (s : Stack) (k : Kind) (ks : List Kind) (t : Term) (hk : k ≠ .closing) :
    s.Completes (k :: ks) t ↔
      ∃ ls ms us, ks = ls ++ ms ∧ Items (k :: ls) us ∧ Closes s.base s.scopes us ms t := by
  constructor
  · intro h
    obtain ⟨ls, ms, us, hks, hi, hc⟩ := h
    cases ls with
    | nil =>
      obtain rfl : k :: ks = ms := hks
      exact absurd (closes_head hc) hk
    | cons l ls =>
      simp only [List.cons_append, List.cons.injEq] at hks
      obtain ⟨rfl, rfl⟩ := hks
      exact ⟨ls, ms, us, rfl, hi, hc⟩
  · intro h
    obtain ⟨ls, ms, us, rfl, hi, hc⟩ := h
    exact ⟨k :: ls, ms, us, rfl, hi, hc⟩

theorem completes_identifier_iff (s : Stack) (x : String) (ks : List Kind) (t : Term) :
    s.Completes (.identifier x :: ks) t ↔ (s.append [.var x]).Completes ks t := by
  rw [completes_cons_iff _ _ _ _ (by simp)]
  constructor
  · intro h
    obtain ⟨ls, ms, us, rfl, hi, hc⟩ := h
    obtain ⟨vs, rfl, hv⟩ := (items_identifier_iff x ls us).mp hi
    exact ⟨ls, ms, vs, rfl, hv, (closes_append s _ vs ms t).mpr hc⟩
  · intro h
    obtain ⟨ls, ms, us, rfl, hi, hc⟩ := h
    refine ⟨ls, ms, .var x :: us, rfl, (items_identifier_iff x ls _).mpr ⟨us, rfl, hi⟩, ?_⟩
    exact (closes_append s [.var x] us ms t).mp hc

theorem completes_opening_iff (s : Stack) (span : Option Span) (ks : List Kind) (t : Term) :
    s.Completes (.opening :: ks) t ↔ (s.push (.bracket span [])).Completes ks t := by
  rw [completes_cons_iff _ _ _ _ (by simp)]
  constructor
  · intro h
    obtain ⟨ls, ms, us, rfl, hi, hc⟩ := h
    obtain ⟨es, rest, u, vs, rfl, rfl, he, hv⟩ := (items_opening_iff ls us).mp hi
    obtain ⟨ws, hw, hu⟩ := (expression_iff es u).mp he
    exact ⟨es, .closing :: (rest ++ ms), ws, by simp, hw, u, rest, ms, vs, rfl, hu, hv, hc⟩
  · intro h
    obtain ⟨es, ms, ws, rfl, hw, u, ls, ms, us, rfl, hu, hi, hc⟩ := h
    have he : Expression es u := (expression_iff es u).mpr ⟨ws, hw, hu⟩
    refine ⟨es ++ .closing :: ls, ms, u :: us, by simp, ?_, hc⟩
    exact (items_opening_iff _ _).mpr ⟨es, ls, u, us, rfl, rfl, he, hi⟩

theorem completes_lambda_iff (s : Stack) (ks : List Kind) (t : Term) :
    s.Completes (.lambda :: ks) t ↔
      ∃ (x : String) (xs : List String) (ls ms : List Kind) (u : Term),
        ks = .identifier x :: (xs.map .identifier ++ .dot :: (ls ++ ms)) ∧ Expression ls u ∧
        Closes s.base s.scopes [.lam x (xs.foldr .lam u)] ms t := by
  rw [completes_cons_iff _ _ _ _ (by simp)]
  constructor
  · intro h
    obtain ⟨ls, ms, us, rfl, hi, hc⟩ := h
    obtain ⟨x, xs, es, u, rfl, he, rfl⟩ := (items_lambda_iff ls us).mp hi
    exact ⟨x, xs, es, ms, u, by simp, he, hc⟩
  · intro h
    obtain ⟨x, xs, es, ms, u, rfl, he, hc⟩ := h
    refine ⟨.identifier x :: (xs.map .identifier ++ .dot :: es), ms, _, by simp, ?_, hc⟩
    exact (items_lambda_iff _ _).mpr ⟨x, xs, es, u, rfl, he, rfl⟩

theorem not_completes_dot (s : Stack) (ks : List Kind) (t : Term) : ¬s.Completes (.dot :: ks) t := by
  rw [completes_cons_iff _ _ _ _ (by simp)]
  intro h
  obtain ⟨ls, ms, us, -, hi, -⟩ := h
  exact (items_head hi).1 rfl

/-- Closing the innermost bracket leaves the completions that follow the closing bracket. -/
theorem closes_closing_iff (base : List Term) (scopes : List Scope) (done : List Term)
    (span : Option Span) (ks : List Kind) (t : Term) :
    Closes base scopes done (.closing :: ks) t ↔
      ∃ s, closeBracket span base done scopes = .ok s ∧ s.Completes ks t := by
  induction scopes generalizing done with
  | nil => simp [Closes, closeBracket]
  | cons scope scopes ih =>
    cases scope with
    | bracket opening ts =>
      cases hu : Term.collapse (ts ++ done) with
      | error e => simp [Closes, closeBracket, hu]
      | ok u =>
        have happend := closes_append ⟨base, scopes⟩ [u]
        simp only [Closes, closeBracket, hu, Completes, Except.ok.injEq, List.cons.injEq,
          true_and, exists_eq_left', happend]
        constructor
        · intro h
          obtain ⟨v, ls, ms, us, rfl, rfl, hi, hc⟩ := h
          exact ⟨ls, ms, us, rfl, hi, hc⟩
        · intro h
          obtain ⟨ls, ms, us, rfl, hi, hc⟩ := h
          exact ⟨u, ls, ms, us, rfl, rfl, hi, hc⟩
    | binder x opening ts =>
      cases hu : Term.collapse (ts ++ done) with
      | error e => simp [Closes, closeBracket, hu]
      | ok body => simp [Closes, closeBracket, hu, ih]

theorem completes_closing_iff (s : Stack) (span : Option Span) (ks : List Kind) (t : Term) :
    s.Completes (.closing :: ks) t ↔
      ∃ s', closeBracket span s.base [] s.scopes = .ok s' ∧ s'.Completes ks t := by
  rw [← closes_closing_iff]
  constructor
  · intro h
    obtain ⟨ls, ms, us, hks, hi, hc⟩ := h
    cases ls with
    | nil =>
      obtain rfl := (items_nil_iff us).mp hi
      rwa [hks]
    | cons l ls =>
      simp only [List.cons_append, List.cons.injEq] at hks
      exact absurd hks.1.symm (items_head hi).2
  · intro hc
    exact ⟨[], _, [], rfl, items_nil, hc⟩

/-- The end of the input completes a stack if closing all its binders does. -/
theorem closes_nil_iff (base : List Term) (scopes : List Scope) (done : List Term) (t : Term) :
    Closes base scopes done [] t ↔ (closeAll base done scopes).1 = .ok t := by
  induction scopes generalizing done with
  | nil => cases hu : Term.collapse (base ++ done) <;> simp [Closes, closeAll, hu]
  | cons scope scopes ih =>
    cases scope with
    | bracket opening ts => simp [Closes, closeAll]
    | binder x opening ts =>
      cases hu : Term.collapse (ts ++ done) with
      | error e => simp [Closes, closeAll, hu]
      | ok body => simp [Closes, closeAll, hu, ih]

theorem closeBracket_error {span : Option Span} {base done : List Term} {scopes : List Scope}
    {e : ParseError} {s : Stack} (h : closeBracket span base done scopes = .error (e, s)) :
    e.kind ≠ .malformed ∧ e.kind ≠ .missingClosingBracket := by
  induction scopes generalizing done with
  | nil =>
    cases h
    simp
  | cons scope scopes ih =>
    cases scope with
    | bracket opening ts =>
      simp only [closeBracket] at h
      split at h <;> cases h
      simp
    | binder x opening ts =>
      simp only [closeBracket] at h
      split at h
      · cases h
        simp
      · exact ih h

theorem closeAll_error {base done : List Term} {scopes : List Scope} {e : ParseError}
    (h : (closeAll base done scopes).1 = .error e) : e.kind ≠ .malformed := by
  induction scopes generalizing done with
  | nil =>
    simp only [closeAll] at h
    split at h <;> cases h
    simp
  | cons scope scopes ih =>
    cases scope with
    | bracket opening ts =>
      cases h
      simp
    | binder x opening ts =>
      simp only [closeAll] at h
      split at h
      · cases h
        simp
      · exact ih h

end Stack

namespace Parsing

/-- The kinds `ks` complete what has been read so far to the term `t`. After a bound identifier the
rest of the header comes first, and then the body. -/
def Completes (p : Parsing) (ks : List Kind) (t : Term) : Prop :=
  match p.mode with
  | .normal => p.stack.Completes ks t
  | .lambda => p.stack.Completes (.lambda :: ks) t
  | .header =>
    ∃ (xs : List String) (ls ms : List Kind) (u : Term),
      ks = xs.map .identifier ++ .dot :: (ls ++ ms) ∧ Expression ls u ∧
      Stack.Closes p.stack.base p.stack.scopes [xs.foldr .lam u] ms t

@[simp] theorem completes_normal_iff (s : Stack) (ks : List Kind) (t : Term) :
    Completes ⟨.normal, s⟩ ks t ↔ s.Completes ks t := Iff.rfl

theorem completes_start_iff (ks : List Kind) (t : Term) : start.Completes ks t ↔ Expression ks t := by
  rw [expression_iff]
  constructor
  · intro h
    obtain ⟨ls, ms, us, hks, hi, rfl, hc⟩ := h
    rw [hks, List.append_nil]
    exact ⟨us, hi, hc⟩
  · intro h
    obtain ⟨us, hi, hc⟩ := h
    exact ⟨_, [], us, by simp, hi, rfl, hc⟩

/-- Inside a header the innermost scope is a binder without terms. -/
def HeaderOpen (p : Parsing) : Prop :=
  p.mode = .header → ∃ x span scopes, p.stack.scopes = .binder x span [] :: scopes

theorem headerOpen_start : start.HeaderOpen := by
  intro h
  cases h

theorem headerOpen_step {p q : Parsing} {token : Token} (h : p.step token = .ok q) :
    q.HeaderOpen := by
  intro hq
  obtain ⟨mode, stack⟩ := p
  obtain ⟨kind, span⟩ := token
  cases mode with
  | normal =>
    cases kind with
    | closing =>
      simp only [step] at h
      split at h <;> cases h
      cases hq
    | _ => cases h <;> cases hq
  | lambda =>
    cases kind <;> cases h
    exact ⟨_, _, _, rfl⟩
  | header =>
    cases kind with
    | identifier x =>
      cases h
      exact ⟨_, _, _, rfl⟩
    | _ => cases h <;> cases hq

theorem completes_header_dot_iff (s : Stack) (x : String) (span : Option Span) (scopes : List Scope)
    (hs : s.scopes = .binder x span [] :: scopes) (ks : List Kind) (t : Term) :
    Completes ⟨.header, s⟩ (.dot :: ks) t ↔ s.Completes ks t := by
  simp only [Completes, Stack.Completes, hs, Stack.Closes]
  constructor
  · intro h
    obtain ⟨xs, ls, ms, u, hks, he, body, hbody, hc⟩ := h
    cases xs with
    | cons y ys => simp at hks
    | nil =>
      obtain ⟨us, hi, hu⟩ := (expression_iff ls u).mp he
      obtain rfl : u = body := by simpa [Term.collapse, Term.applyTo] using hbody
      exact ⟨ls, ms, us, by simpa using hks, hi, u, by simpa using hu, hc⟩
  · intro h
    obtain ⟨ls, ms, us, rfl, hi, body, hbody, hc⟩ := h
    have he : Expression ls body := (expression_iff ls body).mpr ⟨us, hi, by simpa using hbody⟩
    exact ⟨[], ls, ms, body, rfl, he, body, rfl, hc⟩

theorem completes_header_identifier_iff (s : Stack) (x : String) (span : Option Span)
    (ks : List Kind) (t : Term) :
    Completes ⟨.header, s⟩ (.identifier x :: ks) t ↔
      Completes ⟨.header, s.push (.binder x span [])⟩ ks t := by
  constructor
  · intro h
    obtain ⟨xs, ls, ms, u, hks, he, hc⟩ := h
    cases xs with
    | nil => simp at hks
    | cons y ys =>
      simp only [List.map_cons, List.cons_append, List.cons.injEq, Kind.identifier.injEq] at hks
      obtain ⟨rfl, hks⟩ := hks
      exact ⟨ys, ls, ms, u, hks, he, _, rfl, hc⟩
  · intro h
    obtain ⟨xs, ls, ms, u, rfl, he, body, hbody, hc⟩ := h
    obtain rfl : xs.foldr .lam u = body := by simpa [Term.collapse, Term.applyTo] using hbody
    exact ⟨x :: xs, ls, ms, u, rfl, he, hc⟩

theorem completes_lambda_identifier_iff (s : Stack) (x : String) (span : Option Span)
    (ks : List Kind) (t : Term) :
    Completes ⟨.lambda, s⟩ (.identifier x :: ks) t ↔
      Completes ⟨.header, s.push (.binder x span [])⟩ ks t := by
  rw [← completes_header_identifier_iff s x span ks t]
  constructor
  · intro h
    obtain ⟨y, xs, ls, ms, u, hks, he, hc⟩ := (Stack.completes_lambda_iff s _ t).mp h
    exact ⟨y :: xs, ls, ms, u, hks, he, hc⟩
  · intro h
    obtain ⟨xs, ls, ms, u, hks, he, hc⟩ := h
    cases xs with
    | nil => simp at hks
    | cons y ys => exact (Stack.completes_lambda_iff s _ t).mpr ⟨y, ys, ls, ms, u, hks, he, hc⟩

/-- One token leads from the completions of a state to those of the next state, and to an error if
there are none. -/
theorem completes_step_iff (p : Parsing) (hp : p.HeaderOpen) (token : Token) (ks : List Kind)
    (t : Term) :
    p.Completes (token.kind :: ks) t ↔ ∃ q, p.step token = .ok q ∧ q.Completes ks t := by
  obtain ⟨mode, stack⟩ := p
  obtain ⟨kind, span⟩ := token
  cases mode with
  | normal =>
    cases kind with
    | opening => simpa [step] using Stack.completes_opening_iff stack span ks t
    | identifier x => simpa [step] using Stack.completes_identifier_iff stack x ks t
    | lambda => simp [step, Completes]
    | dot => simpa [step] using Stack.not_completes_dot stack ks t
    | closing =>
      have hclose := Stack.completes_closing_iff stack span ks t
      cases hs : Stack.closeBracket span stack.base [] stack.scopes with
      | ok s => simpa [step, hs] using hclose
      | error e => simpa [step, hs] using hclose
  | lambda =>
    cases kind with
    | identifier x => simpa [step] using completes_lambda_identifier_iff stack x span ks t
    | _ =>
      simp only [step, reduceCtorEq, false_and, exists_false, iff_false]
      intro h
      obtain ⟨y, xs, ls, ms, u, hks, -⟩ := (Stack.completes_lambda_iff stack _ t).mp h
      simp at hks
  | header =>
    cases kind with
    | identifier x => simpa [step] using completes_header_identifier_iff stack x span ks t
    | dot =>
      obtain ⟨x, opening, scopes, hs⟩ := hp rfl
      simpa [step] using completes_header_dot_iff stack x opening scopes hs ks t
    | _ =>
      simp only [step, reduceCtorEq, false_and, exists_false, iff_false]
      intro h
      obtain ⟨xs, ls, ms, u, hks, -⟩ := h
      cases xs <;> simp at hks

theorem completes_finish_iff (p : Parsing) (t : Term) :
    p.Completes [] t ↔ p.finish.1 = .ok t := by
  obtain ⟨mode, stack⟩ := p
  cases mode with
  | normal =>
    rw [finish, ← Stack.closes_nil_iff]
    constructor
    · intro h
      obtain ⟨ls, ms, us, hks, hi, hc⟩ := h
      obtain ⟨rfl, rfl⟩ := List.append_eq_nil_iff.mp hks.symm
      obtain rfl := (items_nil_iff us).mp hi
      exact hc
    · intro hc
      exact ⟨[], [], [], rfl, items_nil, hc⟩
  | lambda =>
    simp only [finish, reduceCtorEq, iff_false]
    intro h
    obtain ⟨y, xs, ls, ms, u, hks, -⟩ := (Stack.completes_lambda_iff stack _ t).mp h
    simp at hks
  | header =>
    simp only [finish, reduceCtorEq, iff_false]
    intro h
    obtain ⟨xs, ls, ms, u, hks, -⟩ := h
    cases xs <;> simp at hks

theorem run_nil (p : Parsing) : (p.run []).1 = p.finish.1.mapError .structural := rfl

theorem run_nil_ok {p : Parsing} {t : Term} (h : p.finish.1 = .ok t) : (p.run []).1 = .ok t := by
  rw [run_nil, h]
  rfl

theorem run_nil_error {p : Parsing} {e : ParseError} (h : p.finish.1 = .error e) :
    (p.run []).1 = .error (.structural e) := by
  rw [run_nil, h]
  rfl

/-- A run over tokens succeeds exactly when they complete the state it begins in. -/
theorem run_eq_ok_iff (p : Parsing) (hp : p.HeaderOpen) (tokens : List Token) (t : Term) :
    (p.run (tokens.map .ok)).1 = .ok t ↔ p.Completes (tokens.map Token.kind) t := by
  induction tokens generalizing p with
  | nil =>
    rw [List.map_nil, List.map_nil, completes_finish_iff]
    cases hf : p.finish.1 with
    | ok u => simp [run_nil_ok hf]
    | error e => simp [run_nil_error hf]
  | cons token tokens ih =>
    rw [List.map_cons, List.map_cons, completes_step_iff p hp]
    cases hs : p.step token with
    | error e => simp [run, hs]
    | ok q => simp [run, hs, ih q (headerOpen_step hs)]

theorem step_error {p q : Parsing} {token : Token} {e : ParseError}
    (h : p.step token = .error (e, q)) :
    e.kind ≠ .malformed ∧ e.kind ≠ .missingClosingBracket := by
  obtain ⟨mode, stack⟩ := p
  obtain ⟨kind, span⟩ := token
  cases mode with
  | normal =>
    cases kind with
    | closing =>
      simp only [step] at h
      split at h
      · cases h
      · rename_i hs
        cases h
        exact Stack.closeBracket_error hs
    | _ =>
      cases h <;> simp
  | lambda => cases kind <;> cases h <;> simp
  | header => cases kind <;> cases h <;> simp

theorem finish_error {p : Parsing} {e : ParseError} (h : p.finish.1 = .error e) :
    e.kind ≠ .malformed := by
  obtain ⟨mode, stack⟩ := p
  cases mode with
  | normal => exact Stack.closeAll_error h
  | lambda | header =>
    cases h
    simp

/-- A run over tokens that fails does so with a structural error of its own kind. -/
theorem run_error {p : Parsing} {tokens : List Token} {f : ParseFailure}
    (h : (p.run (tokens.map .ok)).1 = .error f) :
    ∃ e, f = .structural e ∧ e.kind ≠ .malformed := by
  induction tokens generalizing p with
  | nil =>
    cases hf : p.finish.1 with
    | error e =>
      have hstruct : f = .structural e := by simpa [run_nil_error hf] using h.symm
      exact ⟨e, hstruct, finish_error hf⟩
    | ok t => simp [run_nil_ok hf] at h
  | cons token tokens ih =>
    cases hs : p.step token with
    | error eq =>
      obtain ⟨e, q⟩ := eq
      have hstruct : f = .structural e := by simpa [run, hs] using h.symm
      exact ⟨e, hstruct, (step_error hs).1⟩
    | ok q =>
      apply ih (p := q)
      simpa [run, hs] using h

end Parsing

/-- The parser reads `t` from tokens exactly when the grammar derives it from their kinds. -/
theorem parse_eq_ok_iff (tokens : List Token) (t : Term) :
    parse (tokens.map .ok) = .ok t ↔ Expression (tokens.map Token.kind) t := by
  rw [parse, Parsing.run_eq_ok_iff _ Parsing.headerOpen_start, Parsing.completes_start_iff]

/-- The parser accepts exactly the token lists of the grammar, each of which derives one tree, and
rejects every other with a structural error. -/
theorem parse_recognises_grammar (tokens : List Token) :
    (∀ t, parse (tokens.map .ok) = .ok t ↔ Expression (tokens.map Token.kind) t) ∧
    (∀ t u, Expression (tokens.map Token.kind) t → Expression (tokens.map Token.kind) u → t = u) ∧
    ((∀ t, ¬Expression (tokens.map Token.kind) t) →
      ∃ e, parse (tokens.map .ok) = .error (.structural e) ∧ e.kind ≠ .malformed) := by
  refine ⟨parse_eq_ok_iff tokens, ?_, ?_⟩
  · intro t u ht hu
    have hparse := (parse_eq_ok_iff tokens t).mpr ht
    rw [(parse_eq_ok_iff tokens u).mpr hu] at hparse
    exact (Except.ok.inj hparse).symm
  · intro hnone
    cases hparse : parse (tokens.map .ok) with
    | ok t => exact absurd ((parse_eq_ok_iff tokens t).mp hparse) (hnone t)
    | error f =>
      obtain ⟨e, rfl, he⟩ := Parsing.run_error hparse
      exact ⟨e, rfl, he⟩

/-- The tokens of `λx y.x (y`, and the same with the bracket closed. -/
theorem parse_recognises_grammar_bracket :
    let header : List Token := [.lambda, .identifier "x", .identifier "y", .dot].map (⟨·, none⟩)
    let opened : List Token := header ++ [.identifier "x", .opening, .identifier "y"].map (⟨·, none⟩)
    let closed : List Token := opened ++ [⟨.closing, none⟩]
    let tree : Term := .lam "x" (.lam "y" (.app (.var "x") (.var "y") []))
    (∃ e, parse (opened.map .ok) = .error (.structural e) ∧ e.kind ≠ .malformed) ∧
      ∀ u, Expression (closed.map Token.kind) u → u = tree := by
  intro header opened closed tree
  have hopened : parse (opened.map .ok) = .error (.structural ⟨.missingClosingBracket, none⟩) := rfl
  have hclosed : parse (closed.map .ok) = .ok tree := rfl
  refine ⟨(parse_recognises_grammar opened).2.2 ?_, ?_⟩
  · intro t ht
    have h := ((parse_recognises_grammar opened).1 t).mpr ht
    rw [hopened] at h
    cases h
  · intro u hu
    have ht := ((parse_recognises_grammar closed).1 tree).mp hclosed
    exact (parse_recognises_grammar closed).2.1 u tree hu ht

end NormalOrder
