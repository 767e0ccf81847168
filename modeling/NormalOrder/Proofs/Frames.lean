import NormalOrder.Proofs.ViablePrefixes

namespace NormalOrder

namespace Term

/-- Terms side by side, put together by the constructor of applications, which counts them. -/
def assemble : List Term → Except Malformed Term
  | [] => .error .empty
  | [t] => .ok t
  | ts => application ts

theorem assemble_eq_collapse (ts : List Term) : assemble ts = collapse ts := by
  match ts with
  | [] => rfl
  | [_] => rfl
  | _ :: _ :: _ => rfl

end Term

/-- A parse with its frames, innermost first. The last of them is to be the top level. -/
structure Framed where
  mode : Mode
  frames : List Scope
  deriving DecidableEq, Repr

namespace Framed

/-- What ends a parse without a term. -/
inductive Stop where
  /-- The input is at fault. -/
  | failure (f : ParseFailure)
  /-- A frame is asked for where there is none. -/
  | noFrame
  /-- Terms are put together that make no term. -/
  | malformed (m : Term.Malformed)
  deriving DecidableEq, Repr

/-- The input is at fault for what stands at `span`. -/
def Stop.structural (kind : ParseError.Kind) (span : Option Span) : Stop :=
  .failure (.structural ⟨kind, span⟩)

/-- Frames, or why there are none, with the frames that are left. -/
abbrev Outcome := Except (Stop × List Scope) (List Scope)

/-- Adds a term to the innermost frame. -/
def addTerm (t : Term) : List Scope → Outcome
  | [] => .error (.noFrame, [])
  | scope :: frames => .ok (scope.append [t] :: frames)

/-- Adds to the innermost frame what `wrap` makes of the terms of a closed one. -/
def handDown (wrap : Term → Term) (ts : List Term) (frames : List Scope) : Outcome :=
  match frames, Term.assemble ts with
  | [], _ => .error (.noFrame, [])
  | _, .error m => .error (.malformed m, frames)
  | _, .ok t => addTerm (wrap t) frames

/-- Closes the binder that stood above `frames`. -/
def closeBinder (closing : Option Span) (x : String) (s : Option Span) (ts : List Term)
    (frames : List Scope) : Outcome :=
  if ts.isEmpty then .error (.structural .missingBody (closing.or s), frames)
  else handDown (.lam x) ts frames

theorem length_closeBinder {closing s : Option Span} {x : String} {ts : List Term}
    {frames after : List Scope} (h : closeBinder closing x s ts frames = .ok after) :
    after.length = frames.length := by
  unfold closeBinder handDown at h
  split at h
  · cases h
  · cases frames with
    | nil => cases h
    | cons scope frames =>
      cases hjoin : Term.assemble ts with
      | error m => simp [hjoin] at h
      | ok t =>
        obtain rfl : scope.append [.lam x t] :: frames = after := by simpa [hjoin, addTerm] using h
        rfl

/-- Closes the binders above the innermost bracket, then that bracket. -/
def closeBracket (closing : Option Span) : List Scope → Outcome
  | [] => .error (.noFrame, [])
  | [scope] => .error (.structural .unexpectedClosingBracket closing, [scope])
  | .bracket s ts :: frames =>
    if ts.isEmpty then .error (.structural .emptyParentheses s, frames) else handDown id ts frames
  | .binder x s ts :: frames =>
    match _h : closeBinder closing x s ts frames with
    | .error e => .error e
    | .ok after => closeBracket closing after
termination_by frames => frames.length
decreasing_by
  have hlength := length_closeBinder _h
  simp only [List.length_cons]
  omega

/-- Closes the binders that the end of the input closes, and puts the terms of the top level
together. -/
def closeAll : List Scope → Except Stop Term × List Scope
  | [] => (.error .noFrame, [])
  | [scope] =>
    if scope.terms.isEmpty then (.error (.structural .emptyExpression none), [scope])
    else ((Term.assemble scope.terms).mapError .malformed, [scope])
  | .bracket s ts :: frames =>
    (.error (.structural .missingClosingBracket s), .bracket s ts :: frames)
  | .binder x s ts :: frames =>
    match _h : closeBinder none x s ts frames with
    | .error (stop, left) => (.error stop, left)
    | .ok after => closeAll after
termination_by frames => frames.length
decreasing_by
  have hlength := length_closeBinder _h
  simp only [List.length_cons]
  omega

theorem closeBracket_binder (closing : Option Span) (x : String) (s : Option Span) (ts : List Term)
    {frames : List Scope} (h : frames ≠ []) :
    closeBracket closing (.binder x s ts :: frames) =
      (closeBinder closing x s ts frames).bind (closeBracket closing) := by
  rw [closeBracket]
  · split
    · rename_i hclose
      rw [hclose]
      rfl
    · rename_i hclose
      rw [hclose]
      rfl
  · exact h

theorem closeAll_binder (x : String) (s : Option Span) (ts : List Term) {frames : List Scope}
    (h : frames ≠ []) :
    closeAll (.binder x s ts :: frames) =
      match closeBinder none x s ts frames with
      | .error (stop, left) => (.error stop, left)
      | .ok after => closeAll after := by
  rw [closeAll]
  · split
    · rename_i hclose
      rw [hclose]
    · rename_i hclose
      rw [hclose]
  · exact h

def start : Framed := ⟨.normal, [.bracket none []]⟩

/-- Goes on outside any header with the frames of `o`, or stops with those that are left. -/
def resume (m : Framed) : Outcome → Except (Stop × Framed) Framed
  | .ok frames => .ok ⟨.normal, frames⟩
  | .error (stop, left) => .error (stop, ⟨m.mode, left⟩)

/-- Reads one token. -/
def step (m : Framed) (t : Token) : Except (Stop × Framed) Framed :=
  let fail (kind : ParseError.Kind) := .error (.structural kind t.span, m)
  match m.mode, t.kind with
  | .normal, .opening => .ok ⟨.normal, .bracket t.span [] :: m.frames⟩
  | .normal, .closing => m.resume (closeBracket t.span m.frames)
  | .normal, .identifier x => m.resume (addTerm (.var x) m.frames)
  | .normal, .lambda => .ok ⟨.lambda, m.frames⟩
  | .normal, .dot => fail .dotWithoutLambda
  | .lambda, .identifier x => .ok ⟨.header, .binder x t.span [] :: m.frames⟩
  | .lambda, _ => fail .expectedIdentifierAfterLambda
  | .header, .identifier x => .ok ⟨.header, .binder x t.span [] :: m.frames⟩
  | .header, .dot => .ok ⟨.normal, m.frames⟩
  | .header, _ => fail .expectedDotOrIdentifier

/-- Ends the input. -/
def finish (m : Framed) : Except Stop Term × Framed :=
  match m.mode, m.frames with
  | .lambda, _ => (.error (.structural .expectedIdentifierAfterLambda none), m)
  | .header, [] => (.error .noFrame, m)
  | .header, scope :: _ => (.error (.structural .expectedDotOrIdentifier scope.span), m)
  | .normal, frames =>
    let (result, left) := closeAll frames
    (result, ⟨m.mode, left⟩)

/-- Reads tokens one after the other, up to the first that stops the parse. -/
def read (m : Framed) (tokens : List Token) : Except (Stop × Framed) Framed := tokens.foldlM step m

/-- Reads all of the input, and ends at the first lexing error in it. -/
def run (m : Framed) : List Lexeme → Except Stop Term × Framed
  | [] => m.finish
  | .error e :: rest => (.error (.failure (.lexical (e :: Parsing.lexErrors rest))), m)
  | .ok t :: rest =>
    match m.step t with
    | .error (stop, m) => (.error stop, m)
    | .ok m => run m rest

end Framed

namespace Stack

/-- The frames of a stack, innermost first, with the top level as the last of them. -/
def frames (s : Stack) : List Scope := s.scopes ++ [.bracket none s.base]

theorem frames_append (new : List Term) (base : List Term) (scopes : List Scope) :
    ∃ scope rest, frames ⟨base, scopes⟩ = scope :: rest ∧
      (append new ⟨base, scopes⟩).frames = scope.append new :: rest := by
  cases scopes with
  | nil => exact ⟨_, _, rfl, rfl⟩
  | cons scope scopes => exact ⟨_, _, rfl, rfl⟩

theorem frames_append_bracket (new base ts : List Term) (span : Option Span)
    (scopes : List Scope) :
    (append new ⟨base, .bracket span ts :: scopes⟩).frames =
      .bracket span (ts ++ new) :: frames ⟨base, scopes⟩ := rfl

theorem frames_append_binder (new base ts : List Term) (x : String) (span : Option Span)
    (scopes : List Scope) :
    (append new ⟨base, .binder x span ts :: scopes⟩).frames =
      .binder x span (ts ++ new) :: frames ⟨base, scopes⟩ := rfl

theorem frames_ne_nil (s : Stack) : s.frames ≠ [] := by simp [frames]

theorem append_nil (s : Stack) : s.append [] = s := by
  obtain ⟨base, scopes⟩ := s
  match scopes with
  | [] => simp [append]
  | .bracket _ _ :: _ => simp [append, Scope.append]
  | .binder _ _ _ :: _ => simp [append, Scope.append]

end Stack

/-- The same parse with its frames in a plain list. -/
def Parsing.framed (p : Parsing) : Framed := ⟨p.mode, p.stack.frames⟩

namespace Framed

/-- What closing scopes comes to, with the frames in a plain list. -/
def ofStack : Except (ParseError × Stack) Stack → Outcome
  | .ok s => .ok s.frames
  | .error (e, s) => .error (.failure (.structural e), s.frames)

theorem handDown_frames {ts : List Term} {t : Term} (ht : Term.collapse ts = .ok t)
    (wrap : Term → Term) (base : List Term) (scopes : List Scope) :
    handDown wrap ts (Stack.frames ⟨base, scopes⟩) =
      .ok (Stack.append [wrap t] ⟨base, scopes⟩).frames := by
  obtain ⟨scope, rest, hframes, happend⟩ := Stack.frames_append [wrap t] base scopes
  have hjoin : Term.assemble ts = .ok t := (Term.assemble_eq_collapse ts).trans ht
  rw [hframes, happend]
  simp only [handDown, hjoin, addTerm]

theorem closeBinder_frames (closing : Option Span) (x : String) (s : Option Span) (ts : List Term)
    (base : List Term) (scopes : List Scope) :
    closeBinder closing x s ts (Stack.frames ⟨base, scopes⟩) =
      match Term.collapse ts with
      | .error _ => .error (.structural .missingBody (closing.or s), Stack.frames ⟨base, scopes⟩)
      | .ok body => .ok (Stack.append [.lam x body] ⟨base, scopes⟩).frames := by
  cases ts with
  | nil => rfl
  | cons t ts =>
    have ht : Term.collapse (t :: ts) = .ok (t.applyTo ts) := rfl
    simp [closeBinder, ht, handDown_frames ht]

/-- Closing a bracket goes the way of a stack with its top level: the term closed last stands in the
innermost frame already. -/
theorem closeBracket_frames (closing : Option Span) (base done : List Term) (scopes : List Scope) :
    closeBracket closing (Stack.append done ⟨base, scopes⟩).frames =
      ofStack (Stack.closeBracket closing base done scopes) := by
  induction scopes generalizing done with
  | nil =>
    simp [Stack.append, Stack.frames, closeBracket, Stack.closeBracket, ofStack, Stop.structural]
  | cons scope scopes ih =>
    cases scope with
    | bracket s ts =>
      rw [Stack.frames_append_bracket, closeBracket, Stack.closeBracket]
      · cases hts : ts ++ done with
        | nil => rfl
        | cons t rest =>
          have ht : Term.collapse (t :: rest) = .ok (t.applyTo rest) := rfl
          simp [ht, handDown_frames ht, ofStack]
      · exact Stack.frames_ne_nil _
    | binder x s ts =>
      rw [Stack.frames_append_binder, closeBracket_binder _ _ _ _ (Stack.frames_ne_nil _),
        closeBinder_frames, Stack.closeBracket]
      cases Term.collapse (ts ++ done) with
      | error m => rfl
      | ok body => exact ih [.lam x body]

/-- The end of the input goes the way of a stack with its top level. -/
theorem closeAll_frames (base done : List Term) (scopes : List Scope) :
    closeAll (Stack.append done ⟨base, scopes⟩).frames =
      ((Stack.closeAll base done scopes).1.mapError fun e => .failure (.structural e),
        (Stack.closeAll base done scopes).2.frames) := by
  induction scopes generalizing done with
  | nil =>
    have hframes : (Stack.append done ⟨base, []⟩).frames = [.bracket none (base ++ done)] := rfl
    rw [hframes, closeAll, Stack.closeAll]
    cases hts : base ++ done with
    | nil => rfl
    | cons t rest =>
      have ht : Term.collapse (t :: rest) = .ok (t.applyTo rest) := rfl
      have hjoin := (Term.assemble_eq_collapse (t :: rest)).trans ht
      simp only [Scope.terms, List.isEmpty_cons, Bool.false_eq_true, if_false, hjoin, ht]
      rfl
  | cons scope scopes ih =>
    cases scope with
    | bracket s ts =>
      rw [Stack.frames_append_bracket, closeAll, Stack.closeAll]
      · rfl
      · exact Stack.frames_ne_nil _
    | binder x s ts =>
      rw [Stack.frames_append_binder, closeAll_binder _ _ _ (Stack.frames_ne_nil _),
        closeBinder_frames, Stack.closeAll]
      cases Term.collapse (ts ++ done) with
      | error m => rfl
      | ok body => exact ih [.lam x body]

/-- What reading comes to, with the frames in a plain list. -/
def ofParsing : Except (ParseError × Parsing) Parsing → Except (Stop × Framed) Framed
  | .ok p => .ok p.framed
  | .error (e, p) => .error (.failure (.structural e), p.framed)

theorem step_framed (p : Parsing) (t : Token) : p.framed.step t = ofParsing (p.step t) := by
  obtain ⟨mode, base, scopes⟩ := p
  obtain ⟨kind, span⟩ := t
  cases mode with
  | normal =>
    cases kind with
    | closing =>
      have hclose := closeBracket_frames span base [] scopes
      rw [Stack.append_nil] at hclose
      simp only [step, Parsing.framed, Parsing.step, hclose]
      cases Stack.closeBracket span base [] scopes <;> rfl
    | identifier x =>
      obtain ⟨scope, rest, hframes, happend⟩ := Stack.frames_append [.var x] base scopes
      simp only [step, Parsing.framed, Parsing.step, ofParsing, hframes, happend, addTerm, resume]
    | _ => rfl
  | lambda => cases kind <;> rfl
  | header => cases kind <;> rfl

theorem finish_framed (p : Parsing) :
    p.framed.finish =
      (p.finish.1.mapError fun e => .failure (.structural e), p.finish.2.framed) := by
  obtain ⟨mode, base, scopes⟩ := p
  cases mode with
  | normal =>
    have hclose := closeAll_frames base [] scopes
    rw [Stack.append_nil] at hclose
    simp only [finish, Parsing.framed, Parsing.finish, hclose]
  | lambda => rfl
  | header =>
    cases scopes with
    | nil => rfl
    | cons scope scopes => rfl

/-- A parse with a plain list of frames ends as one does whose stack always has its top level. -/
theorem run_framed (p : Parsing) (lexemes : List Lexeme) :
    p.framed.run lexemes = ((p.run lexemes).1.mapError .failure, (p.run lexemes).2.framed) := by
  induction lexemes generalizing p with
  | nil =>
    have hrun : p.run [] = (p.finish.1.mapError .structural, p.finish.2) := rfl
    rw [run, finish_framed, hrun]
    cases p.finish.1 <;> rfl
  | cons lexeme lexemes ih =>
    cases lexeme with
    | error e => rfl
    | ok token =>
      rw [run, step_framed, Parsing.run]
      cases p.step token with
      | error e => rfl
      | ok q => exact ih q

theorem read_framed (p : Parsing) (tokens : List Token) :
    p.framed.read tokens = ofParsing (p.read tokens) := by
  induction tokens generalizing p with
  | nil => rfl
  | cons token tokens ih =>
    rw [read, List.foldlM_cons, step_framed, Parsing.read_cons]
    cases p.step token with
    | error e => rfl
    | ok q => exact ih q

theorem run_of_read {m m' : Framed} {tokens : List Token} (h : m.read tokens = .ok m')
    (rest : List Lexeme) : m.run (tokens.map .ok ++ rest) = m'.run rest := by
  induction tokens generalizing m with
  | nil =>
    obtain rfl : m = m' := Except.ok.inj h
    rfl
  | cons token tokens ih =>
    rw [read, List.foldlM_cons] at h
    cases hstep : m.step token with
    | error e => simp [hstep, bind, Except.bind] at h
    | ok q =>
      rw [hstep] at h
      have hrest := ih h
      simp only [List.map_cons, List.cons_append, run, hstep, hrest]

end Framed

end NormalOrder
