import NormalOrder.Session

namespace NormalOrder

open Text (Palette)

namespace Sink

/-- Whether a trace is quiet; other sinks have no such setting. -/
def quiet? : Sink → Option Bool
  | .trace tr => some tr.quiet
  | .collect _ => none

/-- Nothing of a run is left in a trace. -/
def IsIdle : Sink → Prop
  | .trace tr => tr.steps = 0 ∧ tr.last = none
  | .collect _ => True

@[simp] theorem quiet?_put [Palette] (s : Sink) (t : Term) : (s.put t).2.1.quiet? = s.quiet? := by
  cases s <;> rfl

@[simp] theorem quiet?_close (s : Sink) : s.close.2.quiet? = s.quiet? := by
  cases s <;> rfl

theorem isIdle_close (s : Sink) : s.close.2.IsIdle := by
  cases s with
  | trace tr => exact ⟨rfl, rfl⟩
  | collect ts => trivial

end Sink

namespace Session

/-- The session `t` is `s` in the middle of a reduction. -/
structure Continues (s t : Session) : Prop where
  budget : t.budget = s.budget
  showTokens : t.showTokens = s.showTokens
  quiet : t.sink.quiet? = s.sink.quiet?
  reporter : t.reporter = s.reporter

/-- The session `t` is left of `s` by a reduction with this result. -/
structure EndsIn [Palette] (s t : Session) (result : Except Fault (Option Term)) : Prop where
  budget : t.budget = s.budget
  showTokens : t.showTokens = s.showTokens
  quiet : t.sink.quiet? = s.sink.quiet?
  idle : t.sink.IsIdle
  reporter : t.reporter = match result with
    | .ok _ => s.reporter.remove
    | .error _ => s.reporter
  fault : ∀ fault, result = .error fault → fault = .interrupted ∨ ∃ c, fault = .ofClash c

theorem Continues.endsIn [Palette] {s t u : Session} {result : Except Fault (Option Term)}
    (h : s.Continues t) (hu : t.EndsIn u result) : s.EndsIn u result where
  budget := hu.budget.trans h.budget
  showTokens := hu.showTokens.trans h.showTokens
  quiet := hu.quiet.trans h.quiet
  idle := hu.idle
  reporter := by rw [hu.reporter, h.reporter]
  fault := hu.fault

theorem continues_put [Palette] (s : Session) (t : Term) : s.Continues
    { s with sink := (s.sink.put t).2.1 } :=
  ⟨rfl, rfl, s.sink.quiet?_put t, rfl⟩

theorem conclude_endsIn [Palette] (s : Session) (result : Except Fault (Option Term))
    (h : ∀ fault, result = .error fault → fault = .interrupted ∨ ∃ c, fault = .ofClash c) :
    s.EndsIn (s.conclude result).session (s.conclude result).result :=
  ⟨rfl, rfl, s.sink.quiet?_close, s.sink.isIdle_close, rfl, h⟩

end Session

/-- What comes of the session `s`: it goes on, or it is left by the end of the reduction. -/
def Progress.Follows [Palette] (s : Session) : Progress → Prop
  | .running r => s.Continues r.session
  | .ended t result => s.EndsIn t result

namespace Run

theorem next_follows [Palette] (r : Run) : r.next.2.Follows r.session := by
  have hput := r.session.continues_put r.term
  have hok (u : Session) (last : Option Term) :
      u.EndsIn (u.conclude (.ok last)).session (u.conclude (.ok last)).result :=
    u.conclude_endsIn _ (by simp)
  have herror (u : Session) (fault : Fault) (h : fault = .interrupted ∨ ∃ c, fault = .ofClash c) :
      u.EndsIn (u.conclude (.error fault)).session (u.conclude (.error fault)).result :=
    u.conclude_endsIn _ (by simpa using h)
  unfold next
  split
  · exact hok _ _
  · -- a term was put: only the sink has changed when the reduction ends here
    dsimp only
    split
    · exact hput.endsIn (herror _ _ (.inl rfl))
    · split
      · exact hput.endsIn (herror _ _ (.inr ⟨_, rfl⟩))
      · exact hput.endsIn (hok _ _)
      · exact hput

theorem toEnd_of_ended [Palette] {r : Run} {printed : Text.Styled} {t : Session}
    {result : Except Fault (Option Term)} (h : r.next = (printed, .ended t result)) (fuel : Nat) :
    r.toEnd (fuel + 1) = ⟨printed, t, result⟩ := by
  rw [toEnd, h]

theorem toEnd_of_running [Palette] {r r' : Run} {printed : Text.Styled}
    (h : r.next = (printed, .running r'))
    (fuel : Nat) : r.toEnd (fuel + 1) = (r'.toEnd fuel).after printed := by
  rw [toEnd, h]

theorem toEnd_endsIn [Palette] (r : Run) (fuel : Nat) :
    r.session.EndsIn (r.toEnd fuel).session (r.toEnd fuel).result := by
  induction fuel generalizing r with
  | zero => exact r.session.conclude_endsIn _ (by simp)
  | succ fuel ih =>
    have hnext := r.next_follows
    rcases hr : r.next with ⟨printed, r' | ⟨t, result⟩⟩
    · rw [hr] at hnext
      rw [toEnd_of_running hr]
      exact Session.Continues.endsIn hnext (ih r')
    · rw [hr] at hnext
      rw [toEnd_of_ended hr]
      exact hnext

end Run

namespace Session

theorem complete_start_ok [Palette] {lexemes : List Lexeme} {t : Term} (h : parse lexemes = .ok t)
    (s : Session) (patience : Nat) :
    s.EndsIn (complete patience (s.start lexemes)).session
      (complete patience (s.start lexemes)).result := by
  have hends := Run.toEnd_endsIn ⟨s, t, 0, 0, none⟩ (s.horizon patience)
  simpa only [start, h, complete, Outcome.after] using hends

/-- Nothing is reduced if nothing can be parsed, so there is no sink to close. -/
theorem complete_start_error [Palette] {lexemes : List Lexeme} {failure : ParseFailure}
    (h : parse lexemes = .error failure) (s : Session) (patience : Nat) :
    (complete patience (s.start lexemes)).session = s ∧
      (complete patience (s.start lexemes)).result = .error (.ofParseFailure failure) := by
  simp only [start, h, complete, and_self]

end Session

/-- A fault that is not an exit is reported; after that the source is forgotten, unless the report
ends the program. -/
theorem Reporter.settle_failure [Palette] {α : Type} {fault : Fault} {f : Failure}
    (h : failureOf fault = some f) (r : Reporter) :
    r.settle (.error fault : Except Fault α) =
      if r.fatal then ⟨(r.throw f).1, r, .error (.exit (.code 1))⟩
      else ⟨(r.throw f).1, r.remove, if passesOn fault then .error fault else .ok none⟩ := by
  simp only [settle, h, throw]
  cases r.fatal <;> rfl

end NormalOrder
