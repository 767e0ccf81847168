import NormalOrder.Proofs.Endings
import NormalOrder.Proofs.Templates

namespace NormalOrder

open Reporter (failureOf)
open Text (Palette)

/-- What is run, and under which name. -/
inductive Session.Source where
  | text (text path : String)
  | file (path : String) (file : Opened)

/-- One run that is asked for: its source, for how many terms the user has patience, and after which
term of the run the user interrupts. -/
structure Session.Call where
  source : Session.Source
  patience : Nat
  interrupt : Option Int

/-- The sink with another moment for the user to interrupt. -/
def Sink.awaiting (interrupt : Option Int) : Sink → Sink
  | .trace tr => .trace { tr with interruptAfter := interrupt }
  | .collect ts => .collect ts

namespace Session

def awaiting (s : Session) (interrupt : Option Int) : Session :=
  { s with sink := s.sink.awaiting interrupt }

def run [Palette] (s : Session) (patience : Nat) : Source → Outcome (Option Term)
  | .text text path => s.runText patience text path
  | .file path file => s.runFile patience path file

/-- Makes one guarded run. -/
def perform [Palette] (s : Session) (c : Call) : Outcome (Option (Option Term)) :=
  ((s.awaiting c.interrupt).run c.patience c.source).guarded

/-- Makes one guarded run after the other. -/
def performAll [Palette] (s : Session) : List Call → List (Outcome (Option (Option Term)))
  | [] => []
  | c :: calls => s.perform c :: (s.perform c).session.performAll calls

/-- A session that prints traces, goes on after failures and has made no run yet. -/
def fresh (quiet : Bool) (budget : Option Int) (showTokens : Bool) : Session :=
  { reporter := { fatal := false }
    sink := .trace { quiet := quiet }
    budget := budget
    showTokens := showTokens }

/-- The session `t` is left of `s` by a run with this result. -/
structure Leaves [Palette] (s t : Session) (result : Except Fault (Option Term)) : Prop where
  budget : t.budget = s.budget
  showTokens : t.showTokens = s.showTokens
  quiet : t.sink.quiet? = s.sink.quiet?
  idle : t.sink.IsIdle
  fatal : t.reporter.fatal = s.reporter.fatal
  forgotten : ∀ last, result = .ok last → t.reporter = s.reporter.remove
  reported : ∀ fault, result = .error fault → ∃ f, failureOf fault = some f

theorem leaves_fault [Palette] {s : Session} (hidle : s.sink.IsIdle) (r : Reporter)
    (hr : r.fatal = s.reporter.fatal) {fault : Fault} (hfault : ∃ f, failureOf fault = some f) :
    s.Leaves { s with reporter := r } (.error fault) := by
  refine ⟨rfl, rfl, rfl, hidle, hr, by simp, ?_⟩
  intro own hown
  cases hown
  exact hfault

theorem EndsIn.leaves [Palette] {s t : Session} {path : String} {lines : List String}
    {result : Except Fault (Option Term)}
    (h : { s with reporter := s.reporter.register path lines }.EndsIn t result) :
    s.Leaves t result where
  budget := h.budget
  showTokens := h.showTokens
  quiet := h.quiet
  idle := h.idle
  fatal := by
    rw [h.reporter]
    cases result <;> rfl
  forgotten := by
    rintro last rfl
    exact h.reporter
  reported := by
    intro fault hfault
    obtain rfl | ⟨c, rfl⟩ := h.fault fault hfault
    · exact ⟨_, rfl⟩
    · exact ⟨_, rfl⟩

theorem exists_failureOf_parse [Palette] (failure : ParseFailure) :
    ∃ f, failureOf (.ofParseFailure failure) = some f := by
  cases failure with
  | structural e => exact ⟨_, rfl⟩
  | lexical errors =>
    obtain ⟨causes, hcauses, -⟩ := Fault.ofLexErrors_eq errors
    exact ⟨.lexical causes, by rw [Fault.ofParseFailure, hcauses]; rfl⟩

theorem leaves_start [Palette] {s : Session} (hidle : s.sink.IsIdle) (patience : Nat)
    (path : String) (lines : List String) (lexemes : List Lexeme) :
    let o := complete patience ({ s with reporter := s.reporter.register path lines }.start lexemes)
    s.Leaves o.session o.result := by
  intro o
  cases hparse : parse lexemes with
  | error failure =>
    obtain ⟨hsession, hresult⟩ := complete_start_error hparse
      { s with reporter := s.reporter.register path lines } patience
    rw [hsession, hresult]
    exact leaves_fault hidle (s.reporter.register path lines) rfl (exists_failureOf_parse failure)
  | ok t => exact (complete_start_ok hparse _ patience).leaves

theorem leaves_run [Palette] {s : Session} (hidle : s.sink.IsIdle) (patience : Nat)
    (source : Source) :
    s.Leaves (s.run patience source).session (s.run patience source).result := by
  cases source with
  | text text path => exact leaves_start hidle patience path _ _
  | file path file =>
    simp only [run, runFile, startFile]
    split
    · -- a file that cannot be opened is never registered
      exact leaves_fault hidle s.reporter rfl ⟨_, rfl⟩
    · cases file with
      | refused => exact leaves_fault hidle s.reporter rfl ⟨_, rfl⟩
      | bytes content =>
        dsimp only
        split
        · exact leaves_fault hidle (s.reporter.register path _) rfl ⟨_, rfl⟩
        · exact leaves_start hidle patience path _ _

theorem Leaves.guarded_reporter [Palette] {s : Session} {o : Outcome (Option Term)}
    (h : s.Leaves o.session o.result) (hfatal : s.reporter.fatal = false) :
    o.guarded.session.reporter = s.reporter.remove := by
  cases hresult : o.result with
  | ok last =>
    simp only [Outcome.guarded, hresult, Reporter.settle]
    exact h.forgotten last hresult
  | error fault =>
    obtain ⟨f, hf⟩ := h.reported fault hresult
    have hgoesOn : o.session.reporter.fatal = false := h.fatal.trans hfatal
    simp only [Outcome.guarded, hresult, Reporter.settle_failure hf, hgoesOn, Bool.false_eq_true,
      if_false, Reporter.remove, hfatal]

/-- A session that made runs before differs from a fresh one in the next interrupt at most. -/
def Idle (quiet : Bool) (budget : Option Int) (showTokens : Bool) (s : Session) : Prop :=
  ∃ interrupt, s = (fresh quiet budget showTokens).awaiting interrupt

/-- What a call does in a session that made other calls before: what it does in a fresh one, and
nothing of it is left. -/
structure Independent [Palette] (quiet : Bool) (budget : Option Int) (showTokens : Bool) (c : Call)
    (o : Outcome (Option (Option Term))) : Prop where
  path : o.session.reporter.path = none
  lines : o.session.reporter.lines = []
  trace : ∃ tr, o.session.sink = .trace tr ∧ tr.steps = 0 ∧ tr.last = none
  printed : o.printed = ((fresh quiet budget showTokens).perform c).printed
  result : o.result = ((fresh quiet budget showTokens).perform c).result

section

variable {quiet : Bool} {budget : Option Int} {showTokens : Bool}

theorem idle_fresh : Idle quiet budget showTokens (fresh quiet budget showTokens) := ⟨none, rfl⟩

theorem perform_idle [Palette] {s : Session} (h : Idle quiet budget showTokens s) (c : Call) :
    s.perform c = (fresh quiet budget showTokens).perform c := by
  obtain ⟨interrupt, rfl⟩ := h
  rfl

theorem idle_of_isIdle {t : Session} (hreporter : t.reporter = { fatal := false })
    (hbudget : t.budget = budget) (htokens : t.showTokens = showTokens)
    (hquiet : t.sink.quiet? = some quiet) (hidle : t.sink.IsIdle) :
    Idle quiet budget showTokens t := by
  obtain ⟨reporter, sink, _, _⟩ := t
  cases sink with
  | collect ts => cases hquiet
  | trace tr =>
    obtain ⟨_, steps, last, interrupt⟩ := tr
    obtain ⟨rfl, rfl⟩ : steps = 0 ∧ last = none := hidle
    cases hquiet
    cases hbudget
    cases htokens
    cases hreporter
    exact ⟨interrupt, rfl⟩

theorem idle_perform_fresh [Palette] (c : Call) :
    Idle quiet budget showTokens ((fresh quiet budget showTokens).perform c).session := by
  have hidle : ((fresh quiet budget showTokens).awaiting c.interrupt).sink.IsIdle := ⟨rfl, rfl⟩
  have hleaves := leaves_run hidle c.patience c.source
  exact idle_of_isIdle (hleaves.guarded_reporter rfl) hleaves.budget hleaves.showTokens
    hleaves.quiet hleaves.idle

theorem independent_perform [Palette] (c : Call) :
    Independent quiet budget showTokens c ((fresh quiet budget showTokens).perform c) := by
  obtain ⟨interrupt, hsession⟩ : Idle quiet budget showTokens _ := idle_perform_fresh c
  refine ⟨?_, ?_, ?_, rfl, rfl⟩
  all_goals rw [hsession]
  · rfl
  · rfl
  · exact ⟨_, rfl, rfl, rfl⟩

theorem independent_performAll [Palette] {s : Session} (h : Idle quiet budget showTokens s)
    (calls : List Call) :
    List.Forall₂ (Independent quiet budget showTokens) calls (s.performAll calls) := by
  induction calls generalizing s with
  | nil => exact .nil
  | cons c calls ih =>
    rw [performAll, perform_idle h]
    exact .cons (independent_perform c) (ih (idle_perform_fresh c))

end

/-- In whatever order texts and files are run, and whichever way each run ends, every run finds the
session without a source and with an empty trace, and is what it would be in a fresh session. -/
theorem runs_independent [Palette] (quiet : Bool) (budget : Option Int) (showTokens : Bool)
    (calls : List Call) :
    List.Forall₂ (Independent quiet budget showTokens) calls
      ((fresh quiet budget showTokens).performAll calls) :=
  independent_performAll idle_fresh calls

end Session

end NormalOrder
