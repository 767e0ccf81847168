import NormalOrder.Proofs.Diagnosis
import NormalOrder.Proofs.Simulation

namespace NormalOrder

open Text (Palette Styled)

namespace Text.Styled

@[simp] theorem text_bold [Palette] (s : String) : (bold s).text = s := by
  simp [text, bold, Style.piece]

@[simp] theorem text_line (s : Styled) : s.line.text = s.text ++ "\n" := by
  simp [line]

end Text.Styled

namespace Sink

/-- Gives the terms to the sink one after the other: what it prints, and the sink afterwards. -/
def putAll [Palette] (s : Sink) : List Term → Styled × Sink
  | [] => ([], s)
  | t :: ts =>
    let rest := (s.put t).2.1.putAll ts
    ((s.put t).1 ++ rest.1, rest.2)

/-- No interrupt is to come. -/
def Undisturbed : Sink → Prop
  | .trace tr => tr.interruptAfter = none
  | .collect _ => True

theorem Undisturbed.put [Palette] {s : Sink} (h : s.Undisturbed) (t : Term) :
    (s.put t).2.2 = false ∧ (s.put t).2.1.Undisturbed := by
  cases s with
  | trace tr =>
    have hnone : tr.interruptAfter = none := h
    simp [Sink.put, Trace.put, Undisturbed, hnone]
  | collect ts => exact ⟨rfl, trivial⟩

theorem putAll_collect [Palette] (ts us : List Term) :
    (collect ts).putAll us = ([], .collect (ts ++ us)) := by
  induction us generalizing ts with
  | nil => simp [putAll]
  | cons u us ih => simp [putAll, put, ih]

/-- The lines of a trace: the first term, and then each reduct with its mark. -/
def traceText : List Term → String
  | [] => ""
  | t :: ts => "  " ++ t.text ++ "\n" ++ String.join (ts.map fun u => "β " ++ u.text ++ "\n")

theorem putAll_trace_cons [Palette] (tr : Trace) (t : Term) (ts : List Term) :
    (trace tr).putAll (t :: ts) =
      ((tr.put t).1 ++ ((trace (tr.put t).2.1).putAll ts).1, ((trace (tr.put t).2.1).putAll ts).2) :=
  rfl

theorem text_putAll_marked [Palette] {tr : Trace} (hquiet : tr.quiet = false)
    (hsteps : tr.steps ≠ 0) (ts : List Term) :
    ((trace tr).putAll ts).1.text = String.join (ts.map fun u => "β " ++ u.text ++ "\n") := by
  induction ts generalizing tr with
  | nil => rfl
  | cons t ts ih =>
    have hrest := @ih (tr.put t).2.1 hquiet (Nat.succ_ne_zero tr.steps)
    have hentry : (tr.put t).1.text = "β " ++ t.text ++ "\n" := by
      simp [Trace.put, Trace.entry, hquiet, hsteps, ← String.append_assoc]
    rw [putAll_trace_cons, Styled.text_append, hentry, hrest, List.map_cons, String.join_cons]

theorem text_putAll_verbose [Palette] {tr : Trace} (hquiet : tr.quiet = false)
    (hsteps : tr.steps = 0) (ts : List Term) : ((trace tr).putAll ts).1.text = traceText ts := by
  cases ts with
  | nil => rfl
  | cons t ts =>
    have hrest := @text_putAll_marked _ (tr.put t).2.1 hquiet (Nat.succ_ne_zero tr.steps) ts
    have hentry : (tr.put t).1.text = "  " ++ t.text ++ "\n" := by
      simp [Trace.put, Trace.entry, hquiet, hsteps, ← String.append_assoc]
    rw [putAll_trace_cons, Styled.text_append, hentry, hrest, traceText]

@[simp] theorem quiet?_putAll [Palette] (s : Sink) (ts : List Term) :
    (s.putAll ts).2.quiet? = s.quiet? := by
  induction ts generalizing s with
  | nil => rfl
  | cons t ts ih => exact (ih _).trans (s.quiet?_put t)

/-- A trace that is not quiet has printed everything before it is closed. -/
theorem close_verbose {s : Sink} (h : s.quiet? = some false) : s.close.1 = [] := by
  cases s with
  | trace tr =>
    have hquiet : tr.quiet = false := Option.some.inj h
    simp only [close, Trace.close, hquiet]
  | collect ts => rfl

theorem putAll_quiet [Palette] {tr : Trace} (hquiet : tr.quiet = true) (ts : List Term) :
    ((trace tr).putAll ts).1 = [] ∧
      ∃ tr', ((trace tr).putAll ts).2 = .trace tr' ∧ tr'.quiet = true ∧
        tr'.last = ts.getLast?.or tr.last := by
  induction ts generalizing tr with
  | nil => exact ⟨rfl, tr, rfl, hquiet, rfl⟩
  | cons t ts ih =>
    have hentry : (tr.put t).1 = [] := by simp [Trace.put, hquiet]
    obtain ⟨hprinted, tr', hsink, hquiet', hlast⟩ := @ih (tr.put t).2.1 hquiet
    rw [putAll_trace_cons]
    refine ⟨by rw [hentry, hprinted]; rfl, tr', hsink, hquiet', ?_⟩
    rw [hlast, List.getLast?_cons]
    cases ts.getLast? <;> rfl

end Sink

namespace Session

/-- The listing of the tokens, if it is asked for. -/
def listing [Palette] (s : Session) (lexemes : List Lexeme) : Styled :=
  if s.showTokens then lexemes.flatMap fun l => Styled.line (.faint (lexemeText l)) else []

theorem start_ok [Palette] {lexemes : List Lexeme} {t : Term} (h : parse lexemes = .ok t)
    (s : Session) :
    s.start lexemes = (s.listing lexemes, .running ⟨s, t, 0, 0, none⟩) := by
  simp only [start, h, listing]

/-- A run that hands on `ts`, says `said` and ends at `last`. -/
def handsOn [Palette] (s : Session) (ts : List Term) (said : Styled) (last : Term) :
    Outcome (Option Term) :=
  ({ s with sink := (s.sink.putAll ts).2 }.conclude (.ok (some last))).after
    ((s.sink.putAll ts).1 ++ said)

/-- What a run says at its end: that it was stopped, unless it came to a normal form. -/
def remark [Palette] (s : Session) (budget : Int) (isNormal : Bool) : Styled :=
  if isNormal then [] else s.reporter.report .warning (exhausted budget)

theorem handsOn_cons [Palette] (s : Session) (t : Term) (ts : List Term) (said : Styled)
    (last : Term) :
    s.handsOn (t :: ts) said last =
      ({ s with sink := (s.sink.put t).2.1 }.handsOn ts said last).after (s.sink.put t).1 := by
  simp [handsOn, Sink.putAll, Outcome.after, conclude]

theorem text_remark [Palette] (s : Session) (budget : Int) (isNormal : Bool) :
    (s.remark budget isNormal).text =
      if isNormal then ""
      else s.reporter.locate none ++ "warning: stopped after " ++ toString budget ++
        " steps without reaching a normal form\n" := by
  cases isNormal with
  | true => rfl
  | false =>
    have hstopped : "warning: stopped after " = "warning: " ++ "stopped after " := by decide
    have hfeed : " steps without reaching a normal form\n" =
        " steps without reaching a normal form" ++ "\n" := by decide
    rw [hstopped, hfeed]
    simp only [remark, Reporter.report, Reporter.headline, exhausted, Severity.label,
      Bool.false_eq_true, if_false, Bool.and_false, Option.map_none, Option.getD_none, List.append_nil,
      Styled.text_line, Styled.text_append, Styled.text_bold, Styled.text_boldIn, Styled.text_plain,
      String.append_assoc]

end Session

namespace Run

theorem overBudget_of_le {r : Run} {n : Int} (hbudget : r.session.budget = some n)
    (h : r.step ≤ n) : r.overBudget = none := by
  simp [overBudget, hbudget, h]

theorem overBudget_of_lt {r : Run} {n : Int} (hbudget : r.session.budget = some n)
    (h : n < r.step) : r.overBudget = some n := by
  simp [overBudget, hbudget, h]

/-- A run within its budget that meets a normal form ends there. -/
theorem next_normal [Palette] {r : Run} {d : Int} (hover : r.overBudget = none)
    (hsink : r.session.sink.Undisturbed) (h : Naming.Yields r.term.step r.counter none d) :
    r.next = { r.session with sink := (r.session.sink.put r.term).2.1 }.finish (.ok (some r.term))
      (r.session.sink.put r.term).1 := by
  have hstep : r.term.step r.counter = (.ok none, d) := h
  simp only [next, hover, (hsink.put r.term).1, Bool.false_eq_true, if_false, hstep]

theorem next_step [Palette] {r : Run} {u : Term} {d : Int} (hover : r.overBudget = none)
    (hsink : r.session.sink.Undisturbed) (h : Naming.Yields r.term.step r.counter (some u) d) :
    r.next = ((r.session.sink.put r.term).1,
      .running ⟨{ r.session with sink := (r.session.sink.put r.term).2.1 }, u, d, r.step + 1,
        some r.term⟩) := by
  have hstep : r.term.step r.counter = (.ok (some u), d) := h
  simp only [next, hover, (hsink.put r.term).1, Bool.false_eq_true, if_false, hstep]

theorem next_over [Palette] {r : Run} {n : Int} (hover : r.overBudget = some n) :
    r.next = r.session.finish (.ok r.last) (r.session.reporter.report .warning (exhausted n)) := by
  simp only [next, hover]

theorem toEnd_normal [Palette] {r : Run} {d : Int} (hover : r.overBudget = none)
    (hsink : r.session.sink.Undisturbed) (h : Naming.Yields r.term.step r.counter none d)
    (fuel : Nat) : r.toEnd (fuel + 1) = r.session.handsOn [r.term] [] r.term := by
  rw [toEnd_of_ended (next_normal hover hsink h)]
  simp [Session.handsOn, Sink.putAll, Session.Outcome.after]

theorem toEnd_over [Palette] {r : Run} {n : Int} {t : Term} (hover : r.overBudget = some n)
    (hlast : r.last = some t) (fuel : Nat) :
    r.toEnd (fuel + 1) = r.session.handsOn [] (r.session.remark n false) t := by
  rw [toEnd_of_ended (next_over hover), hlast]
  rfl

/-- A run that has made `i` steps and may make `n` more hands on the terms that the reduction goes
through from there within `n` steps. -/
theorem toEnd_reduceFrom [Palette] {s : Session} {t : Term} {c : Int} {i n : Nat} {r : Term.Reduct}
    (hsink : s.sink.Undisturbed) (hbudget : s.budget = some ((i + n : Nat) : Int))
    (h : Term.reduceFrom c t i n = .ok r) (last : Option Term) :
    ∃ ts : List Term, r.steps + 1 = (i + ts.length : Nat) ∧ ts.getLast? = some r.term ∧
      Term.reductsFrom c t ts.length = .ok (ts, r.isNormal) ∧
      toEnd ⟨s, t, c, i, last⟩ (n + 2) =
        s.handsOn ts (s.remark ((i + n : Nat) : Int) r.isNormal) r.term := by
  induction n generalizing s t c i last with
  | zero =>
    have hover : overBudget ⟨s, t, c, i, last⟩ = none := overBudget_of_le hbudget (by dsimp only; omega)
    obtain ⟨d, hnormal, rfl⟩ | ⟨u, d, hstep, ⟨-, rfl⟩ | ⟨m, hm, -⟩⟩ := Term.reduceFrom_cases h
    · exact ⟨[t], by simp, rfl, Term.reductsFrom_normal hnormal 0, toEnd_normal hover hsink hnormal 1⟩
    · refine ⟨[t], by simp, rfl, ?_, ?_⟩
      · rw [List.length_singleton, Term.reductsFrom_step hstep]
        rfl
      · -- one more term is reached, and found to lie beyond the budget
        have hbeyond : overBudget ⟨{ s with sink := (s.sink.put t).2.1 }, u, d, i + 1, some t⟩ =
            some ((i + 0 : Nat) : Int) := overBudget_of_lt hbudget (by dsimp only; omega)
        rw [toEnd_of_running (next_step hover hsink hstep), toEnd_over hbeyond rfl, Session.handsOn_cons]
        rfl
    · omega
  | succ n ih =>
    have hover : overBudget ⟨s, t, c, i, last⟩ = none :=
      overBudget_of_le hbudget (by dsimp only; omega)
    obtain ⟨d, hnormal, rfl⟩ | ⟨u, d, hstep, ⟨hn, -⟩ | ⟨m, hm, hrest⟩⟩ := Term.reduceFrom_cases h
    · exact ⟨[t], by simp, rfl, Term.reductsFrom_normal hnormal 0, toEnd_normal hover hsink hnormal _⟩
    · omega
    · obtain rfl : n = m := by omega
      have hcount : i + (n + 1) = i + 1 + n := by omega
      rw [hcount] at hbudget ⊢
      obtain ⟨ts, hsteps, hlast, hreducts, hend⟩ :=
        @ih { s with sink := (s.sink.put t).2.1 } u d (i + 1) (hsink.put t).2 hbudget hrest (some t)
      refine ⟨t :: ts, ?_, ?_, ?_, ?_⟩
      · rw [hsteps, List.length_cons]
        omega
      · rw [List.getLast?_cons, hlast]
        rfl
      · rw [List.length_cons, Term.reductsFrom_step hstep, hreducts]
        rfl
      · rw [toEnd_of_running (next_step hover hsink hstep), hend, Session.handsOn_cons]
        rfl

end Run

namespace Session

variable {s : Session}

theorem handsOn_collect [Palette] {us : List Term} (h : s.sink = .collect us) (ts : List Term)
    (said : Styled) (last : Term) :
    (s.handsOn ts said last).printed = said ∧
      (s.handsOn ts said last).session.sink = .collect (us ++ ts) := by
  simp [handsOn, h, Sink.putAll_collect, conclude, Sink.close, Outcome.after]

theorem text_handsOn_verbose [Palette] {tr : Trace} (h : s.sink = .trace tr)
    (hquiet : tr.quiet = false)
    (hidle : tr.steps = 0) (ts : List Term) (said : Styled) (last : Term) :
    (s.handsOn ts said last).printed.text = Sink.traceText ts ++ said.text := by
  have hclosed : (s.sink.putAll ts).2.close.1 = [] := by
    refine Sink.close_verbose ?_
    rw [Sink.quiet?_putAll, h]
    exact congrArg some hquiet
  simp only [handsOn, conclude, Outcome.after, hclosed, List.append_nil, Styled.text_append]
  rw [h, Sink.text_putAll_verbose hquiet hidle]

theorem text_handsOn_quiet [Palette] {tr : Trace} (h : s.sink = .trace tr)
    (hquiet : tr.quiet = true)
    {ts : List Term} {last : Term} (hlast : ts.getLast? = some last) (said : Styled) :
    (s.handsOn ts said last).printed.text = said.text ++ (last.text ++ "\n") := by
  obtain ⟨hprinted, tr', hsink, hquiet', hlast'⟩ := Sink.putAll_quiet hquiet ts
  rw [hlast, Option.some_or] at hlast'
  simp [handsOn, conclude, Outcome.after, h, hprinted, hsink, Sink.close, Trace.close, hquiet',
    hlast']

/-- A run within a budget hands on the terms of the reduction within it. -/
theorem complete_start_bounded [Palette] {lexemes : List Lexeme} {t : Term} {n : Nat}
    {r : Term.Reduct} (hparse : parse lexemes = .ok t) (hbudget : s.budget = some (n : Int))
    (hsink : s.sink.Undisturbed) (h : Term.reduceFrom 0 t 0 n = .ok r) (patience : Nat) :
    ∃ ts : List Term, (ts.length : Int) = r.steps + 1 ∧ ts.getLast? = some r.term ∧
      t.reducts ts.length = .ok (ts, r.isNormal) ∧
      complete patience (s.start lexemes) =
        (s.handsOn ts (s.remark n r.isNormal) r.term).after (s.listing lexemes) := by
  have hzero : s.budget = some ((0 + n : Nat) : Int) := by rw [Nat.zero_add, hbudget]
  obtain ⟨ts, hsteps, hlast, hreducts, hend⟩ := Run.toEnd_reduceFrom hsink hzero h none
  rw [Nat.zero_add] at hsteps hend
  have hhorizon : s.horizon patience = n + 2 := by simp [horizon, hbudget]
  refine ⟨ts, hsteps.symm, hlast, hreducts, ?_⟩
  rw [start_ok hparse, complete, hhorizon]
  exact congrArg (Outcome.after (s.listing lexemes)) hend

end Session

/-- A term of a source is reduced without a clash for any number of steps. -/
theorem Term.exists_reduceFrom_of_parse {source : String} {t : Term} (h : parse (lex source) = .ok t)
    (n : Nat) : ∃ r, reduceFrom 0 t 0 n = .ok r := by
  have hclear : t.StaysClear 0 n := (freshFrom_of_parse h 0).staysClear n
  obtain ⟨u, -, k, done, hu, -⟩ := reduceFrom_alike 0 0 n hclear hclear rfl
  exact ⟨_, hu⟩

/-- A run of a source with a budget of `n` steps does what the reduction within `n` steps says. It hands
on the first term and one for each step taken, gives the last of them, and warns if that is no normal
form. A trace has a line for each term, or at the end the line of the last one if it is quiet. The run
knows no largest budget, unlike the reduction. -/
theorem Session.run_agrees_with_reduceWithin [Palette] {s : Session} {source : String} {t : Term}
    {n : Nat} (hparse : parse (lex source) = .ok t) (hbudget : s.budget = some (n : Int))
    (hsink : s.sink.Undisturbed) (patience : Nat) :
    let o := complete patience (s.start (lex source))
    let listed := (s.listing (lex source)).text
    ∃ (r : Term.Reduct) (ts : List Term),
      t.reduceWithin n =
        (if (n : Int) + 2 ≤ Term.maxTerms then .ok r else .error (.count .unreadable)) ∧
      (ts.length : Int) = r.steps + 1 ∧ t.reducts ts.length = .ok (ts, r.isNormal) ∧
      o = (s.handsOn ts (s.remark n r.isNormal) r.term).after (s.listing (lex source)) ∧
      o.result = .ok (some r.term) ∧
      (∀ us, s.sink = .collect us → o.session.sink = .collect (us ++ ts) ∧
        o.printed.render false = listed ++ (s.remark n r.isNormal).text) ∧
      (∀ tr, s.sink = .trace tr → tr.steps = 0 → tr.quiet = false →
        o.printed.render false = listed ++ Sink.traceText ts ++ (s.remark n r.isNormal).text) ∧
      (∀ tr, s.sink = .trace tr → tr.quiet = true →
        o.printed.render false =
          listed ++ (s.remark n r.isNormal).text ++ (r.term.text ++ "\n")) ∧
      (s.remark n r.isNormal).text =
        if r.isNormal then ""
        else s.reporter.locate none ++ "warning: stopped after " ++ toString (n : Int) ++
          " steps without reaching a normal form\n" := by
  intro o listed
  obtain ⟨r, hr⟩ := Term.exists_reduceFrom_of_parse hparse n
  obtain ⟨ts, hsteps, hlast, hreducts, ho⟩ :=
    complete_start_bounded hparse hbudget hsink hr patience
  have hrender : o.printed.render false =
      listed ++ (s.handsOn ts (s.remark n r.isNormal) r.term).printed.text := by
    rw [show o = _ from ho]
    exact Styled.text_append _ _
  refine ⟨r, ts, ?_, hsteps, hreducts, ho, ?_, ?_, ?_, ?_, s.text_remark n r.isNormal⟩
  · rw [Term.reduceWithin_nat, hr]
    rfl
  · rw [show o = _ from ho]
    rfl
  · intro us hcollect
    obtain ⟨hprinted, hkept⟩ := handsOn_collect hcollect ts (s.remark n r.isNormal) r.term
    refine ⟨?_, by rw [hrender, hprinted]⟩
    rw [show o = _ from ho]
    exact hkept
  · intro tr htrace hidle hverbose
    rw [hrender, text_handsOn_verbose htrace hverbose hidle, String.append_assoc]
  · intro tr htrace hquiet
    rw [hrender, text_handsOn_quiet htrace hquiet hlast, String.append_assoc]

/-- The normal form of `(λx.x) y` is reached in one step, so a budget of one is enough and one of none
is not. -/
theorem Session.run_agrees_with_reduceWithin_boundary :
    let verbose : Session :=
      { reporter := { fatal := true }, sink := .trace { quiet := false }, budget := some (1 : Nat) }
    let quiet : Session :=
      { reporter := { fatal := true }, sink := .trace { quiet := true }, budget := some (0 : Nat) }
    let source := "(λx.x) y"
    (complete 0 (verbose.start (lex source))).printed.render false = "  (λx.x) y\nβ y\n" ∧
      (complete 0 (quiet.start (lex source))).printed.render false =
        "warning: stopped after 0 steps without reaching a normal form\n(λx.x) y\n" := by
  intro verbose quiet source
  let t : Term := .app (.lam "x" (.var "x")) (.var "y") []
  have hparse : parse (lex source) = .ok t := by decide
  constructor
  · obtain ⟨r, ts, hr, hsteps, hts, -, -, -, hprinted, -, hremark⟩ :=
      @run_agrees_with_reduceWithin _ verbose source t 1 hparse rfl rfl 0
    have hreduct : t.reduceWithin (1 : Nat) = .ok ⟨.var "y", 1, true⟩ := by decide +kernel
    rw [hreduct, if_pos (by decide)] at hr
    cases hr
    have hlength : ts.length = 2 := Int.ofNat.inj hsteps
    have hterms : t.reducts 2 = .ok ([t, .var "y"], true) := by decide +kernel
    rw [hlength, hterms] at hts
    cases hts
    rw [hprinted _ rfl rfl rfl, hremark]
    decide +kernel
  · obtain ⟨r, ts, hr, -, -, -, -, -, -, hprinted, hremark⟩ :=
      @run_agrees_with_reduceWithin _ quiet source t 0 hparse rfl rfl 0
    have hreduct : t.reduceWithin (0 : Nat) = .ok ⟨t, 0, false⟩ := by decide +kernel
    rw [hreduct, if_pos (by decide)] at hr
    cases hr
    rw [hprinted _ rfl rfl, hremark]
    decide +kernel

end NormalOrder
