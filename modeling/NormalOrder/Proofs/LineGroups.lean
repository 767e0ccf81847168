import NormalOrder.Shell
import NormalOrder.Proofs.Independence

namespace NormalOrder

open Text (Palette Styled)

namespace Session

/-- A run of a text is stopped by a failure or by the user, if at all. -/
theorem runText_fault [Palette] {s : Session} {patience : Nat} {text path : String} {fault : Fault}
    (h : (s.runText patience text path).result = .error fault) :
    fault = .interrupted ∨ ∃ f, fault = .failure f := by
  rw [runText, startText] at h
  cases hparse : parse (lex text) with
  | error failure =>
    rw [(complete_start_error hparse _ patience).2] at h
    obtain rfl := Except.error.inj h
    cases failure with
    | structural e => exact .inr ⟨_, rfl⟩
    | lexical errors =>
      obtain ⟨causes, hcauses, -⟩ := Fault.ofLexErrors_eq errors
      exact .inr ⟨_, hcauses⟩
  | ok t =>
    obtain hinterrupt | ⟨c, hclash⟩ := (complete_start_ok hparse _ patience).fault fault h
    · exact .inl hinterrupt
    · exact .inr ⟨_, hclash⟩

theorem runText_fatal [Palette] (s : Session) (patience : Nat) (text path : String) :
    (s.runText patience text path).session.reporter.fatal = s.reporter.fatal := by
  rw [runText, startText]
  cases hparse : parse (lex text) with
  | error failure => rw [(complete_start_error hparse _ patience).1]; rfl
  | ok t =>
    rw [(complete_start_ok hparse _ patience).reporter]
    split <;> rfl

/-- Where failures do not end the program, a guarded run of a text passes no fault on. -/
theorem guarded_runText [Palette] {s : Session} (h : s.reporter.fatal = false) (patience : Nat)
    (text path : String) :
    (∃ last, (s.runText patience text path).guarded.result = .ok last) ∧
      (s.runText patience text path).guarded.session.reporter.fatal = false := by
  have hfatal : (s.runText patience text path).session.reporter.fatal = false :=
    (s.runText_fatal patience text path).trans h
  cases hresult : (s.runText patience text path).result with
  | ok last =>
    simp only [Outcome.guarded, hresult, Reporter.settle]
    exact ⟨⟨_, rfl⟩, hfatal⟩
  | error fault =>
    have hreported : ∃ f, Reporter.failureOf fault = some f ∧ Reporter.passesOn fault = false := by
      obtain rfl | ⟨f, rfl⟩ := runText_fault hresult
      · exact ⟨_, rfl, rfl⟩
      · exact ⟨f, rfl, rfl⟩
    obtain ⟨f, hf, hpasses⟩ := hreported
    simp only [Outcome.guarded, hresult, Reporter.settle_failure hf, hfatal, hpasses,
      Bool.false_eq_true, if_false]
    exact ⟨⟨_, rfl⟩, hfatal⟩

end Session

namespace Command

/-- What a command prints without a run. -/
def reply : Command → Styled
  | .help => .plain Shell.helpText
  | .endOfInput => .plain "\n"
  | .nothing | .exit | .term _ => []

def stops : Command → Bool
  | .exit | .endOfInput => true
  | .nothing | .help | .term _ => false

end Command

namespace Shell

/-- A command given to the shell, with how long the user waits for the run that it may lead to, and
after which term of that run the user interrupts. -/
structure Turn where
  command : Command
  patience : Nat
  interrupt : Option Int

/-- The line of a turn that is no command of its own. -/
def Turn.line? (t : Turn) : Option String :=
  match t.command with
  | .term line => some line
  | _ => none

/-- A run that the shell makes of a finished text. -/
structure Launch where
  session : Session
  patience : Nat
  text : String

def Launch.outcome [Palette] (l : Launch) : Session.Outcome (Option Term) :=
  l.session.runText l.patience l.text Session.shellName

def respond (sh : Shell) (t : Turn) : Response :=
  { sh with session := sh.session.awaiting t.interrupt }.obey t.command

def take [Palette] (sh : Shell) (t : Turn) : Styled × Shell × Except Fault Bool :=
  (sh.respond t).finish t.patience

/-- The run that a turn leads to. -/
def launch? (sh : Shell) (t : Turn) : Option Launch :=
  match sh.respond t with
  | .done _ _ _ => none
  | .run sh text => some ⟨sh.session, t.patience, text⟩

/-- The turn makes the run `l` and no other: what it prints, the session that it leaves and whether
the shell stops are those of the run, with its fault reported. -/
structure Runs [Palette] (sh : Shell) (t : Turn) (l : Launch) : Prop where
  start : l.session = sh.session.awaiting t.interrupt
  patience : l.patience = t.patience
  printed : (sh.take t).1 = l.outcome.guarded.printed
  session : (sh.take t).2.1.session = l.outcome.guarded.session
  stop : (sh.take t).2.2 = l.outcome.guarded.result.map fun _ => false

/-- The turn makes no run. -/
structure Rests [Palette] (sh : Shell) (t : Turn) : Prop where
  printed : (sh.take t).1 = t.command.reply
  session : (sh.take t).2.1.session = sh.session.awaiting t.interrupt
  stop : (sh.take t).2.2 = .ok t.command.stops

section

variable {sh : Shell} {line : String}

theorem respond_open (h : needsContinuation (sh.pending ++ line) = true) (patience : Nat)
    (interrupt : Option Int) :
    sh.respond ⟨.term line, patience, interrupt⟩ =
      .done [] ⟨sh.session.awaiting interrupt, sh.pending ++ line ++ "\n", secondaryPrompt⟩ false := by
  simp [respond, obey, offer, h]

theorem respond_closed (h : needsContinuation (sh.pending ++ line) = false) (patience : Nat)
    (interrupt : Option Int) :
    sh.respond ⟨.term line, patience, interrupt⟩ =
      .run { session := sh.session.awaiting interrupt } (sh.pending ++ line) := by
  simp [respond, obey, offer, h]

end

/-- Only a line that leaves no bracket open leads to a run, and that is of all that is pending. -/
theorem respond_of_launch {sh : Shell} {t : Turn} {l : Launch} (h : sh.launch? t = some l) :
    (l.session = sh.session.awaiting t.interrupt ∧ l.patience = t.patience) ∧
      needsContinuation l.text = false ∧ sh.respond t = .run { session := l.session } l.text := by
  obtain ⟨command, patience, interrupt⟩ := t
  cases command with
  | term line =>
    cases hneeds : needsContinuation (sh.pending ++ line) with
    | true =>
      rw [launch?, respond_open hneeds] at h
      cases h
    | false =>
      have hrespond := respond_closed hneeds patience interrupt
      rw [launch?, hrespond] at h
      cases h
      exact ⟨⟨rfl, rfl⟩, hneeds, hrespond⟩
  | nothing | help | exit | endOfInput => cases h

theorem runs_of_launch [Palette] {sh : Shell} {t : Turn} {l : Launch} (h : sh.launch? t = some l) :
    sh.Runs t l := by
  obtain ⟨⟨hsession, hpatience⟩, -, hrespond⟩ := respond_of_launch h
  refine ⟨hsession, hpatience, ?_, ?_, ?_⟩
  all_goals
    rw [take, hrespond, ← hpatience]
    rfl

theorem rests_of_no_launch [Palette] {sh : Shell} {t : Turn} (h : sh.launch? t = none) :
    sh.Rests t := by
  obtain ⟨command, patience, interrupt⟩ := t
  cases command with
  | term line =>
    cases hneeds : needsContinuation (sh.pending ++ line) with
    | true =>
      refine ⟨?_, ?_, ?_⟩
      all_goals
        rw [take, respond_open hneeds]
        rfl
    | false =>
      rw [launch?, respond_closed hneeds] at h
      cases h
  | nothing | help | exit | endOfInput => exact ⟨rfl, rfl, rfl⟩

/-- The shell after some turns. -/
def after [Palette] (sh : Shell) (turns : List Turn) : Shell :=
  turns.foldl (fun sh t => (sh.take t).2.1) sh

/-- The runs that the turns lead to, in order. -/
def launches [Palette] (sh : Shell) : List Turn → List Launch
  | [] => []
  | t :: turns => (sh.launch? t).toList ++ (sh.take t).2.1.launches turns

/-- More brackets are opened than closed in the lines together. -/
def LeftOpen (lines : List String) : Prop :=
  (lines.flatMap String.toList).count ')' < (lines.flatMap String.toList).count '('

/-- The lines of one text: after the last of them no bracket is left open, after each one before it
there is one. -/
structure Completed (group : List String) : Prop where
  nonempty : group ≠ []
  closed : ¬LeftOpen group
  notBefore : ∀ before, before <+: group → before ≠ [] → before ≠ group → LeftOpen before

/-- The lines with a line feed after each. -/
def withFeeds (lines : List String) : String := String.join (lines.map (· ++ "\n"))

theorem withFeeds_append (lines more : List String) :
    withFeeds (lines ++ more) = withFeeds lines ++ withFeeds more := by
  rw [withFeeds, List.map_append, String.join_append]
  rfl

theorem withFeeds_eq_empty_iff (lines : List String) : withFeeds lines = "" ↔ lines = [] := by
  cases lines with
  | nil => simp [withFeeds]
  | cons line lines => simp [withFeeds]

theorem withFeeds_concat (lines : List String) (line : String) :
    withFeeds lines ++ line = "\n".intercalate (lines ++ [line]) := by
  induction lines with
  | nil => simp [withFeeds]
  | cons first lines ih =>
    rw [List.cons_append, String.intercalate_cons_of_ne_nil (by simp), ← ih]
    simp [withFeeds, String.append_assoc]

theorem count_withFeeds {c : Char} (hc : c ≠ '\n') (lines : List String) :
    (withFeeds lines).toList.count c = (lines.flatMap String.toList).count c := by
  induction lines with
  | nil => simp [withFeeds]
  | cons line lines ih =>
    have hsplit := withFeeds_append [line] lines
    rw [List.singleton_append] at hsplit
    rw [hsplit, String.toList_append, List.count_append, ih, List.flatMap_cons, List.count_append]
    simp [withFeeds, Ne.symm hc]

theorem needsContinuation_withFeeds (lines : List String) :
    needsContinuation (withFeeds lines) = true ↔ LeftOpen lines := by
  rw [needsContinuation, decide_eq_true_iff, count_withFeeds (by decide), count_withFeeds (by decide),
    LeftOpen]

theorem needsContinuation_concat (held : List String) (line : String) :
    needsContinuation (withFeeds held ++ line) = true ↔ LeftOpen (held ++ [line]) := by
  rw [← needsContinuation_withFeeds, withFeeds_append]
  simp [needsContinuation, withFeeds]

/-- The shell holds the lines of an unfinished text. -/
structure Holds (sh : Shell) (held : List String) : Prop where
  pending : sh.pending = withFeeds held
  prompt : sh.prompt = if held = [] then primaryPrompt else secondaryPrompt
  leftOpen : ∀ before, before <+: held → before ≠ [] → LeftOpen before

theorem holds_nil {sh : Shell} (hpending : sh.pending = "") (hprompt : sh.prompt = primaryPrompt) :
    sh.Holds [] := by
  refine ⟨hpending, hprompt, ?_⟩
  intro before hbefore hne
  exact absurd (List.prefix_nil.mp hbefore) hne

theorem holds_concat {held : List String} {line : String} (hopen : LeftOpen (held ++ [line]))
    (h : ∀ before, before <+: held → before ≠ [] → LeftOpen before) :
    ∀ before, before <+: held ++ [line] → before ≠ [] → LeftOpen before := by
  intro before hbefore hne
  obtain rfl | hbefore := List.prefix_concat_iff.mp hbefore
  · exact hopen
  · exact h before hbefore hne

theorem completed_concat {held : List String} {line : String} (hclosed : ¬LeftOpen (held ++ [line]))
    (h : ∀ before, before <+: held → before ≠ [] → LeftOpen before) :
    Completed (held ++ [line]) := by
  refine ⟨by simp, hclosed, ?_⟩
  intro before hbefore hne hproper
  obtain rfl | hbefore := List.prefix_concat_iff.mp hbefore
  · exact absurd rfl hproper
  · exact h before hbefore hne

/-- A turn adds its line, if it has one, to those that are held; if that completes them they are run,
and none is held any more. -/
theorem take_holds [Palette] {sh : Shell} {held : List String} (h : sh.Holds held) (t : Turn) :
    (sh.launch? t = none ∧ (sh.take t).2.1.Holds (held ++ t.line?.toList)) ∨
      ∃ l, sh.launch? t = some l ∧ Completed (held ++ t.line?.toList) ∧
        l.text = "\n".intercalate (held ++ t.line?.toList) ∧ (sh.take t).2.1.Holds [] := by
  obtain ⟨command, patience, interrupt⟩ := t
  cases command with
  | term line =>
    have htext : sh.pending ++ line = "\n".intercalate (held ++ [line]) := by
      rw [h.pending, withFeeds_concat]
    by_cases hopen : LeftOpen (held ++ [line])
    · left
      have hneeds := (needsContinuation_concat held line).mpr hopen
      rw [← h.pending] at hneeds
      have hpending : sh.pending ++ line ++ "\n" = withFeeds (held ++ [line]) := by
        rw [withFeeds_append, h.pending, String.append_assoc]
        simp [withFeeds]
      rw [launch?, take, respond_open hneeds]
      exact ⟨rfl, hpending, (if_neg (by simp [Turn.line?])).symm, holds_concat hopen h.leftOpen⟩
    · right
      have hneeds : needsContinuation (sh.pending ++ line) = false := by
        rw [h.pending, ← Bool.not_eq_true, needsContinuation_concat]
        exact hopen
      rw [launch?, take, respond_closed hneeds]
      exact ⟨_, rfl, completed_concat hopen h.leftOpen, htext, holds_nil rfl rfl⟩
  | nothing | help | exit | endOfInput =>
    left
    have hheld : held ++ (none : Option String).toList = held := List.append_nil held
    refine ⟨rfl, ?_⟩
    simp only [Turn.line?, hheld]
    exact ⟨h.pending, h.prompt, h.leftOpen⟩

/-- The lines held at first and those of the turns are cut into the texts that are run and what is
held in the end. -/
theorem launches_grouped [Palette] {sh : Shell} {held : List String} (h : sh.Holds held)
    (turns : List Turn) :
    ∃ (groups : List (List String)) (rest : List String),
      held ++ turns.filterMap Turn.line? = groups.flatten ++ rest ∧
      (sh.launches turns).map Launch.text = groups.map "\n".intercalate ∧
      (∀ group ∈ groups, Completed group) ∧ (sh.after turns).Holds rest := by
  induction turns generalizing sh held with
  | nil => exact ⟨[], held, by simp, rfl, by simp, h⟩
  | cons t turns ih =>
    have hlines : held ++ (t :: turns).filterMap Turn.line? =
        (held ++ t.line?.toList) ++ turns.filterMap Turn.line? := by
      cases hline : t.line? <;> simp [hline]
    rw [hlines]
    obtain ⟨hnone, hnext⟩ | ⟨l, hl, hcompleted, htext, hnext⟩ := take_holds h t
    · obtain ⟨groups, rest, hcut, htexts, hgroups, hrest⟩ := ih hnext
      refine ⟨groups, rest, hcut, ?_, hgroups, hrest⟩
      rw [launches, hnone]
      exact htexts
    · obtain ⟨groups, rest, hcut, htexts, hgroups, hrest⟩ := ih hnext
      refine ⟨(held ++ t.line?.toList) :: groups, rest, ?_, ?_, ?_, hrest⟩
      · rw [List.nil_append] at hcut
        rw [hcut, List.flatten_cons, List.append_assoc _ groups.flatten]
      · rw [launches, hl, List.map_append, htexts, List.map_cons, ← htext]
        rfl
      · exact List.forall_mem_cons.mpr ⟨hcompleted, hgroups⟩

theorem take_answers [Palette] {sh : Shell} (h : sh.session.reporter.fatal = false) (t : Turn) :
    (∃ stop, (sh.take t).2.2 = .ok stop) ∧ (sh.take t).2.1.session.reporter.fatal = false := by
  cases hlaunch : sh.launch? t with
  | none =>
    have hrests := rests_of_no_launch hlaunch
    rw [hrests.stop, hrests.session]
    exact ⟨⟨_, rfl⟩, h⟩
  | some l =>
    have hruns := runs_of_launch hlaunch
    have hsession : l.session.reporter.fatal = false := by
      rw [hruns.start]
      exact h
    obtain ⟨⟨last, hlast⟩, hfatal⟩ :=
      Session.guarded_runText hsession l.patience l.text Session.shellName
    rw [hruns.stop, hruns.session, Launch.outcome, hlast]
    exact ⟨⟨_, rfl⟩, hfatal⟩

theorem fatal_after [Palette] {sh : Shell} (h : sh.session.reporter.fatal = false)
    (turns : List Turn) :
    (sh.after turns).session.reporter.fatal = false := by
  induction turns generalizing sh with
  | nil => exact h
  | cons t turns ih => exact ih (take_answers h t).2

theorem Holds.pending_eq_empty_iff {sh : Shell} {held : List String} (h : sh.Holds held) :
    sh.pending = "" ↔ held = [] := by
  rw [h.pending, withFeeds_eq_empty_iff]

theorem Holds.prompt_eq_iff {sh : Shell} {held : List String} (h : sh.Holds held) :
    sh.prompt = secondaryPrompt ↔ sh.pending ≠ "" := by
  have hprompts : primaryPrompt ≠ secondaryPrompt := by decide
  rw [h.prompt, Ne, h.pending_eq_empty_iff]
  split <;> simp_all

theorem Holds.pending_open {sh : Shell} {held : List String} (h : sh.Holds held)
    (hne : sh.pending ≠ "") : sh.pending.toList.count ')' < sh.pending.toList.count '(' := by
  have hheld : held ≠ [] := fun hnil => hne (h.pending_eq_empty_iff.mpr hnil)
  have hopen := h.leftOpen held (List.prefix_refl held) hheld
  rw [← needsContinuation_withFeeds, ← h.pending] at hopen
  simpa [needsContinuation] using hopen

/-- In whatever order a new shell is given lines and commands, and whichever way its runs end, the
texts that are run and the lines still pending are all the lines in their order: each text is a
group of lines that only its last line completes. Whatever turns were taken, the next one prints,
leaves and gives what the run does that it leads to, if it leads to one, and passes no fault on. -/
theorem lines_grouped [Palette] (s : Session) (hs : s.reporter.fatal = false) (turns : List Turn) :
    let sh : Shell := { session := s }
    let sh' := sh.after turns
    (∃ (groups : List (List String)) (held : List String),
      turns.filterMap Turn.line? = groups.flatten ++ held ∧
      (sh.launches turns).map Launch.text = groups.map "\n".intercalate ∧
      (∀ group ∈ groups, Completed group) ∧
      sh'.pending = String.join (held.map (· ++ "\n"))) ∧
    (sh'.pending ≠ "" → sh'.pending.toList.count ')' < sh'.pending.toList.count '(') ∧
    (sh'.prompt = secondaryPrompt ↔ sh'.pending ≠ "") ∧
    (∀ t l, sh'.launch? t = some l → sh'.Runs t l) ∧
    (∀ t, sh'.launch? t = none → sh'.Rests t) ∧
    ∀ t, ∃ stop, (sh'.take t).2.2 = .ok stop := by
  intro sh sh'
  have hnew : sh.Holds [] := holds_nil rfl rfl
  obtain ⟨groups, held, hcut, htexts, hgroups, hheld⟩ := launches_grouped hnew turns
  rw [List.nil_append] at hcut
  refine ⟨⟨groups, held, hcut, htexts, hgroups, hheld.pending⟩, hheld.pending_open,
    hheld.prompt_eq_iff, fun _ _ => runs_of_launch, fun _ => rests_of_no_launch, ?_⟩
  intro t
  exact (take_answers (fatal_after hs turns) t).1

/-- Two lines with help and nothing between them are run as one text, the next line is an error, and
the run of the one after it is interrupted; the last is still pending, and one more completes it. -/
theorem lines_grouped_interleaved :
    let s : Session := { reporter := { fatal := false }, sink := .trace { quiet := true } }
    let turns : List Turn :=
      [⟨.term "((λx.x)", 9, none⟩, ⟨.help, 9, none⟩, ⟨.nothing, 9, none⟩, ⟨.term "y)", 9, none⟩,
        ⟨.term ")", 9, none⟩, ⟨.term "(λx.x x) (λx.x x)", 9, some 2⟩, ⟨.term "(a", 9, none⟩]
    let sh : Shell := { session := s }
    let sh' := sh.after turns
    let last : Turn := ⟨.term "b)", 9, none⟩
    s.reporter.fatal = false ∧
    (sh.launches turns).map Launch.text = ["((λx.x)\ny)", ")", "(λx.x x) (λx.x x)"] ∧
    (sh'.pending = "(a\n" ∧ sh'.prompt = secondaryPrompt) ∧
    (∃ (groups : List (List String)) (held : List String),
      turns.filterMap Turn.line? = groups.flatten ++ held ∧
      (sh.launches turns).map Launch.text = groups.map "\n".intercalate ∧
      (∀ group ∈ groups, Completed group) ∧
      sh'.pending = String.join (held.map (· ++ "\n"))) ∧
    ∃ l, sh'.launch? last = some l ∧ l.text = "(a\nb)" ∧ sh'.Runs last l ∧
      (sh'.take last).1.text = "a b\n" := by
  intro s turns sh sh' last
  have hs : s.reporter.fatal = false := rfl
  have htexts : (sh.launches turns).map Launch.text =
      ["((λx.x)\ny)", ")", "(λx.x x) (λx.x x)"] := by decide +kernel
  have hpending : sh'.pending = "(a\n" := by decide +kernel
  have hlaunch : sh'.launch? last = some ⟨sh'.session.awaiting none, 9, sh'.pending ++ "b)"⟩ := by
    simp only [launch?, respond, obey, offer, last, hpending]
    rfl
  obtain ⟨hgroups, -, hprompt, hruns, -⟩ := lines_grouped s hs turns
  refine ⟨hs, htexts, ⟨hpending, hprompt.mpr (by rw [hpending]; decide)⟩, hgroups, _, hlaunch, ?_,
    hruns last _ hlaunch, ?_⟩
  · rw [hpending]
    rfl
  · decide +kernel

end Shell

end NormalOrder
