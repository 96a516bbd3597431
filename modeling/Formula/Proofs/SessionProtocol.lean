import Formula.Proofs.Prompting
import Formula.Proofs.SessionComposition

/-!
# The protocol of a session

A session seen from outside, without the loops that make it: at every moment it either has a line to
write or asks for one, for an expression or for the value of a name. A line that was read decides
what is written next and what is asked for then. There are four ways to stop, and a standing either
goes on in one way or stops in one way. The main statement is that sessions follow this protocol,
whatever there is to read and whichever writes fail.
-/

namespace Formula.Session

/-- What is asked for: an expression, or the value of a name in an expression, where some values are
known and others are to be asked for later. -/
inductive Stage where
  | expression
  | value (expr : Expr) (context : Context) (name : String) (later : List String)

def Stage.prompt : Stage → String
  | expression => expressionPrompt
  | value _ _ name _ => valuePrompt name

/-- What is written: a report, why there is none, or that a line is no number. -/
inductive Reply where
  | report (outcome : Report)
  | refusal (error : Error)
  | noNumber (line : String)

namespace Reply

def stream : Reply → Stream
  | report _ => .out
  | refusal _ => .err
  | noNumber _ => .err

def message : Reply → String
  | report outcome => outcome.text
  | refusal error => error.message
  | noNumber line => rejection line

/-- What replies write to a stream, a line for each of them. -/
def lines (replies : List Reply) (stream : Stream) : List String :=
  (replies.filter fun reply ↦ reply.stream = stream).map fun reply ↦ reply.message ++ "\n"

end Reply

/-- What is written next, if anything, and what is asked for then. -/
structure Course where
  reply : Option Reply
  stage : Stage

/-- The expression is evaluated as soon as there are no names to ask for. -/
def proceed (settings : Settings) (expr : Expr) (context : Context) : List String → Course
  | [] =>
    match expr.value context with
    | .ok result => ⟨some (.report (.ofContext expr context result settings.showsBindings)),
        .expression⟩
    | .error error => ⟨some (.refusal (.evaluation error)), .expression⟩
  | name :: later => ⟨none, .value expr context name later⟩

def start (settings : Settings) (source : String) : Course :=
  match (compile source).result with
  | .ok expr =>
    proceed settings expr (Context.empty.withAngleUnit settings.angleUnit) (asked settings expr)
  | .error error => ⟨some (.refusal error), .expression⟩

/-- What a line that was read leads to; there is nothing after the line that ends the session. -/
def Stage.take (settings : Settings) : Stage → String → Option Course
  | expression, line =>
    let source := Text.trim line
    if source = exitCommand then none
    else if source = "" then some ⟨none, expression⟩
    else some (start settings source)
  | value expr context name later, line =>
    match Decimal.readFloat? (Text.trim line) with
    | some number => some (proceed settings expr (context.insert name number) later)
    | none => some ⟨some (.noNumber line), value expr context name later⟩

/-- A moment of a session: how it goes on, what is left to read and what was written so far. -/
structure Standing extends Course where
  unread : List Input
  said : List Reply

/-- The session writes its reply, or reads a line. -/
inductive Step (settings : Settings) (failure : Stream → Nat → Option String) :
    Standing → Standing → Prop where
  | writes {reply : Reply} {stage : Stage} {unread : List Input} {said : List Reply}
      (hwrite : failure reply.stream said.length = none) :
      Step settings failure ⟨⟨some reply, stage⟩, unread, said⟩
        ⟨⟨none, stage⟩, unread, said ++ [reply]⟩
  | reads {stage : Stage} {course : Course} {line : String} {rest : List Input} {said : List Reply}
      (htake : stage.take settings line = some course) :
      Step settings failure ⟨⟨none, stage⟩, .line line :: rest, said⟩ ⟨course, rest, said⟩

/-- The session is over, with this result and this left to read: after the line that ends it, at the
end of input, or because reading or writing failed. -/
inductive Stops (failure : Stream → Nat → Option String) :
    Standing → Except StreamError Unit → List Input → Prop where
  | exits {line : String} {rest : List Input} {said : List Reply}
      (hexit : Text.trim line = exitCommand) :
      Stops failure ⟨⟨none, .expression⟩, .line line :: rest, said⟩ (.ok ()) rest
  | ends {stage : Stage} {unread : List Input} {said : List Reply}
      (hnext : Input.next unread = .ok none) :
      Stops failure ⟨⟨none, stage⟩, unread, said⟩ (.ok ()) unread.tail
  | cannotRead {stage : Stage} {unread : List Input} {said : List Reply} {error : StreamError}
      (hnext : Input.next unread = .error error) :
      Stops failure ⟨⟨none, stage⟩, unread, said⟩ (.error error) unread.tail
  | cannotWrite {reply : Reply} {stage : Stage} {unread : List Input} {said : List Reply}
      {reason : String} (hwrite : failure reply.stream said.length = some reason) :
      Stops failure ⟨⟨some reply, stage⟩, unread, said⟩ (.error (.io reason)) unread

variable {settings : Settings} {failure : Stream → Nat → Option String} {standing : Standing}

theorem Stage.take_eq_none_iff {stage : Stage} {line : String} :
    stage.take settings line = none ↔ stage = .expression ∧ Text.trim line = exitCommand := by
  cases stage with
  | expression =>
    simp only [take, true_and]
    split
    · next h => simp [h]
    · next h => split <;> simp [h]
  | value expr context name later =>
    simp only [take, reduceCtorEq, false_and, iff_false]
    split <;> simp

/-- The protocol leaves no choice. -/
theorem Step.unique {next other : Standing} (hnext : Step settings failure standing next)
    (hother : Step settings failure standing other) : next = other := by
  cases hnext with
  | writes => cases hother; rfl
  | reads htake =>
    cases hother with
    | reads htake' =>
      cases htake.symm.trans htake'
      rfl

/-- Where the protocol stops there is no further step. -/
theorem Stops.not_step {result : Except StreamError Unit} {left : List Input}
    (h : Stops failure standing result left) (next : Standing) :
    ¬Step settings failure standing next := by
  intro hstep
  cases hstep with
  | writes hwrite =>
    cases h with
    | cannotWrite hfails => cases hwrite.symm.trans hfails
  | reads htake =>
    cases h with
    | exits hexit => cases htake.symm.trans (Stage.take_eq_none_iff.2 ⟨rfl, hexit⟩)
    | ends hnext => cases hnext
    | cannotRead hnext => cases hnext

/-- There is only one moment at which a session stops. -/
theorem Stops.unique {last other : Standing} {result result' : Except StreamError Unit}
    {left left' : List Input}
    (hlast : Relation.ReflTransGen (Step settings failure) standing last)
    (hstops : Stops failure last result left)
    (hother : Relation.ReflTransGen (Step settings failure) standing other)
    (hstops' : Stops failure other result' left') : last = other := by
  induction hlast using Relation.ReflTransGen.head_induction_on with
  | refl =>
    rcases Relation.ReflTransGen.cases_head hother with hsame | ⟨next, hstep, -⟩
    · exact hsame
    · exact absurd hstep (hstops.not_step next)
  | head hstep _ ih =>
    rcases Relation.ReflTransGen.cases_head hother with rfl | ⟨next, hstep', hrest⟩
    · exact absurd hstep (hstops'.not_step _)
    · exact ih (hstep.unique hstep' ▸ hrest)

/-! ## Sessions from any moment on -/

def Reply.say (reply : Reply) : Dialogue StreamError Unit :=
  Dialogue.write reply.stream (reply.message ++ "\n")

/-- Responds to an evaluation and goes on, unless the session is over. -/
def conclude (settings : Settings) (evaluation : Dialogue SessionError Report) :
    Dialogue StreamError Unit := fun console ↦
  (respond (evaluation console).1 >>= fun ended ↦ ended.elim (turns settings).run pure)
    (evaluation console).2

/-- What is left of an evaluation where these names are still to be asked for. -/
def finish (settings : Settings) (expr : Expr) (context : Context) (names : List String) :
    Dialogue SessionError Report := do
  let full ← context.fill askValue names
  let result ← Dialogue.perform
    ((expr.evaluate full).mapError fun error ↦ .expression (.evaluation error))
  return .ofContext expr full result settings.showsBindings

def Stage.rest (settings : Settings) : Stage → Dialogue StreamError Unit
  | expression => (turns settings).run
  | value expr context name later =>
    conclude settings (finish settings expr context (name :: later))

def Course.rest (settings : Settings) (course : Course) : Dialogue StreamError Unit :=
  match course.reply with
  | none => course.stage.rest settings
  | some reply => reply.say >>= fun _ ↦ course.stage.rest settings

variable {expr : Expr} {context : Context} {console after : Console}

theorem evaluateOnce_eq (settings : Settings) (source : String) :
    evaluateOnce settings source =
      Dialogue.perform ((compile source).mapError .expression) >>= fun expr ↦
        finish settings expr (Context.empty.withAngleUnit settings.angleUnit)
          (asked settings expr) :=
  rfl

theorem conclude_eq_of_eq {first second : Dialogue SessionError Report}
    (h : first console = second after) (settings : Settings) :
    conclude settings first console = conclude settings second after := by
  unfold conclude
  rw [h]

theorem conclude_report {evaluation : Dialogue SessionError Report} {report : Report}
    (h : evaluation console = (.ok report, after)) (settings : Settings) :
    conclude settings evaluation console =
      Course.rest settings ⟨some (.report report), .expression⟩ after := by
  unfold conclude
  rw [h]
  simp only [respond, bind_assoc, pure_bind]
  rfl

theorem conclude_refusal {evaluation : Dialogue SessionError Report} {error : Error}
    (h : evaluation console = (.error (.expression error), after)) (settings : Settings) :
    conclude settings evaluation console =
      Course.rest settings ⟨some (.refusal error), .expression⟩ after := by
  unfold conclude
  rw [h]
  simp only [respond, bind_assoc, pure_bind]
  rfl

/-- An evaluation that has all its values is over, and any other one asks for the next. -/
theorem conclude_finish (settings : Settings) (expr : Expr) (context : Context)
    (names : List String) (console : Console) :
    ∃ events : List Event, conclude settings (finish settings expr context names) console =
      (proceed settings expr context names).rest settings (console.add (events.map .event)) := by
  cases names with
  | cons name later => exact ⟨[], rfl⟩
  | nil =>
    refine ⟨(expr.evaluate context).events, ?_⟩
    let performed := Dialogue.perform
      ((expr.evaluate context).mapError fun error ↦ SessionError.expression (.evaluation error))
    have hfinish : finish settings expr context [] = performed >>= fun result ↦
        pure (.ofContext expr context result settings.showsBindings) := rfl
    cases hvalue : expr.value context with
    | ok result =>
      have hperformed : performed console =
          (.ok result, console.add ((expr.evaluate context).events.map .event)) :=
        Prod.ext (congrArg (Except.mapError _) hvalue) rfl
      rw [proceed, hvalue]
      apply conclude_report
      rw [hfinish]
      exact Dialogue.bind_ok hperformed _
    | error error =>
      have hperformed : performed console = (.error (.expression (.evaluation error)),
          console.add ((expr.evaluate context).events.map .event)) :=
        Prod.ext (congrArg (Except.mapError _) hvalue) rfl
      rw [proceed, hvalue]
      apply conclude_refusal
      rw [hfinish]
      exact Dialogue.bind_error hperformed _

theorem finish_of_accepted {line : String} {number : Float}
    (hnext : Input.next console.unread = .ok (some line))
    (hnumber : Decimal.readFloat? (Text.trim line) = some number) (settings : Settings)
    (expr : Expr) (context : Context) (name : String) (later : List String) :
    finish settings expr context (name :: later) console =
      finish settings expr (context.insert name number) later
        (console.asked (valuePrompt name)) :=
  Dialogue.bind_eq_of_eq (fill_of_accepted context name later hnext hnumber) _

theorem conclude_of_rejected {line : String} {name : String} {later : List String}
    (hnext : Input.next console.unread = .ok (some line))
    (hnumber : Decimal.readFloat? (Text.trim line) = none) :
    conclude settings (finish settings expr context (name :: later)) console =
      Course.rest settings ⟨some (.noNumber line), .value expr context name later⟩
        (console.asked (valuePrompt name)) := by
  let again := finish settings expr context (name :: later)
  have hagain : again console =
      (reject line >>= fun _ ↦ again) (console.asked (valuePrompt name)) := by
    refine (Dialogue.bind_eq_of_eq (fill_of_rejected context name later hnext hnumber) _).trans ?_
    rw [bind_assoc]
    rfl
  rw [conclude_eq_of_eq hagain settings]
  generalize console.asked (valuePrompt name) = middle
  change _ = ((Reply.noNumber line).say >>= fun _ ↦ conclude settings again) middle
  cases hsaid : (Reply.noNumber line).say middle with
  | mk result after =>
    have hreject : reject line middle = (result.mapError .stream, after) :=
      Dialogue.mapError_eq hsaid
    cases result with
    | ok =>
      rw [Dialogue.bind_ok hsaid]
      exact conclude_eq_of_eq (Dialogue.bind_ok hreject _) settings
    | error error =>
      rw [Dialogue.bind_error hsaid]
      have hfailed := Dialogue.bind_error hreject fun _ ↦ again
      unfold conclude
      rw [hfailed]
      rfl

def react (settings : Settings) : Option String → Dialogue StreamError (Option Unit)
  | none => pure (some ())
  | some line =>
    let source := Text.trim line
    if source = exitCommand then pure (some ())
    else if source = "" then pure none
    else answer settings source

theorem turns_of_next {next : Option String} (hnext : Input.next console.unread = .ok next)
    (settings : Settings) :
    (turns settings).run console =
      (react settings next >>= fun ended ↦ ended.elim (turns settings).run pure)
        (console.asked expressionPrompt) := by
  have hturn : takeTurn settings console = react settings next (console.asked expressionPrompt) :=
    Dialogue.bind_ok (Dialogue.readLine_of_ok hnext expressionPrompt) (react settings)
  conv => lhs; rw [Round.run_eq]
  exact Dialogue.bind_eq_of_eq hturn _

/-- To answer a source is to compile it and to go on from there. -/
theorem answer_eq_rest (settings : Settings) (source : String) (console : Console) :
    ∃ events : List Event,
      (answer settings source >>= fun ended ↦ ended.elim (turns settings).run pure) console =
        (start settings source).rest settings (console.add (events.map .event)) := by
  let compiled := Dialogue.perform ((compile source).mapError SessionError.expression)
  let noted := console.add ((compile source).events.map .event)
  have hanswer :
      (answer settings source >>= fun ended ↦ ended.elim (turns settings).run pure) console =
        conclude settings (evaluateOnce settings source) console :=
    Dialogue.bind_eq_of_eq (answer_eq settings source console) _
  rw [hanswer, evaluateOnce_eq, start]
  cases hcompile : (compile source).result with
  | ok expr =>
    have hcompiled : compiled console = (.ok expr, noted) :=
      Prod.ext (congrArg (Except.mapError _) hcompile) rfl
    obtain ⟨events, hfinish⟩ := conclude_finish settings expr
      (Context.empty.withAngleUnit settings.angleUnit) (asked settings expr) noted
    refine ⟨(compile source).events ++ events, ?_⟩
    rw [conclude_eq_of_eq (Dialogue.bind_ok hcompiled _) settings, hfinish, Console.add_add,
      ← List.map_append]
  | error error =>
    have hcompiled : compiled console = (.error (.expression error), noted) :=
      Prod.ext (congrArg (Except.mapError _) hcompile) rfl
    exact ⟨(compile source).events, conclude_refusal (Dialogue.bind_error hcompiled _) settings⟩

/-- A line leads the session to where the protocol says, and nothing is seen meanwhile. -/
theorem rest_of_take {stage : Stage} {course : Course} {line : String}
    (hnext : Input.next console.unread = .ok (some line))
    (htake : stage.take settings line = some course) :
    ∃ events : List Event, stage.rest settings console =
      course.rest settings ((console.asked stage.prompt).add (events.map .event)) := by
  cases stage with
  | expression =>
    have hturns := turns_of_next hnext settings
    rw [react] at hturns
    rw [Stage.take] at htake
    by_cases hexit : Text.trim line = exitCommand
    · simp only [hexit, if_true] at htake
      cases htake
    · by_cases hblank : Text.trim line = ""
      · simp only [hblank] at htake hturns
        cases htake
        exact ⟨[], hturns⟩
      · simp only [hexit, hblank, if_false] at htake hturns
        cases htake
        obtain ⟨events, hanswer⟩ := answer_eq_rest settings (Text.trim line)
          (console.asked expressionPrompt)
        exact ⟨events, hturns.trans hanswer⟩
  | value expr context name later =>
    rw [Stage.take] at htake
    cases hnumber : Decimal.readFloat? (Text.trim line) with
    | none =>
      simp only [hnumber] at htake
      cases htake
      exact ⟨[], conclude_of_rejected hnext hnumber⟩
    | some number =>
      simp only [hnumber] at htake
      cases htake
      obtain ⟨events, hfinish⟩ := conclude_finish settings expr (context.insert name number) later
        (console.asked (valuePrompt name))
      have haccepted := finish_of_accepted hnext hnumber settings expr context name later
      exact ⟨events, (conclude_eq_of_eq haccepted settings).trans hfinish⟩

theorem rest_of_exit {line : String} (hnext : Input.next console.unread = .ok (some line))
    (hexit : Text.trim line = exitCommand) :
    Stage.expression.rest settings console = (.ok (), console.asked expressionPrompt) := by
  have hturns := turns_of_next hnext settings
  simp only [react, hexit, if_true] at hturns
  exact hturns

theorem rest_of_ended (hnext : Input.next console.unread = .ok none) (settings : Settings)
    (stage : Stage) :
    ∃ events : List Event, stage.rest settings console =
      (.ok (), (console.asked stage.prompt).add (events.map .event)) := by
  cases stage with
  | expression => exact ⟨[], turns_of_next hnext settings⟩
  | value expr context name later =>
    have hfinish : finish settings expr context (name :: later) console =
        (.error (.inputClosed name), console.asked (valuePrompt name)) :=
      Dialogue.bind_error (fill_of_ended context name later hnext) _
    refine ⟨[.inputClosed name], ?_⟩
    rw [Stage.rest, conclude, hfinish]
    rfl

theorem rest_of_unreadable {error : StreamError} (hnext : Input.next console.unread = .error error)
    (stage : Stage) :
    stage.rest settings console =
      (.error error, (console.asked stage.prompt).add [.failed error]) := by
  cases stage with
  | expression =>
    have hturn : takeTurn settings console =
        (.error error, (console.asked expressionPrompt).add [.failed error]) :=
      Dialogue.bind_error (Dialogue.readLine_of_error hnext expressionPrompt) _
    rw [Stage.rest, Round.run_eq]
    exact Dialogue.bind_error hturn _
  | value expr context name later =>
    have hfinish : finish settings expr context (name :: later) console =
        (.error (.stream error), (console.asked (valuePrompt name)).add [.failed error]) :=
      Dialogue.bind_error (fill_of_unreadable context name later hnext) _
    rw [Stage.rest, conclude, hfinish]
    rfl

theorem text_eq_join (console : Console) (stream : Stream) :
    console.text stream = String.join (console.entries.filterMap (writtenTo stream)) := by
  rw [Console.text]
  congr 2

structure Shows (failure : Stream → Nat → Option String) (standing : Standing) (console : Console) :
    Prop where
  unread : console.unread = standing.unread
  failure : console.failure = failure
  writes : console.writes = standing.said.length
  written (stream : Stream) :
    console.entries.filterMap (writtenTo stream) = Reply.lines standing.said stream
  intact (error : StreamError) : .failed error ∉ console.entries

namespace Shows

variable {reply : Reply} {stage : Stage} {unread : List Input} {said : List Reply}

theorem read (h : Shows failure ⟨⟨none, stage⟩, unread, said⟩ console) (course : Course)
    (prompt : String) (events : List Event) :
    Shows failure ⟨course, unread.tail, said⟩
      ((console.asked prompt).add (events.map .event)) where
  unread := congrArg List.tail h.unread
  failure := h.failure
  writes := h.writes
  written stream := by simp [h.written, writtenTo]
  intact error := by simp [h.intact]

theorem say (h : Shows failure ⟨⟨some reply, stage⟩, unread, said⟩ console) :
    Shows failure ⟨⟨none, stage⟩, unread, said ++ [reply]⟩
      (console.told reply.stream (reply.message ++ "\n")) where
  unread := h.unread
  failure := h.failure
  writes := by
    rw [List.length_append, List.length_singleton]
    exact congrArg (· + 1) h.writes
  written stream := by
    rw [Console.entries_told, List.filterMap_append, h.written, Reply.lines, Reply.lines,
      List.filter_append, List.map_append]
    by_cases hstream : reply.stream = stream <;> simp [hstream, writtenTo]
  intact error := by simp [h.intact]

end Shows

/-- The record tells what was written, and of a failure only if the session failed by it; then it is
the last entry. -/
structure Tells (said : List Reply) (outcome : Except StreamError Unit × Console) : Prop where
  written (stream : Stream) :
    outcome.2.entries.filterMap (writtenTo stream) = Reply.lines said stream
  intact (h : outcome.1 = .ok ()) (error : StreamError) : .failed error ∉ outcome.2.entries
  failed (error : StreamError) (h : outcome.1 = .error error) :
    ∃ before, outcome.2.entries = before ++ [.failed error] ∧ ∀ earlier, .failed earlier ∉ before

theorem Shows.tells_ok (h : Shows failure standing console) :
    Tells standing.said (.ok (), console) where
  written := h.written
  intact _ := h.intact
  failed error herror := by cases herror

theorem Shows.tells_error (h : Shows failure standing console) {error : StreamError}
    (hentries : after.entries = console.entries ++ [.failed error]) :
    Tells standing.said (.error error, after) where
  written stream := by simp [hentries, h.written, writtenTo]
  intact hok := by cases hok
  failed error herror := by
    cases herror
    exact ⟨console.entries, hentries, h.intact⟩

namespace Tells

variable {said : List Reply} {outcome : Except StreamError Unit × Console}

/-- A session fails exactly if its last entry is its first failure. -/
theorem error_iff (h : Tells said outcome) (error : StreamError) :
    outcome.1 = .error error ↔ ∃ before,
      outcome.2.entries = before ++ [.failed error] ∧ ∀ earlier, .failed earlier ∉ before := by
  refine ⟨h.failed error, fun ⟨before, hentries, _⟩ ↦ ?_⟩
  have hlast : Entry.failed error ∈ outcome.2.entries :=
    hentries ▸ List.mem_append_right before List.mem_cons_self
  cases hresult : outcome.1 with
  | ok => exact absurd hlast (h.intact hresult error)
  | error found =>
    obtain ⟨others, hothers, -⟩ := h.failed found hresult
    have hsame : Entry.failed found = .failed error :=
      List.append_inj_right' (hothers.symm.trans hentries) rfl |> List.cons.inj |>.1
    rw [Entry.failed.inj hsame]

theorem ok_iff (h : Tells said outcome) :
    outcome.1 = .ok () ↔ ∀ error, .failed error ∉ outcome.2.entries := by
  refine ⟨h.intact, fun hintact ↦ ?_⟩
  cases hresult : outcome.1 with
  | ok => rfl
  | error error =>
    obtain ⟨before, hentries, -⟩ := h.failed error hresult
    exact absurd (hentries ▸ List.mem_append_right before List.mem_cons_self) (hintact error)

theorem note (h : Tells said (.ok (), console)) (event : Event) :
    Tells said (.ok (), console.add [.event event]) where
  written stream := by simp [h.written, writtenTo]
  intact _ error := by simp [h.intact rfl]
  failed error herror := by cases herror

/-- The text of a stream is the text of the replies told on it. -/
theorem text_eq (h : Tells said outcome) (stream : Stream) :
    outcome.2.text stream = String.join (Reply.lines said stream) := by
  rw [text_eq_join, h.written]

end Tells

/-- What came out is what the protocol leads to from this moment on. -/
def Follows (settings : Settings) (failure : Stream → Nat → Option String) (standing : Standing)
    (outcome : Except StreamError Unit × Console) : Prop :=
  ∃ last, Relation.ReflTransGen (Step settings failure) standing last ∧
    Stops failure last outcome.1 outcome.2.unread ∧ Tells last.said outcome

/-- A step in front of a course is the beginning of the course. -/
theorem Follows.head {next : Standing} {outcome : Except StreamError Unit × Console}
    (hstep : Step settings failure standing next) (h : Follows settings failure next outcome) :
    Follows settings failure standing outcome := by
  obtain ⟨last, hsteps, hstops, htells⟩ := h
  exact ⟨last, .head hstep hsteps, hstops, htells⟩

/-- A session that has nothing to write reads an item, and stops there or goes on as it should. -/
theorem follows_of_reading {stage : Stage} {unread : List Input} {said : List Reply}
    (hshows : Shows failure ⟨⟨none, stage⟩, unread, said⟩ console)
    (hlater : ∀ course later, Shows failure ⟨course, unread.tail, said⟩ later →
      later.unread.length < console.unread.length →
        Follows settings failure ⟨course, unread.tail, said⟩ (course.rest settings later)) :
    Follows settings failure ⟨⟨none, stage⟩, unread, said⟩ (stage.rest settings console) := by
  have hunread : console.unread = unread := hshows.unread
  rcases hnext : Input.next console.unread with error | line | line
  · have hread := hshows.read ⟨none, stage⟩ stage.prompt []
    rw [rest_of_unreadable hnext]
    refine ⟨_, .refl, ?_, hread.tells_error (by simp)⟩
    rw [hunread] at hnext
    exact hread.unread ▸ .cannotRead hnext
  · obtain ⟨events, hended⟩ := rest_of_ended hnext settings stage
    have hread := hshows.read ⟨none, stage⟩ stage.prompt events
    rw [hended]
    refine ⟨_, .refl, ?_, hread.tells_ok⟩
    rw [hunread] at hnext
    exact hread.unread ▸ .ends hnext
  · obtain ⟨rest, hrest⟩ := Input.next_eq_line_iff.1 hnext
    obtain rfl : unread = .line line :: rest := hunread.symm.trans hrest
    cases htake : stage.take settings line with
    | none =>
      obtain ⟨rfl, hexit⟩ := Stage.take_eq_none_iff.1 htake
      have hread := hshows.read ⟨none, .expression⟩ expressionPrompt []
      rw [rest_of_exit hnext hexit]
      exact ⟨_, .refl, hread.unread ▸ .exits hexit, hread.tells_ok⟩
    | some course =>
      obtain ⟨events, htaken⟩ := rest_of_take hnext htake
      have hread := hshows.read course stage.prompt events
      have hshorter : rest.length < console.unread.length := hrest ▸ Nat.lt_succ_self _
      rw [htaken]
      exact .head (.reads htake) (hlater course _ hread (hread.unread ▸ hshorter))

/-- A session that has a reply to write writes it first. -/
theorem follows_of_saying {reply : Reply} {stage : Stage} {unread : List Input} {said : List Reply}
    (hshows : Shows failure ⟨⟨some reply, stage⟩, unread, said⟩ console)
    (hlater : ∀ later, Shows failure ⟨⟨none, stage⟩, unread, said ++ [reply]⟩ later →
        Follows settings failure ⟨⟨none, stage⟩, unread, said ++ [reply]⟩
          (stage.rest settings later)) :
    Follows settings failure ⟨⟨some reply, stage⟩, unread, said⟩
      (Course.rest settings ⟨some reply, stage⟩ console) := by
  have hsame : console.failure reply.stream console.writes = failure reply.stream said.length := by
    rw [hshows.failure, hshows.writes]
  cases hwrite : failure reply.stream said.length with
  | none =>
    have hsaid : reply.say console =
        (.ok (), console.told reply.stream (reply.message ++ "\n")) :=
      Dialogue.write_of_none (hsame.trans hwrite) _
    have hrest : Course.rest settings ⟨some reply, stage⟩ console =
        stage.rest settings (console.told reply.stream (reply.message ++ "\n")) :=
      Dialogue.bind_ok hsaid _
    rw [hrest]
    exact .head (.writes hwrite) (hlater _ hshows.say)
  | some reason =>
    have hsaid := Dialogue.write_of_some (hsame.trans hwrite) (reply.message ++ "\n")
    have hrest := Dialogue.bind_error hsaid fun _ ↦ stage.rest settings
    change Follows settings failure _ ((reply.say >>= fun _ ↦ stage.rest settings) console)
    rw [Reply.say, hrest]
    refine ⟨_, .refl, ?_, hshows.tells_error (console.entries_add _)⟩
    exact hshows.unread ▸ .cannotWrite hwrite

/-- A session follows the protocol from every moment on. -/
theorem follows_rest (settings : Settings) (standing : Standing) (console : Console)
    (hshows : Shows failure standing console) :
    Follows settings failure standing (standing.toCourse.rest settings console) := by
  induction hlength : console.unread.length using Nat.strongRecOn generalizing standing console with
  | ind length ih =>
    have hreading (stage : Stage) (said : List Reply) (later : Console)
        (hlater : Shows failure ⟨⟨none, stage⟩, standing.unread, said⟩ later) :
        Follows settings failure ⟨⟨none, stage⟩, standing.unread, said⟩
          (stage.rest settings later) := by
      have hsame : later.unread.length = length := by
        rw [hlater.unread, ← hshows.unread, hlength]
      exact follows_of_reading hlater fun course next hnext hshorter ↦
        ih _ (hsame ▸ hshorter) _ next hnext rfl
    obtain ⟨⟨reply, stage⟩, unread, said⟩ := standing
    cases reply with
    | none => exact hreading stage said console hshows
    | some reply => exact follows_of_saying hshows (hreading stage (said ++ [reply]))

def opens (script : List Input) : Standing :=
  ⟨⟨none, .expression⟩, script, []⟩

/-- Every session follows the protocol from its first prompt. -/
theorem follows_interact (settings : Settings) (script : List Input)
    (failure : Stream → Nat → Option String) :
    Follows settings failure (opens script) (interact settings (.ofInput script failure)) := by
  let opening := (Console.ofInput script failure).add [.event .sessionStarted]
  have hopening : Shows failure (opens script) opening :=
    ⟨rfl, rfl, rfl, fun _ ↦ rfl, by simp [opening, Console.ofInput, Console.entries, Console.add]⟩
  obtain ⟨last, hsteps, hstops, htells⟩ :=
    follows_rest settings (opens script) opening hopening
  have hinteract : interact settings (.ofInput script failure) =
      ((turns settings).run >>= fun _ ↦ Dialogue.note .sessionEnded) opening := rfl
  change Stops _ _ ((turns settings).run opening).1 ((turns settings).run opening).2.unread
    at hstops
  change Tells _ ((turns settings).run opening) at htells
  rw [hinteract]
  cases hrun : (turns settings).run opening with
  | mk result after =>
    rw [hrun] at hstops htells
    cases result with
    | ok =>
      rw [Dialogue.bind_ok hrun]
      exact ⟨last, hsteps, hstops, htells.note .sessionEnded⟩
    | error error =>
      rw [Dialogue.bind_error hrun]
      exact ⟨last, hsteps, hstops, htells⟩

/-- Only what fails to be read or written fails a session, and then it is the last that happens. A
session that does not fail ends at the first line that ends it where an expression is asked for, or
at the end of input, whatever is asked for. Up to there it writes a report for each expression that
has a value, and a message for each one that has none and for each line that is no number. -/
theorem interact_follows_protocol (settings : Settings) (script : List Input)
    (failure : Stream → Nat → Option String) :
    let outcome := interact settings (.ofInput script failure)
    (∀ error, outcome.1 = .error error ↔ ∃ before,
      outcome.2.entries = before ++ [.failed error] ∧ ∀ earlier, .failed earlier ∉ before) ∧
    (outcome.1 = .ok () ↔ ∀ error, .failed error ∉ outcome.2.entries) ∧
    ∃ last, Relation.ReflTransGen (Step settings failure) (opens script) last ∧
      Stops failure last outcome.1 outcome.2.unread ∧
      ∀ stream, outcome.2.text stream = String.join (Reply.lines last.said stream) := by
  obtain ⟨last, hsteps, hstops, htells⟩ := follows_interact settings script failure
  exact ⟨htells.error_iff, htells.ok_iff, last, hsteps, hstops, htells.text_eq⟩

end Formula.Session
