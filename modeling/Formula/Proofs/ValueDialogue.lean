import Formula.Proofs.FirstOccurrences
import Formula.Proofs.Relevance
import Formula.Proofs.SessionProtocol
import Formula.Proofs.Supplying

/-!
# Questions for values and the report on them

An evaluation asks for one value after the other. For each of them it reads lines up to one that is a
number, and says of every other line that it is none, until the input ends or something cannot be read
or written. What a user sees of it is laid out here answer by answer. When all values are given there
is a report, and it follows from the answers alone.
-/

namespace Formula

namespace Session

/-- Lines that are read for a name without a number among them. -/
structure Refusals where
  name : String
  lines : List String
  noNumber : ∀ line ∈ lines, Decimal.readFloat? (Text.trim line) = none

namespace Refusals

/-- Each line is asked for and answered by one message. -/
def seen (refusals : Refusals) : List Entry :=
  refusals.lines.flatMap fun line ↦
    [.prompt (valuePrompt refusals.name), .written .err (rejection line ++ "\n")]

/-- From one console to another these lines are read and refused. -/
structure Made (refusals : Refusals) (before after : Console) : Prop where
  unread : before.unread = refusals.lines.map .line ++ after.unread
  seen : after.seen = before.seen ++ refusals.seen
  failure : after.failure = before.failure
  writes : after.writes = before.writes + refusals.lines.length
  written : ∀ index < refusals.lines.length, before.failure .err (before.writes + index) = none

def none (name : String) : Refusals :=
  ⟨name, [], fun _ h ↦ by cases h⟩

def cons (line : String) (h : Decimal.readFloat? (Text.trim line) = .none) (refusals : Refusals) :
    Refusals :=
  ⟨refusals.name, line :: refusals.lines, List.forall_mem_cons.2 ⟨h, refusals.noNumber⟩⟩

theorem made_none (name : String) (console : Console) : (none name).Made console console :=
  ⟨rfl, (List.append_nil _).symm, rfl, rfl, fun _ h ↦ by cases h⟩

end Refusals

@[simp] theorem seen_asked (console : Console) (prompt : String) :
    (console.asked prompt).seen = console.seen ++ [.prompt prompt] := by
  simp [Console.seen, Entry.isSeen]

@[simp] theorem seen_told (console : Console) (stream : Stream) (text : String) :
    (console.told stream text).seen = console.seen ++ [.written stream text] := by
  simp [Console.seen, Entry.isSeen]

/-- The console after a line was asked for, read and refused. -/
def refused (name line : String) (console : Console) : Console :=
  (console.asked (valuePrompt name)).told .err (rejection line ++ "\n")

theorem Refusals.Made.cons {refusals : Refusals} {line : String} {before after : Console}
    (hnumber : Decimal.readFloat? (Text.trim line) = .none)
    (hline : Input.next before.unread = .ok (some line))
    (hwrite : before.failure .err before.writes = .none)
    (h : refusals.Made (refused refusals.name line before) after) :
    (refusals.cons line hnumber).Made before after where
  unread := by
    obtain ⟨rest, hrest⟩ := Input.next_eq_line_iff.1 hline
    have hlater : rest = refusals.lines.map .line ++ after.unread := by
      rw [← h.unread]
      simp [refused, Console.told, Console.asked, hrest]
    rw [hrest, hlater]
    rfl
  seen := by
    rw [h.seen, refused, seen_told, seen_asked]
    simp [Refusals.seen, Refusals.cons]
  failure := h.failure
  writes := by
    rw [h.writes]
    simp [refused, Console.told, Console.asked, Console.add, Refusals.cons]
    omega
  written index hindex := by
    cases index with
    | zero => exact hwrite
    | succ index =>
      have hlater := h.written index (Nat.lt_of_succ_lt_succ hindex)
      simpa [refused, Console.told, Console.asked, Console.add, Nat.add_comm, Nat.add_left_comm]
        using hlater

section

variable {name line : String} {console : Console}

theorem askValue_of_refused (hline : Input.next console.unread = .ok (some line))
    (hnumber : Decimal.readFloat? (Text.trim line) = none)
    (hwrite : console.failure .err console.writes = none) :
    askValue name console = askValue name (refused name line console) := by
  let asked := console.asked (valuePrompt name)
  have hwritable : asked.failure .err asked.writes = none := hwrite
  have hreject : reject line asked = (.ok (), refused name line console) :=
    Dialogue.mapError_eq (Dialogue.write_of_none hwritable _)
  have honce : askOnce name console = (.ok none, refused name line console) :=
    (askOnce_of_rejected hline hnumber name).trans (Dialogue.bind_ok hreject _)
  conv => lhs; rw [askValue_eq name]
  exact Dialogue.bind_ok honce _

theorem askValue_of_accepted {value : Float} (hline : Input.next console.unread = .ok (some line))
    (hnumber : Decimal.readFloat? (Text.trim line) = some value) :
    askValue name console = (.ok value, console.asked (valuePrompt name)) := by
  rw [askValue_eq name]
  exact Dialogue.bind_ok (askOnce_of_accepted hline hnumber name) _

end

/-- Why no value is given: the input ends, a line cannot be read, or it is no number and that cannot
be said. -/
inductive Obstacle where
  | ended
  | unreadable (error : StreamError)
  | unwritable (line reason : String)

namespace Obstacle

def error (name : String) : Obstacle → SessionError
  | ended => .inputClosed name
  | unreadable error => .stream error
  | unwritable _ reason => .stream (.io reason)

/-- What is seen of the failure that it is. -/
def seen : Obstacle → List Entry
  | ended => []
  | unreadable error => [.failed error]
  | unwritable _ reason => [.failed (.io reason)]

/-- The obstacle is what is met next at a console. -/
def Met (console : Console) : Obstacle → Prop
  | ended => Input.next console.unread = .ok none
  | unreadable error => Input.next console.unread = .error error
  | unwritable line reason =>
    Input.next console.unread = .ok (some line) ∧
      Decimal.readFloat? (Text.trim line) = none ∧
      console.failure .err console.writes = some reason

end Obstacle

/-- Asking for a value comes to nothing: one item is read, and then the obstacle is seen. -/
structure Obstacle.Ends (obstacle : Obstacle) (name : String) (before after : Console) : Prop where
  met : obstacle.Met before
  unread : after.unread = before.unread.tail
  seen : after.seen = before.seen ++ .prompt (valuePrompt name) :: obstacle.seen

/-- An obstacle ends the question with its own error. -/
theorem askValue_of_met {obstacle : Obstacle} {console : Console} (h : obstacle.Met console)
    (name : String) :
    ∃ after, askValue name console = (.error (obstacle.error name), after) ∧
      obstacle.Ends name console after := by
  rw [askValue_eq name]
  cases obstacle with
  | ended =>
    refine ⟨_, Dialogue.bind_error (askOnce_of_ended h name) _, h, rfl, ?_⟩
    rw [seen_asked]
    rfl
  | unreadable error =>
    refine ⟨_, Dialogue.bind_error (askOnce_of_unreadable h name) _, h, rfl, ?_⟩
    rw [Console.seen_add, seen_asked, List.append_assoc]
    rfl
  | unwritable line reason =>
    obtain ⟨hline, hnumber, hwrite⟩ := h
    let asked := console.asked (valuePrompt name)
    have hfailing : asked.failure .err asked.writes = some reason := hwrite
    have hreject := Dialogue.mapError_eq (f := SessionError.stream)
      (Dialogue.write_of_some hfailing (rejection line ++ "\n"))
    have honce := (askOnce_of_rejected hline hnumber name).trans (Dialogue.bind_error hreject _)
    refine ⟨_, Dialogue.bind_error honce _, ⟨hline, hnumber, hwrite⟩, rfl, ?_⟩
    change (asked.add [.failed (.io reason)]).seen = _
    rw [Console.seen_add, seen_asked, List.append_assoc]
    rfl

def Decided (console : Console) : Prop :=
  (∃ line value, Input.next console.unread = .ok (some line) ∧
    Decimal.readFloat? (Text.trim line) = some value) ∨
  ∃ obstacle : Obstacle, obstacle.Met console

/-- A question is decided by the next line or goes on after it. -/
theorem decided_or_refused (console : Console) :
    Decided console ∨ ∃ line, Input.next console.unread = .ok (some line) ∧
      Decimal.readFloat? (Text.trim line) = none ∧ console.failure .err console.writes = none := by
  rcases hnext : Input.next console.unread with error | line | line
  · exact .inl (.inr ⟨.unreadable error, hnext⟩)
  · exact .inl (.inr ⟨.ended, hnext⟩)
  · cases hnumber : Decimal.readFloat? (Text.trim line) with
    | some value => exact .inl (.inl ⟨line, value, hnext, hnumber⟩)
    | none =>
      cases hwrite : console.failure .err console.writes with
      | some reason => exact .inl (.inr ⟨.unwritable line reason, hnext, hnumber, hwrite⟩)
      | none => exact .inr ⟨line, rfl, hnumber, rfl⟩

/-- Lines for a name are refused until it is decided whether there is a value. -/
theorem exists_refusals (name : String) (console : Console) :
    ∃ (refusals : Refusals) (middle : Console), refusals.name = name ∧
      refusals.Made console middle ∧ askValue name console = askValue name middle ∧
      Decided middle := by
  induction hlength : console.unread.length using Nat.strongRecOn generalizing console with
  | ind length ih =>
    rcases decided_or_refused console with hdecided | ⟨line, hline, hnumber, hwrite⟩
    · exact ⟨.none name, console, rfl, Refusals.made_none name console, rfl, hdecided⟩
    · have hshorter : (refused name line console).unread.length < length := by
        obtain ⟨rest, hrest⟩ := Input.next_eq_line_iff.1 hline
        rw [← hlength, hrest]
        exact Nat.lt_succ_of_le (Nat.le_of_eq (congrArg (List.length ∘ List.tail) hrest))
      obtain ⟨refusals, middle, rfl, hmade, hsame, hdecided⟩ :=
        ih _ hshorter (refused name line console) rfl
      exact ⟨refusals.cons line hnumber, middle, rfl, hmade.cons hnumber hline hwrite,
        (askValue_of_refused hline hnumber hwrite).trans hsame, hdecided⟩

/-- Lines that are read for a name, the last of which is a number. -/
structure Answer extends Refusals where
  line : String
  value : Float
  isNumber : Decimal.readFloat? (Text.trim line) = some value

namespace Answer

def read (answer : Answer) : List Input :=
  (answer.lines ++ [answer.line]).map .line

def seen (answer : Answer) : List Entry :=
  answer.toRefusals.seen ++ [.prompt (valuePrompt answer.name)]

def binding (answer : Answer) : String × Float :=
  (answer.name, answer.value)

end Answer

/-- From one console to another these answers are given, and nothing else is seen or read. -/
structure Given (answers : List Answer) (before after : Console) : Prop where
  unread : before.unread = answers.flatMap Answer.read ++ after.unread
  seen : after.seen = before.seen ++ answers.flatMap Answer.seen
  failure : after.failure = before.failure
  writes : after.writes = before.writes + (answers.flatMap fun answer ↦ answer.lines).length
  written : ∀ index < (answers.flatMap fun answer ↦ answer.lines).length,
    before.failure .err (before.writes + index) = none

theorem given_nil (console : Console) : Given [] console console :=
  ⟨rfl, (List.append_nil _).symm, rfl, rfl, fun _ h ↦ by cases h⟩

theorem Given.cons {answer : Answer} {later : List Answer} {before middle after : Console}
    (hmade : answer.toRefusals.Made before middle)
    (hline : Input.next middle.unread = .ok (some answer.line))
    (h : Given later (middle.asked (valuePrompt answer.name)) after) :
    Given (answer :: later) before after where
  unread := by
    obtain ⟨rest, hrest⟩ := Input.next_eq_line_iff.1 hline
    have hlater : rest = later.flatMap Answer.read ++ after.unread := by
      rw [← h.unread]
      simp [Console.asked, hrest]
    rw [hmade.unread, hrest, hlater]
    simp [Answer.read]
  seen := by
    rw [h.seen, seen_asked, hmade.seen]
    simp [Answer.seen]
  failure := h.failure.trans hmade.failure
  writes := by
    have hmiddle : (middle.asked (valuePrompt answer.name)).writes = middle.writes := rfl
    rw [h.writes, hmiddle, hmade.writes, List.flatMap_cons, List.length_append, Nat.add_assoc]
  written index hindex := by
    rw [List.flatMap_cons, List.length_append] at hindex
    rcases Nat.lt_or_ge index answer.lines.length with hlt | hge
    · exact hmade.written index hlt
    · obtain ⟨more, rfl⟩ := Nat.exists_eq_add_of_le hge
      have hlater := h.written more (by omega)
      change middle.failure .err (middle.writes + more) = none at hlater
      rwa [hmade.failure, hmade.writes, Nat.add_assoc] at hlater

/-- What is seen of an evaluation without a report: values are given, then lines are refused for one
more name, up to an obstacle. -/
structure Interruption where
  answers : List Answer
  refusals : Refusals
  obstacle : Obstacle

namespace Interruption

def names (interruption : Interruption) : List String :=
  interruption.answers.map (fun answer ↦ answer.name) ++ [interruption.refusals.name]

def error (interruption : Interruption) : SessionError :=
  interruption.obstacle.error interruption.refusals.name

def Occurs (interruption : Interruption) (before after : Console) : Prop :=
  ∃ middle last, Given interruption.answers before middle ∧
    interruption.refusals.Made middle last ∧
    interruption.obstacle.Ends interruption.refusals.name last after

end Interruption

/-- Asking for values ends with all of them, or at the first obstacle. -/
theorem fill_cases (names : List String) (context : Context) (console : Console) :
    (∃ answers after, answers.map (fun answer : Answer ↦ answer.name) = names ∧
      Given answers console after ∧
      context.fill askValue names console =
        (.ok (context.insertAll (answers.map Answer.binding)), after)) ∨
    ∃ (interruption : Interruption) (after : Console), interruption.names <+: names ∧
      interruption.Occurs console after ∧
      context.fill askValue names console = (.error interruption.error, after) := by
  induction names generalizing context console with
  | nil => exact .inl ⟨[], console, rfl, given_nil console, rfl⟩
  | cons name later ih =>
    rw [Context.fill_cons]
    obtain ⟨refusals, middle, rfl, hmade, hsame, hdecided⟩ := exists_refusals name console
    rcases hdecided with ⟨line, value, hline, hnumber⟩ | ⟨obstacle, hmet⟩
    · let answer : Answer := { refusals with line, value, isNumber := hnumber }
      have hvalue := hsame.trans (askValue_of_accepted hline hnumber)
      rw [Dialogue.bind_ok hvalue]
      rcases ih (context.insert refusals.name value) (middle.asked (valuePrompt refusals.name)) with
        ⟨answers, after, hnames, hgiven, hfill⟩ |
        ⟨⟨answers, others, obstacle⟩, after, hnames, ⟨between, last, hgiven, hothers, hends⟩, hfill⟩
      · left
        refine ⟨answer :: answers, after, ?_, .cons hmade hline hgiven, hfill⟩
        rw [List.map_cons, hnames]
      · right
        refine ⟨⟨answer :: answers, others, obstacle⟩, after, ?_,
          ⟨between, last, .cons hmade hline hgiven, hothers, hends⟩, hfill⟩
        exact (List.prefix_cons_inj _).2 hnames
    · obtain ⟨after, hvalue, hends⟩ := askValue_of_met hmet refusals.name
      rw [Dialogue.bind_error (hsame.trans hvalue)]
      right
      exact ⟨⟨[], refusals, obstacle⟩, after, List.prefix_append [_] later,
        ⟨console, middle, given_nil console, hmade, hends⟩, rfl⟩

end Session

/-- A context that has values for the names that need one is reported by listing these. -/
theorem bindings_ofContext {expr : Expr} {context : Context} {last : String → Float}
    (hget : ∀ name, context.get? name = if name ∈ expr.occurrences then some (last name) else none)
    (result : Float) (showsBindings : Bool) :
    (Report.ofContext expr context result showsBindings).bindings =
      expr.unknowns.map fun name ↦ (name, last name) := by
  rw [Report.ofContext, Expr.unknowns, ← List.filterMap_eq_map, List.filterMap_filter]
  refine List.filterMap_congr fun name hname ↦ ?_
  have hvariable : name ∈ expr.variables := List.mem_eraseDups.1 hname
  rw [hget name]
  cases hconstant : isConstant name <;>
    simp [Expr.occurrences, List.mem_filter, hvariable, hconstant]

/-- What a report says of an expression whose names were given values, some of them more than once:
it lists each name that needs a value with its last one, and in the context of these values alone the
expression has the result. -/
structure Report.Concludes (report : Report) (settings : Settings) (expr : Expr)
    (values : List (String × Float)) : Prop where
  expression : report.expression = expr
  showsBindings : report.showsBindings = settings.showsBindings
  names : report.bindings.map Prod.fst = expr.unknowns
  last : ∀ binding ∈ report.bindings, lastValue? values binding.1 = some binding.2
  result : expr.value ((Context.ofList report.bindings).withAngleUnit settings.angleUnit) =
    .ok report.result

/-- When the names that need a value all have one, there is a result and a report on it. -/
theorem exists_result {expr : Expr} {values : List (String × Float)}
    (hnames : ∀ name, name ∈ values.map Prod.fst ↔ name ∈ expr.occurrences) (settings : Settings) :
    let context := (Context.empty.withAngleUnit settings.angleUnit).insertAll values
    ∃ result, expr.value context = .ok result ∧
      (Report.ofContext expr context result settings.showsBindings).Concludes settings expr
        values := by
  intro context
  let last (name : String) : Float := (lastValue? values name).getD 0
  have hlast {name : String} (hname : name ∈ expr.occurrences) :
      lastValue? values name = some (last name) := by
    obtain ⟨value, hvalue⟩ := exists_lastValue? ((hnames name).2 hname)
    simp only [last, hvalue, Option.getD_some]
  have hget (name : String) :
      context.get? name = if name ∈ expr.occurrences then some (last name) else none := by
    rw [Context.get?_insertAll, Context.get?_withAngleUnit, Context.get?_empty, Option.or_none]
    split
    · next hname => exact hlast hname
    · next hname =>
      exact lastValue?_eq_none_iff.2 fun pair hmem heq ↦
        hname ((hnames name).1 (heq ▸ List.mem_map_of_mem hmem))
  obtain ⟨result, hresult⟩ := Expr.exists_value_insertAll (fun name ↦ (hnames name).2)
    (Context.empty.withAngleUnit settings.angleUnit)
  let report := Report.ofContext expr context result settings.showsBindings
  have hbindings : report.bindings = expr.unknowns.map fun name ↦ (name, last name) :=
    bindings_ofContext hget result settings.showsBindings
  have hfst : report.bindings.map Prod.fst = expr.unknowns := by
    rw [hbindings, List.map_map]
    exact List.map_id _
  have hmem_iff := expr.firstOccurrences_unknowns.mem_iff
  refine ⟨result, hresult, rfl, rfl, hfst, fun binding hmem ↦ ?_, ?_⟩
  · obtain ⟨name, hname, rfl⟩ := List.mem_map.1 (hbindings ▸ hmem)
    exact hlast ((hmem_iff name).1 hname)
  · change expr.value _ = .ok result
    rw [← hresult]
    refine Expr.value_congr_of_get? ?_ fun name hname ↦ ?_
    · have hunit : context.angleUnit = settings.angleUnit := Context.angleUnit_insertAll _ values
      exact hunit.symm
    · have hmem : (name, last name) ∈ report.bindings := by
        rw [hbindings]
        exact List.mem_map_of_mem ((hmem_iff name).2 hname)
      have hnodup : (report.bindings.map Prod.fst).Nodup :=
        hfst ▸ expr.firstOccurrences_unknowns.nodup
      rw [Context.get?_withAngleUnit, Context.ofList_eq_insertAll, Context.get?_insertAll,
        lastValue?_of_mem hnodup hmem, Option.some_or, hget, if_pos hname]

/-! ## The whole evaluation -/

namespace Session

/-- Whichever way names are prompted for, the same ones are asked. -/
theorem mem_asked_iff (settings : Settings) (expr : Expr) (name : String) :
    name ∈ asked settings expr ↔ name ∈ expr.occurrences := by
  unfold asked
  split
  · exact expr.firstOccurrences_unknowns.mem_iff name
  · rfl

@[simp] theorem seen_add_events (console : Console) (events : List Event) :
    (console.add (events.map .event)).seen = console.seen := by
  simp [Entry.isSeen]

theorem Given.of_noted {answers : List Answer} {before after : Console} {events : List Event}
    (h : Given answers (before.add (events.map .event)) after) : Given answers before after where
  unread := h.unread
  seen := by rw [h.seen, seen_add_events]
  failure := h.failure
  writes := h.writes
  written := h.written

theorem Given.note {answers : List Answer} {before after : Console} (h : Given answers before after)
    (events : List Event) : Given answers before (after.add (events.map .event)) where
  unread := h.unread
  seen := by rw [seen_add_events, h.seen]
  failure := h.failure
  writes := h.writes
  written := h.written

/-! Asking for values says nothing on the output. -/

theorem Refusals.written_out (refusals : Refusals) :
    refusals.seen.filterMap (writtenTo .out) = [] := by
  simp [Refusals.seen, List.filterMap_flatMap, writtenTo]

theorem text_out_of_seen {before after : Console} {shown : List Entry}
    (hseen : after.seen = before.seen ++ shown) (hshown : shown.filterMap (writtenTo .out) = []) :
    after.text .out = before.text .out := by
  rw [text_eq, text_eq, hseen, List.filterMap_append, hshown, List.append_nil]

/-- Answering questions writes nothing on the output stream. -/
theorem Given.text_out {answers : List Answer} {before after : Console}
    (h : Given answers before after) : after.text .out = before.text .out := by
  refine text_out_of_seen h.seen ?_
  simp [Answer.seen, List.filterMap_flatMap, Refusals.written_out, writtenTo]

theorem Interruption.Occurs.text_out {interruption : Interruption} {before after : Console}
    (h : interruption.Occurs before after) : after.text .out = before.text .out := by
  obtain ⟨middle, last, hgiven, hmade, hends⟩ := h
  have hobstacle : (Entry.prompt (valuePrompt interruption.refusals.name) ::
      interruption.obstacle.seen).filterMap (writtenTo .out) = [] := by
    cases interruption.obstacle <;> rfl
  calc after.text .out
    _ = last.text .out := text_out_of_seen hends.seen hobstacle
    _ = middle.text .out := text_out_of_seen hmade.seen interruption.refusals.written_out
    _ = before.text .out := hgiven.text_out

/-- An expression that is compiled is evaluated to a report, or up to an obstacle. -/
theorem evaluateOnce_cases (settings : Settings) {source : String} {expr : Expr}
    (hcompile : (compile source).result = .ok expr) (console : Console) :
    let outcome := evaluateOnce settings source console
    (∃ (answers : List Answer) (report : Report),
      answers.map (fun answer ↦ answer.name) = asked settings expr ∧
      Given answers console outcome.2 ∧ outcome.1 = .ok report ∧
      report.Concludes settings expr (answers.map Answer.binding)) ∨
    ∃ interruption : Interruption, interruption.names <+: asked settings expr ∧
      interruption.Occurs console outcome.2 ∧ outcome.1 = .error interruption.error := by
  intro outcome
  let noted := console.add ((compile source).events.map .event)
  let start := Context.empty.withAngleUnit settings.angleUnit
  have houtcome : outcome = finish settings expr start (asked settings expr) noted := by
    have hcompiled : Dialogue.perform ((compile source).mapError SessionError.expression) console =
        (.ok expr, noted) :=
      Prod.ext (congrArg (Except.mapError _) hcompile) rfl
    exact Dialogue.bind_ok hcompiled _
  rcases fill_cases (asked settings expr) start noted with
    ⟨answers, after, hnames, hgiven, hfill⟩ |
    ⟨interruption, after, hnames, ⟨middle, last, hgiven, hmade, hends⟩, hfill⟩
  · left
    have hvalues (name : String) :
        name ∈ (answers.map Answer.binding).map Prod.fst ↔ name ∈ expr.occurrences := by
      rw [← mem_asked_iff settings, ← hnames, List.map_map]
      rfl
    obtain ⟨result, hvalue, hconcludes⟩ := exists_result hvalues settings
    let context := start.insertAll (answers.map Answer.binding)
    have hperformed : Dialogue.perform ((expr.evaluate context).mapError fun error ↦
          SessionError.expression (.evaluation error)) after =
        (.ok result, after.add ((expr.evaluate context).events.map .event)) :=
      Prod.ext (congrArg (Except.mapError _) hvalue) rfl
    have hfinish : finish settings expr start (asked settings expr) noted =
        (.ok (.ofContext expr context result settings.showsBindings),
          after.add ((expr.evaluate context).events.map .event)) :=
      (Dialogue.bind_ok hfill _).trans (Dialogue.bind_ok hperformed _)
    rw [houtcome, hfinish]
    exact ⟨answers, _, hnames, hgiven.of_noted.note _, rfl, hconcludes⟩
  · right
    have hfinish : finish settings expr start (asked settings expr) noted =
        (.error interruption.error, after) :=
      Dialogue.bind_error hfill _
    rw [houtcome, hfinish]
    exact ⟨interruption, hnames, ⟨middle, last, hgiven.of_noted, hmade, hends⟩, rfl⟩

/-- An evaluation asks for the values of the names that need one, in the order of the prompting: for
each of them it reads lines, and refuses them with one message each, until one is a number. If all
are given, there is always a report, which lists the last value of each name, and the expression has
the result in the context of these values. Otherwise the evaluation ends with the first obstacle and
asks for nothing more. A source that does not compile is refused before anything is read, and nothing
is ever written to the output. -/
theorem evaluateOnce_follows_prompting (settings : Settings) (source : String)
    (console : Console) :
    let outcome := evaluateOnce settings source console
    outcome.2.text .out = console.text .out ∧
    (∀ error, (compile source).result = .error error →
      outcome.1 = .error (.expression error) ∧ outcome.2.unread = console.unread ∧
        outcome.2.seen = console.seen) ∧
    ∀ expr, (compile source).result = .ok expr →
      let names := match settings.prompting with
        | .oncePerName => expr.unknowns
        | .everyOccurrence => expr.occurrences
      FirstOccurrences expr.unknowns expr.occurrences ∧
      ((∃ (answers : List Answer) (report : Report),
          answers.map (fun answer ↦ answer.name) = names ∧
          Given answers console outcome.2 ∧ outcome.1 = .ok report ∧
          report.Concludes settings expr (answers.map Answer.binding)) ∨
        ∃ interruption : Interruption, interruption.names <+: names ∧
          interruption.Occurs console outcome.2 ∧ outcome.1 = .error interruption.error) := by
  intro outcome
  let compiled := Dialogue.perform ((compile source).mapError SessionError.expression)
  let noted := console.add ((compile source).events.map .event)
  cases hcompile : (compile source).result with
  | error error =>
    have hcompiled : compiled console = (.error (.expression error), noted) :=
      Prod.ext (congrArg (Except.mapError _) hcompile) rfl
    have houtcome : outcome = (.error (.expression error), noted) :=
      Dialogue.bind_error hcompiled _
    have hseen : outcome.2.seen = console.seen := by
      rw [houtcome]
      exact seen_add_events console _
    refine ⟨?_, fun error' herror ↦ ?_, fun expr hexpr ↦ by cases hexpr⟩
    · rw [text_eq, text_eq, hseen]
    · cases herror
      exact ⟨congrArg Prod.fst houtcome, by rw [houtcome]; rfl, hseen⟩
  | ok expr =>
    have hasked : asked settings expr = match settings.prompting with
        | .oncePerName => expr.unknowns
        | .everyOccurrence => expr.occurrences := by
      unfold asked
      cases settings.prompting <;> rfl
    have hcases := evaluateOnce_cases settings hcompile console
    refine ⟨?_, fun error herror ↦ (by cases herror), fun expr' hexpr ↦ ?_⟩
    · rcases hcases with ⟨answers, report, -, hgiven, -⟩ | ⟨interruption, -, hoccurs, -⟩
      · exact hgiven.text_out
      · exact hoccurs.text_out
    · cases hexpr
      rw [hasked] at hcases
      exact ⟨expr.firstOccurrences_unknowns, hcases⟩

/-- A name that occurs twice is asked for twice, a constant not at all, and a line that is no number
is refused in between. -/
theorem evaluateOnce_follows_prompting_twice :
    let console := Console.ofInput [.line "1", .line "two", .line "3"] fun _ _ ↦ none
    let outcome := evaluateOnce { prompting := .everyOccurrence } "x + pi + x" console
    (compile "x + pi + x").result.isOk ∧ ∃ (answers : List Answer) (report : Report),
      answers.map (fun answer ↦ answer.name) = ["x", "x"] ∧ Given answers console outcome.2 ∧
        outcome.1 = .ok report ∧ report.bindings.map Prod.fst = ["x"] := by
  intro console outcome
  let sum (left : Expr) (right : String) : Expr :=
    .binary (.subexpression left) .add (.subexpression (.identifier right))
  let expr := sum (sum (.identifier "x") "pi") "x"
  have hcompile : (compile "x + pi + x").result = .ok expr := by with_unfolding_all rfl
  obtain ⟨one, hone⟩ : ∃ value, Decimal.readFloat? (Text.trim "1") = some value :=
    Option.isSome_iff_exists.1 (by rfl)
  obtain ⟨three, hthree⟩ : ∃ value, Decimal.readFloat? (Text.trim "3") = some value :=
    Option.isSome_iff_exists.1 (by rfl)
  have hsupplies : console.Supplies [one, three] :=
    .number hone (.other rfl rfl (.number hthree .nothing))
  have hnames (name : String) :
      name ∈ [("x", one), ("x", three)].map Prod.fst ↔ name ∈ expr.occurrences := Iff.rfl
  obtain ⟨result, hvalue, -⟩ := exists_result hnames { prompting := .everyOccurrence }
  have hok : outcome.1 = .ok _ := evaluateOnce_of_supplies hcompile hsupplies rfl rfl hvalue
  obtain ⟨-, -, hcompiled⟩ :=
    evaluateOnce_follows_prompting { prompting := .everyOccurrence } "x + pi + x" console
  refine ⟨by rw [hcompile]; rfl, ?_⟩
  obtain ⟨-, ⟨answers, report, hnames, hgiven, hreport, hconcludes⟩ | ⟨_, -, -, herror⟩⟩ :=
    hcompiled expr hcompile
  · exact ⟨answers, report, hnames, hgiven, hreport, hconcludes.names⟩
  · cases hok.symm.trans herror

end Session

end Formula
