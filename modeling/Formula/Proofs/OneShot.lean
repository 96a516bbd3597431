import Formula.CommandLine
import Formula.Proofs.LineReading
import Formula.Proofs.ValueDialogue

/-!
# One evaluation alone and in a session

The program evaluates one expression, or it holds a session. A session that is given the expression
as its first line does what the evaluation does alone: it reads and writes the same and then, if
there is a report or the expression is refused, goes on with the input that is left. This is so
because no dialogue ever looks at the record of what happened before it.
-/

namespace Formula

namespace Console

variable {console : Console} {past : List Entry}

def behind (console : Console) (past : List Entry) : Console :=
  { console with record := console.record ++ past.reverse }

@[simp] theorem entries_behind : (console.behind past).entries = past ++ console.entries := by
  simp [behind, entries]

@[simp] theorem seen_behind :
    (console.behind past).seen = past.filter Entry.isSeen ++ console.seen := by
  simp [seen]

theorem add_behind (added : List Entry) :
    (console.behind past).add added = (console.add added).behind past := by
  simp [behind, add]

theorem behind_behind (later : List Entry) :
    (console.behind later).behind past = console.behind (past ++ later) := by
  simp [behind]

theorem clear_behind_entries : console.clear.behind console.entries = console := by
  simp [behind, clear, entries]

end Console

namespace Dialogue

variable {ε ε' α β : Type}

/-- The dialogue has the same result whatever happened before, and adds the same to the record. -/
def IgnoresRecord (dialogue : Dialogue ε α) : Prop :=
  ∀ console past, dialogue (console.behind past) =
    ((dialogue console).1, (dialogue console).2.behind past)

theorem ignoresRecord_pure (value : α) : (pure value : Dialogue ε α).IgnoresRecord :=
  fun _ _ ↦ rfl

theorem ignoresRecord_fail (error : ε) : (fail error : Dialogue ε α).IgnoresRecord :=
  fun _ _ ↦ rfl

theorem ignoresRecord_note (event : Event) : (note event : Dialogue ε Unit).IgnoresRecord :=
  fun _ _ ↦ congrArg (Prod.mk _) (Console.add_behind _)

theorem ignoresRecord_perform (computation : Logged ε α) : (perform computation).IgnoresRecord :=
  fun _ _ ↦ congrArg (Prod.mk _) (Console.add_behind _)

theorem ignoresRecord_readLine (prompt : String) : (readLine prompt).IgnoresRecord := by
  intro console past
  have hunread : (console.behind past).unread = console.unread := rfl
  cases hnext : Input.next console.unread with
  | error error =>
    rw [readLine_of_error hnext, readLine_of_error (hunread ▸ hnext)]
    rfl
  | ok line =>
    rw [readLine_of_ok hnext, readLine_of_ok (hunread ▸ hnext)]
    rfl

theorem ignoresRecord_write (stream : Stream) (text : String) :
    (write stream text).IgnoresRecord := by
  intro console past
  have hsame : (console.behind past).failure stream (console.behind past).writes =
      console.failure stream console.writes := rfl
  cases hwrite : console.failure stream console.writes with
  | none =>
    rw [write_of_none hwrite, write_of_none (hsame.trans hwrite)]
    rfl
  | some reason =>
    rw [write_of_some hwrite, write_of_some (hsame.trans hwrite)]
    rfl

theorem IgnoresRecord.bind {first : Dialogue ε α} {next : α → Dialogue ε β}
    (hfirst : first.IgnoresRecord) (hnext : ∀ value, (next value).IgnoresRecord) :
    (first >>= next).IgnoresRecord := by
  intro console past
  have hbehind := hfirst console past
  cases hresult : first console with
  | mk result after =>
    rw [hresult] at hbehind
    cases result with
    | error error => rw [bind_error hresult, bind_error hbehind]
    | ok value => rw [bind_ok hresult, bind_ok hbehind, hnext]

theorem IgnoresRecord.mapError {dialogue : Dialogue ε α} (h : dialogue.IgnoresRecord)
    (f : ε → ε') : (dialogue.mapError f).IgnoresRecord := by
  intro console past
  rw [mapError_eq (h console past)]
  rfl

end Dialogue

open Dialogue

theorem Round.ignoresRecord_run {ε α : Type} {round : Round ε α}
    (hstep : round.step.IgnoresRecord) : round.run.IgnoresRecord := by
  intro console past
  fun_induction run round console with
  | case1 console error after heq =>
    have hbehind := hstep console past
    rw [heq] at hbehind
    rw [run_of_error (congrArg Prod.fst hbehind), hbehind]
  | case2 console result after heq =>
    have hbehind := hstep console past
    rw [heq] at hbehind
    rw [run_of_some (congrArg Prod.fst hbehind), hbehind]
  | case3 console after heq _ ih =>
    have hbehind := hstep console past
    rw [heq] at hbehind
    rw [run_of_none (congrArg Prod.fst hbehind), hbehind]
    exact ih

namespace Session

theorem ignoresRecord_askOnce (name : String) : (askOnce name).IgnoresRecord := by
  refine ((ignoresRecord_readLine _).mapError _).bind fun line ↦ ?_
  cases line with
  | none => exact ignoresRecord_fail _
  | some line =>
    dsimp only
    cases Decimal.readFloat? (Text.trim line) with
    | some value => exact ignoresRecord_pure _
    | none =>
      exact ((ignoresRecord_write _ _).mapError _).bind fun _ ↦ ignoresRecord_pure _

theorem ignoresRecord_askValue (name : String) : (askValue name).IgnoresRecord :=
  Round.ignoresRecord_run (ignoresRecord_askOnce name)

theorem ignoresRecord_fill (names : List String) (context : Context) :
    (context.fill askValue names).IgnoresRecord := by
  induction names generalizing context with
  | nil => exact ignoresRecord_pure context
  | cons name names ih =>
    rw [Context.fill_cons]
    exact (ignoresRecord_askValue name).bind fun value ↦ ih _

/-- An evaluation does not depend on what has been said before. -/
theorem ignoresRecord_evaluateOnce (settings : Settings) (source : String) :
    (evaluateOnce settings source).IgnoresRecord :=
  (ignoresRecord_perform _).bind fun _ ↦ (ignoresRecord_fill _ _).bind fun _ ↦
    (ignoresRecord_perform _).bind fun _ ↦ ignoresRecord_pure _

theorem ignoresRecord_respond (result : Except SessionError Report) :
    (respond result).IgnoresRecord := by
  cases result with
  | ok report => exact (ignoresRecord_write _ _).bind fun _ ↦ ignoresRecord_pure _
  | error error =>
    cases error with
    | expression error => exact (ignoresRecord_write _ _).bind fun _ ↦ ignoresRecord_pure _
    | inputClosed name => exact (ignoresRecord_note _).bind fun _ ↦ ignoresRecord_pure _
    | stream error => exact ignoresRecord_fail error

theorem ignoresRecord_answer (settings : Settings) (source : String) :
    (answer settings source).IgnoresRecord := by
  intro console past
  rw [answer_eq, answer_eq, ignoresRecord_evaluateOnce settings source console past]
  exact ignoresRecord_respond _ _ past

theorem ignoresRecord_takeTurn (settings : Settings) : (takeTurn settings).IgnoresRecord := by
  refine (ignoresRecord_readLine _).bind fun line ↦ ?_
  cases line with
  | none => exact ignoresRecord_pure _
  | some line =>
    dsimp only
    split
    · exact ignoresRecord_pure _
    · split
      · exact ignoresRecord_pure _
      · exact ignoresRecord_answer settings _

end Session

namespace Text

/-- A text without blanks at its ends does not end in any of them. -/
theorem not_isBlank_of_trim {text : String} (htrim : trim text = text) {c : Char}
    (hc : c ∈ text.toList.reverse.head?) : isBlank c = false := by
  have hreverse : text.toList.reverse =
      (text.toList.dropWhile isBlank).reverse.dropWhile isBlank := by
    have hlist := congrArg (fun text ↦ text.toList.reverse) htrim
    simpa [trim, dropEnd] using hlist.symm
  have hhead := List.head?_dropWhile_not isBlank (text.toList.dropWhile isBlank).reverse
  rw [← hreverse, Option.mem_def.1 hc] at hhead
  exact hhead

end Text

namespace Input

/-- A trimmed text is what its line reads as. -/
theorem trimLineEnd_append_lineFeed {text : String} (htrim : Text.trim text = text) :
    trimLineEnd (text ++ "\n") = text := by
  refine trimLineEnd_append (fun c hc hbreak ↦ ?_) (by simp [IsLineEnd])
  have hblank : Text.isBlank c = false :=
    Text.not_isBlank_of_trim htrim (by rwa [List.head?_reverse])
  rcases hbreak with rfl | rfl
  all_goals exact absurd hblank (by decide)

/-- A line in front of a stream is the first thing that is read from it. -/
theorem ofBytes_line_append {text : String} (hbreak : '\n' ∉ text.toList)
    (htrim : Text.trim text = text) (bytes : List UInt8) :
    ofBytes ((text ++ "\n").toUTF8.data.toList ++ bytes) = .line text :: ofBytes bytes := by
  have hencoded : (text ++ "\n").toUTF8.data.toList =
      text.toList.flatMap String.utf8EncodeChar ++ [lineFeed] := by
    rw [data_toList_toUTF8, String.toList_append]
    exact encoded_append_lineFeed _ []
  have hpiece : ofPiece (text.toList.flatMap String.utf8EncodeChar ++ [lineFeed]) = .line text := by
    rw [← hencoded, ofPiece_toUTF8, trimLineEnd_append_lineFeed htrim]
  rw [ofBytes, hencoded, List.append_assoc, List.singleton_append,
    pieces_append_lineFeed (lineFeed_notMem_encoded hbreak), List.map_cons, hpiece, ofBytes]

end Input

/-! ## The first turn of a session -/

namespace Session

variable {settings : Settings} {source : String} {console after : Console}

/-- A source that does not compile is refused before anything is asked. -/
theorem evaluateOnce_of_refused {error : Error} (h : (compile source).result = .error error)
    (settings : Settings) (console : Console) :
    evaluateOnce settings source console =
      (.error (.expression error), console.add ((compile source).events.map .event)) := by
  have hcompiled : perform ((compile source).mapError SessionError.expression) console =
      (.error (.expression error), console.add ((compile source).events.map .event)) :=
    Prod.ext (congrArg (Except.mapError _) h) rfl
  exact bind_error hcompiled _

/-- An expression is refused only by the compiler: when all values are given there is a report. -/
theorem compile_of_refused {error : Error}
    (h : evaluateOnce settings source console = (.error (.expression error), after)) :
    (compile source).result = .error error := by
  cases hcompile : (compile source).result with
  | error found =>
    cases (evaluateOnce_of_refused hcompile settings console).symm.trans h
    rfl
  | ok expr =>
    have hcases := evaluateOnce_cases settings hcompile console
    rw [h] at hcases
    obtain ⟨_, _, -, -, hreport, -⟩ | ⟨interruption, -, -, herror⟩ := hcases
    · cases hreport
    · have hobstacle : interruption.error = .expression error := (Except.error.inj herror).symm
      rw [Interruption.error] at hobstacle
      cases hkind : interruption.obstacle <;> rw [hkind] at hobstacle <;> cases hobstacle

/-- Up to its report an evaluation writes nothing on the output. -/
theorem text_out_of_report {report : Report}
    (h : evaluateOnce settings source console = (.ok report, after)) :
    after.text .out = console.text .out := by
  cases hcompile : (compile source).result with
  | error error => cases (evaluateOnce_of_refused hcompile settings console).symm.trans h
  | ok expr =>
    have hcases := evaluateOnce_cases settings hcompile console
    rw [h] at hcases
    obtain ⟨_, _, -, hgiven, -⟩ | ⟨_, -, -, herror⟩ := hcases
    · exact hgiven.text_out
    · cases herror

/-- What is written before a result was written if there is a result. -/
theorem writable_of_ok {α : Type} {stream : Stream} {text : String} {value found : α}
    (h : ((do write stream text; return value : Dialogue StreamError α) console).1 = .ok found) :
    console.failure stream console.writes = none ∧ found = value := by
  cases hwrite : console.failure stream console.writes with
  | none =>
    rw [bind_ok (write_of_none hwrite text)] at h
    exact ⟨rfl, (Except.ok.inj h).symm⟩
  | some reason =>
    rw [bind_error (write_of_some hwrite text)] at h
    cases h

/-- An evaluation alone succeeds only with a report. -/
theorem exists_report_of_ok
    (h : (CommandLine.evaluateAndPrint settings source console).1 = .ok true) :
    ∃ report after, evaluateOnce settings source console = (.ok report, after) := by
  cases hresult : evaluateOnce settings source console with
  | mk result after =>
    cases result with
    | ok report => exact ⟨report, after, rfl⟩
    | error error =>
      rw [CommandLine.evaluateAndPrint, hresult] at h
      cases (writable_of_ok h).2

/-- Where nothing fails to be written, an evaluation alone succeeds if there is a report. -/
theorem evaluateAndPrint_of_writable {result : Except SessionError Report}
    (hwritable : console.failure = fun _ _ ↦ none)
    (h : (evaluateOnce settings source console).1 = result) :
    (CommandLine.evaluateAndPrint settings source console).1 = .ok result.isOk := by
  have hembeds : Console.Embeds [] [] console console :=
    ⟨(List.append_nil _).symm, rfl, hwritable, hwritable⟩
  have hafter : (evaluateOnce settings source console).2.failure = fun _ _ ↦ none :=
    (local_evaluateOnce settings source console console hembeds fun _ _ _ ↦ rfl).2.writable
  cases houtcome : evaluateOnce settings source console with
  | mk found after =>
    rw [houtcome] at h hafter
    subst h
    have hwrite (stream : Stream) : after.failure stream after.writes = none := by
      rw [hafter]
    rw [CommandLine.evaluateAndPrint, houtcome]
    cases found with
    | ok report => exact congrArg Prod.fst (bind_ok (write_of_none (hwrite .out) _) _)
    | error error => exact congrArg Prod.fst (bind_ok (write_of_none (hwrite .err) _) _)

/-- The evaluation alone and the session have the same to say, and then each its own result. -/
structure Responds (settings : Settings) (source : String) (console after : Console)
    (stream : Stream) (text : String) (succeeded : Bool) : Prop where
  alone : CommandLine.evaluateAndPrint settings source console =
    (do write stream text; return succeeded : Dialogue StreamError Bool) after
  within : answer settings source console =
    (do write stream text; return none : Dialogue StreamError (Option Unit)) after

/-- A report is answered on the output stream. -/
theorem responds_report {report : Report}
    (h : evaluateOnce settings source console = (.ok report, after)) :
    Responds settings source console after .out (report.text ++ "\n") true where
  alone := by
    rw [CommandLine.evaluateAndPrint, h]
    rfl
  within := by
    rw [answer, h]
    rfl

theorem responds_refusal {error : Error}
    (h : evaluateOnce settings source console = (.error (.expression error), after)) :
    Responds settings source console after .err (error.message ++ "\n") false where
  alone := by
    rw [CommandLine.evaluateAndPrint, h]
    rfl
  within := by
    rw [answer, h]
    rfl

/-- If the evaluation alone could say it, the session says it and goes on. -/
theorem Responds.told {stream : Stream} {text : String} {succeeded found : Bool}
    (h : Responds settings source console after stream text succeeded)
    (hsaid : (CommandLine.evaluateAndPrint settings source console).1 = .ok found) :
    (CommandLine.evaluateAndPrint settings source console).2 = after.told stream text ∧
      answer settings source console = (.ok none, after.told stream text) := by
  rw [h.alone] at hsaid
  have hwritten := write_of_none (writable_of_ok hsaid).1 text
  rw [h.alone, h.within, bind_ok hwritten, bind_ok hwritten]
  exact ⟨rfl, rfl⟩

/-- What a session notes and shows before it reads its first line. -/
def beginning : List Entry :=
  [.event .sessionStarted, .prompt expressionPrompt]

/-- The turns of a session and its end. -/
def remaining (settings : Settings) : Dialogue StreamError Unit := do
  (turns settings).run
  note .sessionEnded

theorem interact_eq (settings : Settings) (console : Console) :
    interact settings console = remaining settings (console.add [.event .sessionStarted]) :=
  rfl

theorem ignoresRecord_remaining (settings : Settings) : (remaining settings).IgnoresRecord :=
  (Round.ignoresRecord_run (ignoresRecord_takeTurn settings)).bind fun _ ↦ ignoresRecord_note _

theorem remaining_of_turn (hturn : takeTurn settings console = (.ok none, after)) :
    remaining settings console = remaining settings after := by
  have hnone : ((turns settings).step console).1 = .ok none := congrArg Prod.fst hturn
  have hafter : ((turns settings).step console).2 = after := congrArg Prod.snd hturn
  refine bind_eq_of_eq ?_ _
  rw [Round.run_of_none hnone, hafter]

/-- An expression that a session reads first is answered behind the beginning of the session. -/
theorem takeTurn_of_line (htrim : Text.trim source = source) (hne : source ≠ "")
    (hexit : source ≠ exitCommand) (settings : Settings) (values : List Input)
    (failure : Stream → Nat → Option String) :
    takeTurn settings
        ((Console.ofInput (.line source :: values) failure).add [.event .sessionStarted]) =
      answer settings source ((Console.ofInput values failure).behind beginning) := by
  have hnext : Input.next (Input.line source :: values) = .ok (some source) := rfl
  rw [takeTurn, bind_ok (readLine_of_ok hnext expressionPrompt)]
  dsimp only
  rw [htrim, if_neg hexit, if_neg hne]
  rfl

/-- The whole session asks for an expression, and then a user sees what was seen at the console that
is left and a new session on what is unread there. -/
structure Resumes (settings : Settings) (left : Console)
    (whole : Except StreamError Unit × Console) : Prop where
  result : whole.1 = (interact settings left.clear).1
  unread : whole.2.unread = (interact settings left.clear).2.unread
  seen : whole.2.seen =
    .prompt expressionPrompt :: (left.seen ++ (interact settings left.clear).2.seen)
  text (stream : Stream) : whole.2.text stream =
    left.text stream ++ (interact settings left.clear).2.text stream

theorem resumes_of_turn {left : Console}
    (hturn : takeTurn settings (console.add [.event .sessionStarted]) =
      (.ok none, left.behind beginning)) :
    Resumes settings left (interact settings console) := by
  -- Both are the same run of what remains, behind two different records.
  let fresh := remaining settings left.clear
  have hwhole : interact settings console =
      (fresh.1, fresh.2.behind (beginning ++ left.entries)) := by
    rw [interact_eq, remaining_of_turn hturn, ← left.clear_behind_entries,
      Console.behind_behind, ignoresRecord_remaining, Console.clear_behind_entries]
  have hlater : interact settings left.clear =
      (fresh.1, fresh.2.behind [.event .sessionStarted]) :=
    ignoresRecord_remaining settings left.clear [.event .sessionStarted]
  have hseen : (interact settings console).2.seen =
      .prompt expressionPrompt :: (left.seen ++ (interact settings left.clear).2.seen) := by
    rw [hwhole, hlater, Console.seen_behind, Console.seen_behind, List.filter_append]
    rfl
  refine ⟨?_, ?_, hseen, fun stream ↦ ?_⟩
  · rw [hwhole, hlater]
  · rw [hwhole, hlater]
    rfl
  · rw [text_eq, text_eq, text_eq, hseen, ← String.join_append, ← List.filterMap_append]
    rfl

/-- A session that reads an expression agrees with the evaluation of it alone. If the evaluation has
a report, the session begins with the same messages about lines that are no numbers and the same
report, and goes on as a new session does on the input that the evaluation leaves. If the expression
is refused, the session says the same of it, and goes on with all the input behind it. As bytes, the
expression is a line of its own in front of any input. -/
theorem interact_agrees_with_evaluation (settings : Settings)
    (failure : Stream → Nat → Option String) {source : String} (hbreak : '\n' ∉ source.toList)
    (htrim : Text.trim source = source) (hne : source ≠ "") (hexit : source ≠ exitCommand) :
    (∀ bytes, Input.ofBytes ((source ++ "\n").toUTF8.data.toList ++ bytes) =
      .line source :: Input.ofBytes bytes) ∧
    ∀ values : List Input,
      let outcome := evaluateOnce settings source (.ofInput values failure)
      let alone := CommandLine.evaluateAndPrint settings source (.ofInput values failure)
      let whole := interact settings (.ofInput (.line source :: values) failure)
      (alone.1 = .ok true →
        ∃ report, outcome.1 = .ok report ∧ alone.2.text .out = report.text ++ "\n" ∧
          alone.2.unread <:+ values ∧ Resumes settings alone.2 whole) ∧
      ∀ error, outcome.1 = .error (.expression error) → alone.1 = .ok false →
        alone.2.seen = [.written .err (error.message ++ "\n")] ∧ alone.2.unread = values ∧
          Resumes settings alone.2 whole := by
  refine ⟨Input.ofBytes_line_append hbreak htrim, fun values ↦ ?_⟩
  intro outcome alone whole
  have hresumes {after : Console} {stream : Stream} {text : String} {succeeded found : Bool}
      (hresponds : Responds settings source (.ofInput values failure) after stream text succeeded)
      (hsaid : alone.1 = .ok found) :
      alone.2 = after.told stream text ∧ Resumes settings alone.2 whole := by
    obtain ⟨halone, hanswer⟩ := hresponds.told hsaid
    have hbehind := ignoresRecord_answer settings source (.ofInput values failure) beginning
    rw [hanswer, ← takeTurn_of_line htrim hne hexit] at hbehind
    exact ⟨halone, halone ▸ resumes_of_turn hbehind⟩
  constructor
  · intro hsaid
    obtain ⟨report, after, hreport⟩ := exists_report_of_ok hsaid
    obtain ⟨halone, hgoes⟩ := hresumes (responds_report hreport) hsaid
    have hout : after.text .out = "" := text_out_of_report hreport
    refine ⟨report, congrArg Prod.fst hreport, ?_, ?_, hgoes⟩
    · rw [halone, text_eq, seen_told, List.filterMap_append, String.join_append, ← text_eq, hout]
      exact String.empty_append
    · have hsuffix := consumes_evaluateOnce settings source (.ofInput values failure)
      rw [hreport] at hsuffix
      rw [halone]
      exact hsuffix
  · intro error herror hsaid
    have hrefused : outcome = (.error (.expression error), outcome.2) := Prod.ext herror rfl
    obtain ⟨halone, hgoes⟩ := hresumes (responds_refusal hrefused) hsaid
    have hevents : outcome = _ := evaluateOnce_of_refused (compile_of_refused hrefused) _ _
    refine ⟨?_, ?_, hgoes⟩
    · rw [halone, seen_told, hevents, seen_add_events]
      rfl
    · rw [halone, hevents]
      rfl

/-- A value is asked for once and refused once, and an expression is refused; both leave a line. -/
theorem interact_agrees_with_evaluation_refused_value :
    let values : List Input := [.line "two", .line "3", .line "4"]
    let alone (source : String) :=
      CommandLine.evaluateAndPrint {} source (.ofInput values fun _ _ ↦ none)
    let whole (source : String) := interact {} (.ofInput (.line source :: values) fun _ _ ↦ none)
    ((alone "x + x").1 = .ok true ∧ Resumes {} (alone "x + x").2 (whole "x + x")) ∧
      (alone "1 +").1 = .ok false ∧ (alone "1 +").2.unread = values ∧
        Resumes {} (alone "1 +").2 (whole "1 +") := by
  intro values alone whole
  let sum : Expr :=
    .binary (.subexpression (.identifier "x")) .add (.subexpression (.identifier "x"))
  have hcompile : (compile "x + x").result = .ok sum := by with_unfolding_all rfl
  obtain ⟨error, herror⟩ : ∃ error, (compile "1 +").result = .error error := by
    exact ⟨_, by with_unfolding_all rfl⟩
  obtain ⟨three, hthree⟩ : ∃ value, Decimal.readFloat? (Text.trim "3") = some value :=
    Option.isSome_iff_exists.1 (by rfl)
  have hnames (name : String) : name ∈ [("x", three)].map Prod.fst ↔ name ∈ sum.occurrences := by
    change name ∈ ["x"] ↔ name ∈ ["x", "x"]
    simp
  obtain ⟨result, hvalue, -⟩ := exists_result hnames {}
  have hsupplies : (Console.ofInput values fun _ _ ↦ none).Supplies [three] :=
    .other rfl rfl (.number hthree .nothing)
  have hreport := evaluateOnce_of_supplies hcompile hsupplies rfl rfl hvalue
  have hrefused := congrArg Prod.fst
    (evaluateOnce_of_refused herror {} (.ofInput values fun _ _ ↦ none))
  have hsum : (alone "x + x").1 = .ok true := evaluateAndPrint_of_writable rfl hreport
  have hwrong : (alone "1 +").1 = .ok false := evaluateAndPrint_of_writable rfl hrefused
  obtain ⟨-, hfirst⟩ := interact_agrees_with_evaluation {} (fun _ _ ↦ none)
    (by decide : '\n' ∉ "x + x".toList) (by decide) (by decide) (by decide)
  obtain ⟨-, hsecond⟩ := interact_agrees_with_evaluation {} (fun _ _ ↦ none)
    (by decide : '\n' ∉ "1 +".toList) (by decide) (by decide) (by decide)
  obtain ⟨_, -, -, -, hresumes⟩ := (hfirst values).1 hsum
  obtain ⟨-, hunread, hgoes⟩ := (hsecond values).2 error hrefused hwrong
  exact ⟨⟨hsum, hresumes⟩, hwrong, hunread, hgoes⟩

end Session

end Formula
