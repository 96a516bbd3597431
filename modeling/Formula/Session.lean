import Formula.Session.Evaluation

/-!
# Sessions

An interactive session reads one expression after another and answers each with a report. A bad
expression is reported and the session goes on; only a failure to read or write ends it badly.

Each line that is asked for takes one item of input, so a session ends.
-/

namespace Formula.Session

def expressionPrompt : String := "math> "

/-- The line that ends a session. -/
def exitCommand : String := "exit"

/-- Evaluates one expression and writes its report, or what is wrong with it. The session is over
if the input ends before all values are given. -/
def answer (settings : Settings) (source : String) : Dialogue StreamError (Option Unit) :=
  fun console ↦ match evaluateOnce settings source console with
  | (.ok report, after) => (do Dialogue.print report.text; return none) after
  | (.error (.expression error), after) => (do Dialogue.complain error.message; return none) after
  | (.error (.inputClosed name), after) =>
    (do Dialogue.note (.inputClosed name); return some ()) after
  | (.error (.stream error), after) => (.error error, after)

theorem consumes_answer (settings : Settings) (source : String) :
    (answer settings source).Consumes := by
  intro console
  have h := consumes_evaluateOnce settings source console
  unfold answer
  split
  all_goals rename_i heq; rw [heq] at h
  · exact (Dialogue.consumes_bind (Dialogue.consumes_print _)
      (fun _ ↦ Dialogue.consumes_pure _) _).trans h
  · exact (Dialogue.consumes_bind (Dialogue.consumes_complain _)
      (fun _ ↦ Dialogue.consumes_pure _) _).trans h
  · exact h
  · exact h

/-- Reads a line and answers it; gives a result only if the session is over. -/
def takeTurn (settings : Settings) : Dialogue StreamError (Option Unit) := do
  match ← Dialogue.readLine expressionPrompt with
  | none => return some ()
  | some line =>
    let source := Text.trim line
    if source = exitCommand then return some ()
    else if source = "" then return none
    else answer settings source

theorem unread_takeTurn_lt {settings : Settings} {console after : Console}
    (h : takeTurn settings console = (.ok none, after)) :
    after.unread.length < console.unread.length := by
  refine Dialogue.unread_lt_of_bind (Dialogue.takesLine_readLine _) ?_ (fun line ↦ ?_) h
  · simp [pure]
  · dsimp only
    split
    · exact Dialogue.consumes_pure _
    · split
      · exact Dialogue.consumes_pure _
      · exact consumes_answer settings _

/-- Answers one line after another until the session is over. -/
def interact (settings : Settings) : Dialogue StreamError Unit := do
  Dialogue.note .sessionStarted
  Round.run ⟨takeTurn settings, unread_takeTurn_lt⟩
  Dialogue.note .sessionEnded

end Formula.Session
