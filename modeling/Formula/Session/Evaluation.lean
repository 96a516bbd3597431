import Formula.Compile
import Formula.Decimal.Numeral
import Formula.Session.Report
import Formula.Session.Round

/-!
# Evaluations

An evaluation asks for the value of each variable, again if a line is no number, and reports the
result.
-/

namespace Formula

/-- How often a variable is asked for that occurs several times. -/
inductive Prompting where
  | oncePerName
  | everyOccurrence
deriving DecidableEq, Repr

structure Settings where
  prompting : Prompting := .oncePerName
  showsBindings : Bool := true
  angleUnit : AngleUnit := .radians

/-- Why an evaluation has no report. -/
inductive SessionError where
  | expression (error : Error)
  | inputClosed (name : String)
  | stream (error : StreamError)

def SessionError.message : SessionError → String
  | expression error => error.message
  | inputClosed name => s!"Input closed before a value for '{name}' was given."
  | stream error => error.message

namespace Session

def valuePrompt (name : String) : String := "input> " ++ name ++ " = "

/-- What is said about a line that is no number. -/
def rejection (line : String) : String := "'" ++ Text.trim line ++ "' is not a number."

/-- Asks for the value of a variable once; a line that is no number gives none. -/
def askOnce (name : String) : Dialogue SessionError (Option Float) := do
  match ← (Dialogue.readLine (valuePrompt name)).mapError .stream with
  | none => Dialogue.fail (.inputClosed name)
  | some line =>
    match Decimal.readFloat? (Text.trim line) with
    | some value => return some value
    | none =>
      (Dialogue.complain (rejection line)).mapError .stream
      return none

theorem consumes_askOnce (name : String) : (askOnce name).Consumes := by
  refine Dialogue.consumes_bind
    (Dialogue.consumes_mapError (Dialogue.consumes_readLine _)) fun line ↦ ?_
  split
  · exact Dialogue.consumes_fail _
  · split
    · exact Dialogue.consumes_pure _
    · exact Dialogue.consumes_bind (Dialogue.consumes_mapError (Dialogue.consumes_complain _))
        fun _ ↦ Dialogue.consumes_pure _

theorem unread_askOnce_lt {name : String} {console after : Console}
    (h : askOnce name console = (.ok none, after)) :
    after.unread.length < console.unread.length := by
  refine Dialogue.unread_lt_of_bind
    (Dialogue.takesLine_mapError (Dialogue.takesLine_readLine _)) ?_ (fun line ↦ ?_) h
  · simp [Dialogue.fail]
  · dsimp only
    split
    · exact Dialogue.consumes_pure _
    · exact Dialogue.consumes_bind (Dialogue.consumes_mapError (Dialogue.consumes_complain _))
        fun _ ↦ Dialogue.consumes_pure _

/-- Asks for the value of a variable until a line is a number. -/
def askValue (name : String) : Dialogue SessionError Float :=
  Round.run ⟨askOnce name, unread_askOnce_lt⟩

theorem consumes_askValue (name : String) : (askValue name).Consumes :=
  Round.consumes_run _ (consumes_askOnce name)

/-- The names that are asked for, in order. -/
def asked (settings : Settings) (expression : Expr) : List String :=
  match settings.prompting with
  | .oncePerName => expression.unknowns
  | .everyOccurrence => expression.variables.filter fun name ↦ !isConstant name

/-- Evaluates one expression, asking for the values of its variables. -/
def evaluateOnce (settings : Settings) (source : String) : Dialogue SessionError Report := do
  let expression ← Dialogue.perform ((compile source).mapError .expression)
  let context ← (Context.empty.withAngleUnit settings.angleUnit).fill askValue
    (asked settings expression)
  let result ← Dialogue.perform
    ((expression.evaluate context).mapError fun error ↦ .expression (.evaluation error))
  return .ofContext expression context result settings.showsBindings

theorem consumes_fill (names : List String) (context : Context) :
    (context.fill askValue names).Consumes := by
  induction names generalizing context with
  | nil => exact Dialogue.consumes_pure _
  | cons name names ih =>
    unfold Context.fill
    rw [List.foldlM_cons]
    exact Dialogue.consumes_bind (Dialogue.consumes_bind (consumes_askValue name)
      fun _ ↦ Dialogue.consumes_pure _) fun _ ↦ ih _

theorem consumes_evaluateOnce (settings : Settings) (source : String) :
    (evaluateOnce settings source).Consumes :=
  Dialogue.consumes_bind (Dialogue.consumes_perform _) fun _ ↦
    Dialogue.consumes_bind (consumes_fill _ _) fun _ ↦
      Dialogue.consumes_bind (Dialogue.consumes_perform _) fun _ ↦ Dialogue.consumes_pure _

end Session

end Formula
