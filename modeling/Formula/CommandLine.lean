import Formula.CommandLine.Options

/-!
# The command line

What the program does with the words after its name and the bytes of its input: it prints the
report on an expression, or without an expression holds a session on the input.
-/

namespace Formula.CommandLine

/-- What a run of the program leaves behind. -/
structure Outcome where
  exitCode : Nat
  stdout : String
  stderr : String
  log : List String

/-- Whether the program looks at its input at all. -/
def Invocation.readsInput : Invocation → Bool
  | .version | .help | .misuse _ => false
  | .interact _ _ => true
  | .evaluate settings _ source =>
    match (compile source).result with
    | .ok expression => !(Session.asked settings expression).isEmpty
    | .error _ => false

/-- Whether events of this level are logged when the option for more was given so often. -/
def isLogged (verbosity : Nat) : Level → Bool
  | .warn => true
  | .info => 1 ≤ verbosity
  | .debug => 2 ≤ verbosity
  | .trace => 3 ≤ verbosity

def levelName : Level → String
  | .trace => "TRACE"
  | .debug => "DEBUG"
  | .info => "INFO"
  | .warn => "WARN"

/-- An event as a line of the log. -/
def logLine (event : Event) : String :=
  let details := match event with
    | .tokenized count => s!" count={count}"
    | .built expr => s!" node={expr.render}"
    | .evaluated kind value => s!" kind={kind} value={Decimal.showFloat value}"
    | .inputClosed name => s!" name={name}"
    | .doubtfulFunction _ | .sessionStarted | .sessionEnded => ""
  levelName event.level ++ " " ++ event.message ++ details

/-- Evaluates one expression and prints its report; the result says whether it has one. -/
def evaluateAndPrint (settings : Settings) (source : String) : Dialogue StreamError Bool :=
  fun console ↦ match Session.evaluateOnce settings source console with
  | (.ok report, after) => (do Dialogue.print report.text; return true) after
  | (.error error, after) => (do Dialogue.complain error.message; return false) after

/-- Holds a dialogue on the input; only a dialogue that succeeds leaves the exit code 0. -/
def outcomeOf (dialogue : Dialogue StreamError Bool) (verbosity : Nat) (input : List UInt8) :
    Outcome :=
  let (result, after) := dialogue (Console.ofInput (Input.ofBytes input) fun _ _ ↦ none)
  let log := (after.events.filter fun event ↦ isLogged verbosity event.level).map logLine
  match result with
  | .ok succeeded => ⟨if succeeded then 0 else 1, after.text .out, after.text .err, log⟩
  | .error error => ⟨1, after.text .out, after.text .err ++ error.message ++ "\n", log⟩

/-- Does what the program is asked to do. -/
def Invocation.run (input : List UInt8) : Invocation → Outcome
  | .version => ⟨0, versionText ++ "\n", "", []⟩
  | .help => ⟨0, helpText ++ "\n", "", []⟩
  | .misuse reason => ⟨2, "", reason ++ "\n", []⟩
  | .interact settings verbosity =>
    outcomeOf (do Session.interact settings; return true) verbosity input
  | .evaluate settings verbosity source =>
    outcomeOf (evaluateAndPrint settings source) verbosity input

end Formula.CommandLine
