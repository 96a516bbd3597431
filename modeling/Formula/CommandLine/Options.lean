import Formula.Session

/-!
# Options

Options come first; the first word that is none of them starts the expression, and everything
after it belongs to it. So an expression may begin with a minus, or with what looks like an
unknown option.
-/

namespace Formula.CommandLine

/-- What the program is asked to do. -/
inductive Invocation where
  | version
  | help
  | misuse (reason : String)
  | interact (settings : Settings) (verbosity : Nat)
  | evaluate (settings : Settings) (verbosity : Nat) (source : String)

def versionText : String := "varcalc 0.1.0"

def helpText : String :=
  "Usage: varcalc [OPTIONS] [EXPRESSION]...\n\n" ++
  "Evaluates an expression, asking for the value of every variable in it.\n" ++
  "Without an expression it reads one per line; the line `exit` ends it.\n\n" ++
  "Options:\n" ++
  "  -e, --every-occurrence  Ask for a variable each time it occurs\n" ++
  "  -q, --no-bindings       Print the result without the values\n" ++
  "  -a, --angle <UNIT>      Unit of angles: rad, deg or grad\n" ++
  "  -v, --verbose           Log more; may be repeated\n" ++
  "  -h, --help              Print this help\n" ++
  "  -V, --version           Print the version"

/-- One option as it is written; an angle without a value takes the next word. -/
inductive Flag where
  | everyOccurrence
  | noBindings
  | angle (value : Option String)
  | verbose
  | help
  | version
  | valueRefused (option : String)

/-- The options of a cluster of letters, or nothing if one of the letters is no option. -/
def clusterFlags? : List Char → Option (List Flag)
  | [] => some []
  | 'e' :: rest => (clusterFlags? rest).map (.everyOccurrence :: ·)
  | 'q' :: rest => (clusterFlags? rest).map (.noBindings :: ·)
  | 'v' :: rest => (clusterFlags? rest).map (.verbose :: ·)
  | 'h' :: rest => (clusterFlags? rest).map (.help :: ·)
  | 'V' :: rest => (clusterFlags? rest).map (.version :: ·)
  | 'a' :: rest =>
    let value := if rest = [] then none else some (String.ofList rest)
    (clusterFlags? rest).map fun _ ↦ [.angle value]
  | _ => none

/-- The option with a long name and the value written after its equals sign. -/
def longFlag? (name : String) (value : Option String) : Option Flag :=
  let plain (flag : Flag) := if value.isSome then Flag.valueRefused name else flag
  match name with
  | "every-occurrence" => some (plain .everyOccurrence)
  | "no-bindings" => some (plain .noBindings)
  | "angle" => some (.angle value)
  | "verbose" => some (plain .verbose)
  | "help" => some (plain .help)
  | "version" => some (plain .version)
  | _ => none

/-- The options that a word holds, or nothing if it is no option. -/
def flags? (word : String) : Option (List Flag) :=
  match word.toList with
  | '-' :: '-' :: rest =>
    let name := String.ofList (rest.takeWhile (· ≠ '='))
    let value := match rest.dropWhile (· ≠ '=') with
      | [] => none
      | _ :: value => some (String.ofList value)
    (longFlag? name value).map ([·])
  | '-' :: c :: rest => clusterFlags? (c :: rest)
  | _ => none

/-- The options seen so far. -/
structure Options where
  everyOccurrence : Bool := false
  noBindings : Bool := false
  angle : Option AngleUnit := none
  verbosity : Nat := 0

namespace Options

def settings (options : Options) : Settings where
  prompting := if options.everyOccurrence then .everyOccurrence else .oncePerName
  showsBindings := !options.noBindings
  angleUnit := options.angle.getD .radians

/-- What to do once the options are read, given the words of the expression. -/
def invocation (options : Options) : List String → Invocation
  | [] => .interact options.settings options.verbosity
  | words => .evaluate options.settings options.verbosity (String.intercalate " " words)

def setAngle (options : Options) (value : String) : Except Invocation Options :=
  match options.angle, AngleUnit.ofName? value with
  | some _, _ => .error (.misuse "The angle is given twice.")
  | none, none => .error (.misuse s!"Unknown angle '{value}'.")
  | none, some unit => .ok { options with angle := unit }

/-- Applies options in order, up to one that decides what to do; the flag says whether the last
one still lacks its value. -/
def apply (options : Options) : List Flag → Except Invocation (Options × Bool)
  | [] => .ok (options, false)
  | .everyOccurrence :: rest =>
    if options.everyOccurrence then .error (.misuse "An option is given twice.")
    else apply { options with everyOccurrence := true } rest
  | .noBindings :: rest =>
    if options.noBindings then .error (.misuse "An option is given twice.")
    else apply { options with noBindings := true } rest
  | .verbose :: rest => apply { options with verbosity := options.verbosity + 1 } rest
  | .help :: _ => .error .help
  | .version :: _ => .error .version
  | .valueRefused option :: _ => .error (.misuse s!"The option '{option}' takes no value.")
  | .angle none :: _ => .ok (options, true)
  | .angle (some value) :: rest => do apply (← options.setAngle value) rest

/-- Reads options from the front of the words. -/
def read (options : Options) : List String → Invocation
  | [] => options.invocation []
  | word :: words =>
    if word = "--" then options.invocation words
    else match flags? word with
      | none => options.invocation (word :: words)
      | some flags => match options.apply flags, words with
        | .error invocation, _ => invocation
        | .ok (options, false), words => read options words
        | .ok (_, true), [] => .misuse "The angle lacks its unit."
        | .ok (options, true), value :: words => match options.setAngle value with
          | .error invocation => invocation
          | .ok options => read options words

end Options

/-- What the words after the program's name ask for. -/
def parse (words : List String) : Invocation :=
  Options.read {} words

end Formula.CommandLine
