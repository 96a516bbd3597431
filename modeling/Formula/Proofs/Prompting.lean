import Formula.Proofs.Locality

/-!
# Asking for values

Values are asked for by a loop inside a loop: over the names, and for each name over the lines until
one is a number. This is said here as one loop over lines, with what one line does: a number is
taken for the name asked for, any other line is answered with one message, and the first end of
input, failed read or failed write is the last thing that happens.
-/

namespace Formula

namespace Dialogue

variable {ε α β : Type}

theorem bind_ok {first : Dialogue ε α} {console after : Console} {value : α}
    (h : first console = (.ok value, after)) (next : α → Dialogue ε β) :
    (first >>= next) console = next value after := by
  rw [bind_of_ok (congrArg Prod.fst h), h]

theorem bind_error {first : Dialogue ε α} {console after : Console} {error : ε}
    (h : first console = (.error error, after)) (next : α → Dialogue ε β) :
    (first >>= next) console = (.error error, after) := by
  rw [bind_of_error (congrArg Prod.fst h), h]

theorem bind_eq_of_eq {first first' : Dialogue ε α} {console console' : Console}
    (h : first console = first' console') (next : α → Dialogue ε β) :
    (first >>= next) console = (first' >>= next) console' := by
  change bind first next console = bind first' next console'
  unfold bind
  rw [h]

theorem mapError_eq {ε' : Type} {f : ε → ε'} {dialogue : Dialogue ε α} {console after : Console}
    {result : Except ε α} (h : dialogue console = (result, after)) :
    dialogue.mapError f console = (result.mapError f, after) := by
  unfold mapError
  rw [h]

instance : LawfulMonad (Dialogue ε) := by
  refine LawfulMonad.mk' (Dialogue ε) ?_ (fun _ _ ↦ rfl) ?_
  · intro α dialogue
    funext console
    change (dialogue >>= pure) console = dialogue console
    cases hresult : dialogue console with
    | mk result after =>
      cases result with
      | ok value => rw [bind_ok hresult]; rfl
      | error error => rw [bind_error hresult]
  · intro α β γ dialogue next last
    funext console
    cases hresult : dialogue console with
    | mk result after =>
      cases result with
      | ok value =>
        have hnext : (dialogue >>= next) console = next value after := bind_ok hresult next
        rw [bind_ok hresult]
        cases hmiddle : next value after with
        | mk result' after' =>
          cases result' with
          | ok value' => rw [bind_ok (hnext.trans hmiddle), bind_ok hmiddle]
          | error error => rw [bind_error (hnext.trans hmiddle), bind_error hmiddle]
      | error error =>
        rw [bind_error (bind_error hresult next), bind_error hresult]

end Dialogue

/-- What reading gives where these items are left; beyond the last item the input has ended. -/
def Input.next : List Input → Except StreamError (Option String)
  | [] => .ok none
  | input :: _ => input.result

theorem Input.next_eq_line_iff {unread : List Input} {line : String} :
    next unread = .ok (some line) ↔ ∃ rest, unread = .line line :: rest := by
  cases unread with
  | nil => simp [next]
  | cons input rest => cases input <;> simp [next, result]

theorem Console.add_add (console : Console) (first second : List Entry) :
    (console.add first).add second = console.add (first ++ second) := by
  simp [add]

/-- The console after something was asked for: one item is no longer unread. -/
def Console.asked (console : Console) (prompt : String) : Console :=
  { console.add [.prompt prompt] with unread := console.unread.tail }

def Console.told (console : Console) (stream : Stream) (text : String) : Console :=
  { console.add [.written stream text] with writes := console.writes + 1 }

@[simp] theorem Console.entries_asked (console : Console) (prompt : String) :
    (console.asked prompt).entries = console.entries ++ [.prompt prompt] :=
  console.entries_add [.prompt prompt]

@[simp] theorem Console.entries_told (console : Console) (stream : Stream) (text : String) :
    (console.told stream text).entries = console.entries ++ [.written stream text] :=
  console.entries_add [.written stream text]

namespace Dialogue

/-- Reading writes the prompt before the line is looked at. -/
theorem readLine_eq (prompt : String) (console : Console) :
    readLine prompt console =
      (Input.next console.unread,
        match Input.next console.unread with
        | .ok _ => console.asked prompt
        | .error error => (console.asked prompt).add [.failed error]) := by
  unfold readLine Console.asked
  cases hunread : console.unread with
  | nil => simp [Input.next, Console.add, hunread]
  | cons input rest => cases hinput : input.result <;> simp [Input.next, hinput]

theorem readLine_of_ok {console : Console} {line : Option String}
    (h : Input.next console.unread = .ok line) (prompt : String) :
    readLine prompt console = (.ok line, console.asked prompt) := by
  rw [readLine_eq, h]

theorem readLine_of_error {console : Console} {error : StreamError}
    (h : Input.next console.unread = .error error) (prompt : String) :
    readLine prompt console = (.error error, (console.asked prompt).add [.failed error]) := by
  rw [readLine_eq, h]

theorem write_of_none {stream : Stream} {console : Console}
    (h : console.failure stream console.writes = none) (text : String) :
    write stream text console = (.ok (), console.told stream text) := by
  simp only [write, h, Console.told]

/-- A write that fails is the last thing on record. -/
theorem write_of_some {stream : Stream} {console : Console} {reason : String}
    (h : console.failure stream console.writes = some reason) (text : String) :
    write stream text console =
      (.error (.io reason),
        { console.add [.failed (.io reason)] with writes := console.writes + 1 }) := by
  simp only [write, h]

end Dialogue

/-- A loop is one step and, unless that ends it, the loop again. -/
theorem Round.run_eq {ε α : Type} (round : Round ε α) :
    round.run = round.step >>= fun result ↦ result.elim round.run pure := by
  funext console
  rw [run]
  split
  · next heq => rw [Dialogue.bind_error heq]
  · next heq => rw [Dialogue.bind_ok heq]; rfl
  · next heq => rw [Dialogue.bind_ok heq]; rfl

/-- The first name is asked for, and the rest with its value bound. -/
theorem Context.fill_cons {m : Type → Type} [Monad m] [LawfulMonad m] (ask : String → m Float)
    (name : String) (later : List String) (context : Context) :
    context.fill ask (name :: later) =
      ask name >>= fun value ↦ (context.insert name value).fill ask later := by
  simp only [fill, List.foldlM_cons, bind_assoc, pure_bind]

namespace Session

variable {console : Console} {line : String}

theorem askOnce_of_ended (h : Input.next console.unread = .ok none) (name : String) :
    askOnce name console = (.error (.inputClosed name), console.asked (valuePrompt name)) := by
  unfold askOnce
  rw [Dialogue.bind_ok (Dialogue.mapError_eq (Dialogue.readLine_of_ok h _))]
  rfl

theorem askOnce_of_unreadable {error : StreamError}
    (h : Input.next console.unread = .error error) (name : String) :
    askOnce name console =
      (.error (.stream error), (console.asked (valuePrompt name)).add [.failed error]) := by
  unfold askOnce
  rw [Dialogue.bind_error (Dialogue.mapError_eq (Dialogue.readLine_of_error h _))]

theorem askOnce_of_accepted {value : Float} (h : Input.next console.unread = .ok (some line))
    (hvalue : Decimal.readFloat? (Text.trim line) = some value) (name : String) :
    askOnce name console = (.ok (some value), console.asked (valuePrompt name)) := by
  unfold askOnce
  rw [Dialogue.bind_ok (Dialogue.mapError_eq (Dialogue.readLine_of_ok h _))]
  simp only [hvalue]
  rfl

/-- The complaint about a line that is no number. -/
def reject (line : String) : Dialogue SessionError Unit :=
  (Dialogue.complain (rejection line)).mapError .stream

theorem askOnce_of_rejected (h : Input.next console.unread = .ok (some line))
    (hvalue : Decimal.readFloat? (Text.trim line) = none) (name : String) :
    askOnce name console =
      (reject line >>= fun _ ↦ pure none) (console.asked (valuePrompt name)) := by
  unfold askOnce
  rw [Dialogue.bind_ok (Dialogue.mapError_eq (Dialogue.readLine_of_ok h _))]
  simp only [hvalue]
  rfl

/-- Asking for a value is asking once, and again after a line that is no number. -/
theorem askValue_eq (name : String) :
    askValue name = askOnce name >>= fun answer ↦ answer.elim (askValue name) pure :=
  Round.run_eq ⟨askOnce name, unread_askOnce_lt⟩

/-- Each time a line is asked for, either the next name is asked for or the same name again. -/
theorem fill_cons_eq (context : Context) (name : String) (later : List String) :
    context.fill askValue (name :: later) = askOnce name >>= fun answer ↦
      answer.elim (context.fill askValue (name :: later))
        fun value ↦ (context.insert name value).fill askValue later := by
  let go (value : Float) := (context.insert name value).fill askValue later
  calc context.fill askValue (name :: later)
    _ = askValue name >>= go := Context.fill_cons askValue name later context
    _ = (askOnce name >>= fun answer ↦ answer.elim (askValue name) pure) >>= go :=
      congrArg (· >>= go) (askValue_eq name)
    _ = askOnce name >>= fun answer ↦ answer.elim (askValue name) pure >>= go :=
      bind_assoc _ _ _
    _ = _ := by
      congr 1
      funext answer
      cases answer with
      | none => exact (Context.fill_cons askValue name later context).symm
      | some value => exact pure_bind value go

section

variable (context : Context) (name : String) (later : List String)

theorem fill_of_ended (h : Input.next console.unread = .ok none) :
    context.fill askValue (name :: later) console =
      (.error (.inputClosed name), console.asked (valuePrompt name)) := by
  rw [fill_cons_eq, Dialogue.bind_error (askOnce_of_ended h name)]

theorem fill_of_unreadable {error : StreamError} (h : Input.next console.unread = .error error) :
    context.fill askValue (name :: later) console =
      (.error (.stream error), (console.asked (valuePrompt name)).add [.failed error]) := by
  rw [fill_cons_eq, Dialogue.bind_error (askOnce_of_unreadable h name)]

/-- A number is bound, and the next name is asked for. -/
theorem fill_of_accepted {value : Float} (h : Input.next console.unread = .ok (some line))
    (hvalue : Decimal.readFloat? (Text.trim line) = some value) :
    context.fill askValue (name :: later) console =
      (context.insert name value).fill askValue later (console.asked (valuePrompt name)) := by
  rw [fill_cons_eq]
  exact Dialogue.bind_ok (askOnce_of_accepted h hvalue name) _

/-- A line that is no number is told, and the same name is asked for again. -/
theorem fill_of_rejected (h : Input.next console.unread = .ok (some line))
    (hvalue : Decimal.readFloat? (Text.trim line) = none) :
    context.fill askValue (name :: later) console =
      (reject line >>= fun _ ↦ context.fill askValue (name :: later))
        (console.asked (valuePrompt name)) := by
  let again (answer : Option Float) : Dialogue SessionError Context :=
    answer.elim (context.fill askValue (name :: later))
      fun value ↦ (context.insert name value).fill askValue later
  calc context.fill askValue (name :: later) console
    _ = (askOnce name >>= again) console := by rw [← fill_cons_eq]
    _ = ((reject line >>= fun _ ↦ pure none) >>= again) (console.asked (valuePrompt name)) :=
      Dialogue.bind_eq_of_eq (askOnce_of_rejected h hvalue name) again
    _ = _ := by
      rw [bind_assoc]
      rfl

end

end Session

end Formula
