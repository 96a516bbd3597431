import Formula.Session

/-!
# What a dialogue depends on

A dialogue is held alone, or behind an earlier part of a session and in front of more input. Both
times it asks, writes and reads the same and has the same result, unless the input ends where it
has nothing more to read alone. Neither the record so far nor the number of writes before it has
any influence. It is assumed that no write fails.
-/

namespace Formula

def Entry.isSeen : Entry → Bool
  | event _ => false
  | _ => true

namespace Console

def seen (console : Console) : List Entry :=
  console.entries.filter Entry.isSeen

@[simp] theorem seen_add (console : Console) (added : List Entry) :
    (console.add added).seen = console.seen ++ added.filter Entry.isSeen := by
  simp [seen]

/-- The second console is the first one with an earlier part of a session seen before it and with
more to read after it. Writing fails on neither. -/
structure Embeds (past : List Entry) (more : List Input) (alone within : Console) : Prop where
  unread : within.unread = alone.unread ++ more
  seen : within.seen = past ++ alone.seen
  writable : alone.failure = fun _ _ ↦ none
  writableWithin : within.failure = fun _ _ ↦ none

theorem Embeds.add {past : List Entry} {more : List Input} {alone within : Console}
    (h : Embeds past more alone within) (added : List Entry) :
    Embeds past more (alone.add added) (within.add added) where
  unread := h.unread
  seen := by rw [seen_add, seen_add, h.seen, List.append_assoc]
  writable := h.writable
  writableWithin := h.writableWithin

end Console

namespace Dialogue

variable {ε ε' α β : Type} {past : List Entry} {more : List Input} {alone within : Console}

theorem bind_of_ok {first : Dialogue ε α} {next : α → Dialogue ε β} {console : Console} {value : α}
    (h : (first console).1 = .ok value) :
    (first >>= next) console = next value (first console).2 := by
  change bind first next console = _
  unfold bind
  split <;> simp_all

theorem bind_of_error {first : Dialogue ε α} {next : α → Dialogue ε β} {console : Console}
    {error : ε} (h : (first console).1 = .error error) :
    (first >>= next) console = (.error error, (first console).2) := by
  change bind first next console = _
  unfold bind
  split <;> simp_all

/-- The dialogue has the same result on both consoles, and they still differ only in what was
before and what comes after. -/
def Agrees (past : List Entry) (more : List Input) (dialogue : Dialogue ε α)
    (alone within : Console) : Prop :=
  (dialogue within).1 = (dialogue alone).1 ∧
    Console.Embeds past more (dialogue alone).2 (dialogue within).2

/-- Two dialogues that agree at both places agree one after the other. -/
theorem Agrees.bind {first : Dialogue ε α} {next : α → Dialogue ε β}
    (hfirst : Agrees past more first alone within)
    (hnext : ∀ value, (first alone).1 = .ok value →
      Agrees past more (next value) (first alone).2 (first within).2) :
    Agrees past more (first >>= next) alone within := by
  cases hresult : (first alone).1 with
  | error error =>
    have hwithin := hfirst.1.trans hresult
    rw [Agrees, bind_of_error hresult, bind_of_error hwithin]
    exact ⟨rfl, hfirst.2⟩
  | ok value =>
    have hwithin := hfirst.1.trans hresult
    rw [Agrees, bind_of_ok hresult, bind_of_ok hwithin]
    exact hnext value hresult

theorem Agrees.mapError {f : ε → ε'} {dialogue : Dialogue ε α}
    (h : Agrees past more dialogue alone within) :
    Agrees past more (dialogue.mapError f) alone within :=
  ⟨congrArg (Except.mapError f) h.1, h.2⟩

/-- A line is read that stands before the input that comes after. -/
theorem agrees_readLine (h : Console.Embeds past more alone within)
    (hmore : alone.unread = [] → more = []) (prompt : String) :
    Agrees past more (readLine prompt) alone within := by
  have hasked := h.add [.prompt prompt]
  cases hunread : alone.unread with
  | nil =>
    have hwithin : within.unread = [] := by rw [h.unread, hunread, hmore hunread, List.append_nil]
    simp only [Agrees, readLine, hunread, hwithin]
    exact ⟨trivial, hasked⟩
  | cons input rest =>
    have hwithin : within.unread = input :: (rest ++ more) := by
      rw [h.unread, hunread, List.cons_append]
    have hrest : Console.Embeds past more { alone.add [.prompt prompt] with unread := rest }
        { within.add [.prompt prompt] with unread := rest ++ more } :=
      ⟨rfl, hasked.seen, h.writable, h.writableWithin⟩
    simp only [Agrees, readLine, hunread, hwithin]
    cases input.result with
    | error error => exact ⟨rfl, hrest.add [.failed error]⟩
    | ok line => exact ⟨rfl, hrest⟩

/-- The dialogue agrees on all consoles, unless it fails alone by an error that says that the input
has ended and there is more input after it. -/
def Local (past : List Entry) (more : List Input) (lost : ε → Prop) (dialogue : Dialogue ε α) :
    Prop :=
  ∀ alone within, Console.Embeds past more alone within →
    (∀ error, (dialogue alone).1 = .error error → lost error → more = []) →
    Agrees past more dialogue alone within

variable {lost : ε → Prop}

theorem local_pure (value : α) : Local past more lost (pure value : Dialogue ε α) :=
  fun _ _ h _ ↦ ⟨rfl, h⟩

theorem local_perform (computation : Logged ε α) : Local past more lost (perform computation) :=
  fun _ _ h _ ↦ ⟨rfl, h.add _⟩

theorem local_note (event : Event) : Local past more lost (note event : Dialogue ε Unit) :=
  fun _ _ h _ ↦ ⟨rfl, h.add _⟩

theorem agrees_write (h : Console.Embeds past more alone within) (stream : Stream)
    (text : String) : Agrees past more (write stream text) alone within := by
  have hwritten := h.add [.written stream text]
  simp only [Agrees, write, h.writable, h.writableWithin]
  exact ⟨trivial, hwritten.unread, hwritten.seen, h.writable, h.writableWithin⟩

theorem Local.bind {first : Dialogue ε α} {next : α → Dialogue ε β}
    (hfirst : Local past more lost first) (hnext : ∀ value, Local past more lost (next value)) :
    Local past more lost (first >>= next) := by
  intro alone within h hlost
  have hagrees : Agrees past more first alone within :=
    hfirst alone within h fun error herror ↦
      hlost error (by rw [bind_of_error herror])
  refine hagrees.bind fun value hvalue ↦ hnext value _ _ hagrees.2 fun error herror ↦ ?_
  rw [bind_of_ok hvalue] at hlost
  exact hlost error herror

end Dialogue

namespace Round

variable {ε α : Type} {past : List Entry} {more : List Input} {round : Round ε α}
  {console : Console}

theorem run_of_none (h : (round.step console).1 = .ok none) :
    round.run console = round.run (round.step console).2 := by
  rw [run]
  split <;> simp_all

theorem run_of_some {result : α} (h : (round.step console).1 = .ok (some result)) :
    round.run console = (.ok result, (round.step console).2) := by
  rw [run]
  split <;> simp_all

theorem run_of_error {error : ε} (h : (round.step console).1 = .error error) :
    round.run console = (.error error, (round.step console).2) := by
  rw [run]
  split <;> simp_all

/-- A dialogue held again and again agrees if it agrees each time. -/
theorem local_run {lost : ε → Prop} (hstep : round.step.Local past more lost) :
    round.run.Local past more lost := by
  intro alone within h hlost
  fun_induction run round alone generalizing within with
  | case1 alone error after heq =>
    have halone : (round.step alone).1 = .error error := congrArg Prod.fst heq
    have hagrees := hstep alone within h fun found hfound ↦ by
      cases halone.symm.trans hfound
      exact hlost error rfl
    rw [Dialogue.Agrees, run_of_error halone, run_of_error (hagrees.1.trans halone)]
    exact ⟨rfl, hagrees.2⟩
  | case2 alone result after heq =>
    have halone : (round.step alone).1 = .ok (some result) := congrArg Prod.fst heq
    have hagrees := hstep alone within h fun found hfound ↦ by simp [halone] at hfound
    rw [Dialogue.Agrees, run_of_some halone, run_of_some (hagrees.1.trans halone)]
    exact ⟨rfl, hagrees.2⟩
  | case3 alone after heq _ ih =>
    have halone : (round.step alone).1 = .ok none := congrArg Prod.fst heq
    have hagrees := hstep alone within h fun found hfound ↦ by simp [halone] at hfound
    have hafter := hagrees.2
    rw [Dialogue.Agrees, run_of_none halone, run_of_none (hagrees.1.trans halone)]
    rw [heq] at hafter ⊢
    exact ih _ hafter hlost

end Round

namespace Session

open Dialogue

variable {past : List Entry} {more : List Input} {alone within : Console}

/-- The error of an evaluation that ran out of input. -/
def IsInputClosed (error : SessionError) : Prop :=
  ∃ name, error = .inputClosed name

/-- Asking once looks at nothing but the next line. -/
theorem local_askOnce (name : String) : Local past more IsInputClosed (askOnce name) := by
  intro alone within h hlost
  have hmore : alone.unread = [] → more = [] := by
    intro hunread
    have hended : (readLine (valuePrompt name) alone).1 = .ok none := by simp [readLine, hunread]
    have hnone : ((readLine (valuePrompt name)).mapError SessionError.stream alone).1 =
        .ok none :=
      congrArg (Except.mapError SessionError.stream) hended
    refine hlost (.inputClosed name) ?_ ⟨name, rfl⟩
    rw [askOnce, bind_of_ok hnone]
    rfl
  have hread := (agrees_readLine h hmore (valuePrompt name)).mapError (f := SessionError.stream)
  refine hread.bind fun line hline ↦ ?_
  cases line with
  | none => exact ⟨rfl, hread.2⟩
  | some line =>
    dsimp only
    cases Decimal.readFloat? (Text.trim line) with
    | some value => exact ⟨rfl, hread.2⟩
    | none =>
      have hcomplaint := agrees_write hread.2 .err (rejection line ++ "\n")
      exact (hcomplaint.mapError (f := SessionError.stream)).bind fun _ _ ↦ ⟨rfl, hcomplaint.2⟩

theorem local_askValue (name : String) : Local past more IsInputClosed (askValue name) :=
  Round.local_run (local_askOnce name)

/-- Filling in the missing names is local because asking for each one is. -/
theorem local_fill (names : List String) (context : Context) :
    Local past more IsInputClosed (context.fill askValue names) := by
  induction names generalizing context with
  | nil => exact local_pure context
  | cons name names ih =>
    unfold Context.fill
    rw [List.foldlM_cons]
    exact Local.bind (Local.bind (local_askValue name) fun _ ↦ local_pure _) fun _ ↦ ih _

/-- Compiling, asking and evaluating look at the lines that they read and at no others. -/
theorem local_evaluateOnce (settings : Settings) (source : String) :
    Local past more IsInputClosed (evaluateOnce settings source) :=
  Local.bind (local_perform _) fun _ ↦ Local.bind (local_fill _ _) fun _ ↦
    Local.bind (local_perform _) fun _ ↦ local_pure _

/-- What is said after an evaluation, and whether it ends the session. -/
def respond : Except SessionError Report → Dialogue StreamError (Option Unit)
  | .ok report => do
    Dialogue.print report.text
    return none
  | .error (.expression error) => do
    Dialogue.complain error.message
    return none
  | .error (.inputClosed name) => do
    Dialogue.note (.inputClosed name)
    return some ()
  | .error (.stream error) => Dialogue.fail error

/-- An answer is the evaluation with its result told to the reader. -/
theorem answer_eq (settings : Settings) (source : String) (console : Console) :
    answer settings source console =
      respond (evaluateOnce settings source console).1
        (evaluateOnce settings source console).2 := by
  unfold answer
  split <;> next heq => simp only [heq, respond, Dialogue.fail]

theorem agrees_respond (result : Except SessionError Report)
    (h : Console.Embeds past more alone within) :
    Agrees past more (respond result) alone within := by
  cases result with
  | ok report =>
    have hreport := agrees_write h .out (report.text ++ "\n")
    exact hreport.bind fun _ _ ↦ ⟨rfl, hreport.2⟩
  | error error =>
    cases error with
    | expression error =>
      have hcomplaint := agrees_write h .err (error.message ++ "\n")
      exact hcomplaint.bind fun _ _ ↦ ⟨rfl, hcomplaint.2⟩
    | inputClosed name => exact ⟨rfl, h.add _⟩
    | stream error => exact ⟨rfl, h⟩

/-- An answer that ends the session agrees if there is no more input, any other one always. -/
theorem agrees_answer {settings : Settings} {source : String}
    (h : Console.Embeds past more alone within)
    (hends : (answer settings source alone).1 ≠ .ok none → more = []) :
    Agrees past more (answer settings source) alone within := by
  have hevaluated : Agrees past more (evaluateOnce settings source) alone within := by
    refine local_evaluateOnce settings source alone within h fun error herror hlost ↦ ?_
    obtain ⟨name, rfl⟩ := hlost
    apply hends
    rw [answer_eq, herror]
    exact fun hnone ↦ by cases hnone
  rw [Agrees, answer_eq, answer_eq, hevaluated.1]
  exact agrees_respond _ hevaluated.2

/-- A turn runs alike at both places unless it ends the session while lines are left. -/
theorem agrees_takeTurn {settings : Settings} (h : Console.Embeds past more alone within)
    (hends : (takeTurn settings alone).1 ≠ .ok none → more = []) :
    Agrees past more (takeTurn settings) alone within := by
  have hmore : alone.unread = [] → more = [] := by
    intro hunread
    have hnone : (readLine expressionPrompt alone).1 = .ok none := by simp [readLine, hunread]
    apply hends
    rw [takeTurn, bind_of_ok hnone]
    simp [pure]
  have hread := agrees_readLine h hmore expressionPrompt
  refine hread.bind fun line hline ↦ ?_
  rw [takeTurn, bind_of_ok hline] at hends
  cases line with
  | none => exact ⟨rfl, hread.2⟩
  | some line =>
    dsimp only at hends ⊢
    split
    · exact ⟨rfl, hread.2⟩
    · split
      · exact ⟨rfl, hread.2⟩
      · next hexit hblank =>
        rw [if_neg hexit, if_neg hblank] at hends
        exact agrees_answer hread.2 hends

end Session

end Formula
