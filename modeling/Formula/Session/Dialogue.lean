import Formula.Logged
import Formula.Session.Console

/-!
# Dialogues

A dialogue is a step of a session: it reads from a console and writes to it, and then it has a
result or has failed. What it did to the console stays done either way. No dialogue puts input
back.
-/

namespace Formula

def Dialogue (ε α : Type) := Console → Except ε α × Console

namespace Dialogue

variable {ε ε' α β : Type}

def bind (first : Dialogue ε α) (next : α → Dialogue ε β) : Dialogue ε β := fun console ↦
  match first console with
  | (.error error, after) => (.error error, after)
  | (.ok value, after) => next value after

instance : Monad (Dialogue ε) where
  pure value := fun console ↦ (.ok value, console)
  bind := bind

def fail (error : ε) : Dialogue ε α := fun console ↦ (.error error, console)

def mapError (f : ε → ε') (dialogue : Dialogue ε α) : Dialogue ε' α := fun console ↦
  match dialogue console with
  | (result, after) => (result.mapError f, after)

/-! ## Single steps -/

/-- Shows a prompt and reads one line; beyond the last item the input has ended. -/
def readLine (prompt : String) : Dialogue StreamError (Option String) := fun console ↦
  match console.unread with
  | [] => (.ok none, console.add [.prompt prompt])
  | input :: rest =>
    let asked := { console.add [.prompt prompt] with unread := rest }
    match input.result with
    | .error error => (.error error, asked.add [.failed error])
    | .ok line => (.ok line, asked)

def write (stream : Stream) (text : String) : Dialogue StreamError Unit := fun console ↦
  match console.failure stream console.writes with
  | some reason =>
    (.error (.io reason), { console.add [.failed (.io reason)] with writes := console.writes + 1 })
  | none =>
    (.ok (), { console.add [.written stream text] with writes := console.writes + 1 })

/-- Writes a line of output. -/
def print (line : String) : Dialogue StreamError Unit :=
  write .out (line ++ "\n")

/-- Writes a line about what is wrong. -/
def complain (line : String) : Dialogue StreamError Unit :=
  write .err (line ++ "\n")

def note (event : Event) : Dialogue ε Unit := fun console ↦
  (.ok (), console.add [.event event])

/-- Takes over the result of a computation and the events it noted. -/
def perform (computation : Logged ε α) : Dialogue ε α := fun console ↦
  (computation.result, console.add (computation.events.map .event))

/-- Whatever is unread after the dialogue was unread before it, and in the same order. -/
def Consumes (dialogue : Dialogue ε α) : Prop :=
  ∀ console, (dialogue console).2.unread <:+ console.unread

theorem consumes_pure (value : α) : (pure value : Dialogue ε α).Consumes :=
  fun _ ↦ List.suffix_refl _

theorem consumes_bind {first : Dialogue ε α} {next : α → Dialogue ε β} (hfirst : first.Consumes)
    (hnext : ∀ value, (next value).Consumes) : (first >>= next).Consumes := by
  intro console
  have h := hfirst console
  show (bind first next console).2.unread <:+ console.unread
  unfold bind
  split
  · next heq => simpa [heq] using h
  · next value after heq => exact (hnext value after).trans (by simpa [heq] using h)

theorem consumes_fail (error : ε) : (fail error : Dialogue ε α).Consumes :=
  fun _ ↦ List.suffix_refl _

theorem consumes_mapError {f : ε → ε'} {dialogue : Dialogue ε α} (h : dialogue.Consumes) :
    (dialogue.mapError f).Consumes :=
  h

theorem consumes_readLine (prompt : String) : (readLine prompt).Consumes := by
  intro console
  unfold readLine
  split
  · exact List.suffix_refl _
  · next heq =>
    dsimp only
    split <;> exact heq ▸ List.suffix_cons _ _

theorem consumes_write (stream : Stream) (text : String) : (write stream text).Consumes := by
  intro console
  unfold write
  split <;> exact List.suffix_refl _

theorem consumes_print (line : String) : (print line).Consumes :=
  consumes_write _ _

theorem consumes_complain (line : String) : (complain line).Consumes :=
  consumes_write _ _

theorem consumes_note (event : Event) : (note event : Dialogue ε Unit).Consumes :=
  fun _ ↦ List.suffix_refl _

theorem consumes_perform (computation : Logged ε α) : (perform computation).Consumes :=
  fun _ ↦ List.suffix_refl _

/-- Whenever the dialogue has a line for its result, that line is no longer unread. -/
def TakesLine (dialogue : Dialogue ε (Option String)) : Prop :=
  ∀ console line after, dialogue console = (.ok (some line), after) →
    after.unread.length < console.unread.length

theorem takesLine_readLine (prompt : String) : (readLine prompt).TakesLine := by
  intro console line after h
  unfold readLine at h
  split at h
  · simp at h
  · next heq =>
    dsimp only at h
    split at h
    · simp at h
    · obtain ⟨-, rfl⟩ := Prod.mk.inj h
      simp [heq]

theorem takesLine_mapError {f : ε → ε'} {dialogue : Dialogue ε (Option String)}
    (htakes : dialogue.TakesLine) : (dialogue.mapError f).TakesLine := by
  intro console line after h
  change (match dialogue console with | (result, after) => (result.mapError f, after)) = _ at h
  split at h
  · next result middle heq =>
    obtain ⟨hresult, rfl⟩ := Prod.mk.inj h
    cases result with
    | error => cases hresult
    | ok value =>
      cases hresult
      exact htakes console line _ heq

/-- A dialogue that gives no result only after a line was read has read a line if it gives none. -/
theorem unread_lt_of_bind {first : Dialogue ε (Option String)}
    {next : Option String → Dialogue ε (Option α)} (hfirst : first.TakesLine)
    (hend : ∀ console after, next none console ≠ (.ok none, after))
    (hline : ∀ line, (next (some line)).Consumes) {console after : Console}
    (h : (first >>= next) console = (.ok none, after)) :
    after.unread.length < console.unread.length := by
  change bind first next console = _ at h
  unfold bind at h
  split at h
  · simp at h
  · next value middle heq =>
    cases value with
    | none => exact absurd h (hend middle after)
    | some line =>
      have hsuffix := hline line middle
      rw [h] at hsuffix
      exact Nat.lt_of_le_of_lt hsuffix.length_le (hfirst console line middle heq)

end Dialogue

end Formula
