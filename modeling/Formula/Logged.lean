import Formula.Event

/-!
# Logged computations

A computation that keeps a record of the events on its way. The events up to a failure are kept;
nothing happens after one.
-/

namespace Formula

/-- A result together with the events that led to it. -/
structure Logged (ε α : Type) where
  events : List Event
  result : Except ε α

namespace Logged

variable {ε ε' α β : Type}

/-- A result that nothing is noted about. -/
def lift (result : Except ε α) : Logged ε α := ⟨[], result⟩

def log (event : Event) : Logged ε Unit := ⟨[event], .ok ()⟩

def bind (first : Logged ε α) (next : α → Logged ε β) : Logged ε β :=
  match first.result with
  | .error error => ⟨first.events, .error error⟩
  | .ok value => ⟨first.events ++ (next value).events, (next value).result⟩

instance : Monad (Logged ε) where
  pure value := lift (.ok value)
  bind := bind

def mapError (f : ε → ε') (computation : Logged ε α) : Logged ε' α :=
  ⟨computation.events, computation.result.mapError f⟩

@[simp] theorem result_lift (result : Except ε α) : (lift result).result = result := rfl

@[simp] theorem result_log (event : Event) : (log event : Logged ε Unit).result = .ok () := rfl

@[simp] theorem result_pure (value : α) : (pure value : Logged ε α).result = .ok value := rfl

@[simp] theorem events_lift (result : Except ε α) : (lift result).events = [] := rfl

@[simp] theorem events_log (event : Event) : (log event : Logged ε Unit).events = [event] := rfl

@[simp] theorem events_pure (value : α) : (pure value : Logged ε α).events = [] := rfl

/-- Without its events a logged computation is an ordinary one. -/
@[simp] theorem result_bind (first : Logged ε α) (next : α → Logged ε β) :
    (first >>= next).result = first.result >>= fun value ↦ (next value).result := by
  obtain ⟨_, result⟩ := first
  cases result <;> rfl

theorem events_bind_of_ok {first : Logged ε α} {value : α} (h : first.result = .ok value)
    (next : α → Logged ε β) :
    (first >>= next).events = first.events ++ (next value).events := by
  simp [Bind.bind, bind, h]

theorem events_bind_of_error {first : Logged ε α} {error : ε} (h : first.result = .error error)
    (next : α → Logged ε β) : (first >>= next).events = first.events := by
  simp [Bind.bind, bind, h]

end Logged

end Formula
