import Formula.Session.Dialogue

/-!
# Rounds

A dialogue that is held again and again until it gives a result. It ends because whenever it gives
none it has read something, and what is left to read gets shorter.
-/

namespace Formula

/-- A dialogue that is held until it gives a result; whenever it gives none, it has read. -/
structure Round (ε α : Type) where
  step : Dialogue ε (Option α)
  unread_lt {console after : Console} :
    step console = (.ok none, after) → after.unread.length < console.unread.length

namespace Round

variable {ε α : Type}

/-- Holds the dialogue again until it gives a result or fails. -/
def run (round : Round ε α) : Dialogue ε α := fun console ↦
  match h : round.step console with
  | (.error error, after) => (.error error, after)
  | (.ok (some result), after) => (.ok result, after)
  | (.ok none, after) =>
    have : after.unread.length < console.unread.length := round.unread_lt h
    round.run after
termination_by console => console.unread.length

theorem consumes_run (round : Round ε α) (hstep : round.step.Consumes) : round.run.Consumes := by
  intro console
  have h := hstep console
  fun_induction run round console with
  | case1 console error after heq => simpa [heq] using h
  | case2 console result after heq => simpa [heq] using h
  | case3 console after heq _ ih => exact (ih (hstep after)).trans (by simpa [heq] using h)

end Round

end Formula
