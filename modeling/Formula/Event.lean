import Formula.Expr

/-!
# Events

What is worth noting on the way from a text to its value, how much each of it matters and what is
said about it.
-/

namespace Formula

inductive Event where
  | tokenized (count : Nat)
  | built (expr : Expr)
  | evaluated (kind : String) (value : Float)
  | doubtfulFunction (function : Function)
  | sessionStarted
  | sessionEnded
  | inputClosed (name : String)

/-- How much an event matters. -/
inductive Level where
  | trace
  | debug
  | info
  | warn
deriving DecidableEq, Repr

namespace Event

def level : Event → Level
  | tokenized _ => .trace
  | built _ => .debug
  | evaluated _ _ => .trace
  | doubtfulFunction _ => .warn
  | sessionStarted => .info
  | sessionEnded => .info
  | inputClosed _ => .debug

def message : Event → String
  | tokenized _ => "tokenized expression"
  | built _ => "built expression tree"
  | evaluated _ _ => "evaluated"
  | doubtfulFunction function => s!"{function.keyword} implementation is invalid"
  | sessionStarted => "starting interactive session"
  | sessionEnded => "interactive session ended"
  | inputClosed _ => "input closed while prompting"

end Event

end Formula
