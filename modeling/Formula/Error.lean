import Formula.Expr.Shape
import Formula.ParseTree.Rule

/-!
# Errors

Everything that can keep a text from having a value: it is no expression, it names something
unknown, or a variable has no value.
-/

namespace Formula

/-- Why an expression has no value. -/
inductive EvaluationError where
  | unboundVariable (name : String)
  | valueCountMismatch (expected found : Nat)
deriving DecidableEq, Repr

def EvaluationError.message : EvaluationError → String
  | unboundVariable name => s!"Unknown variable '{name}'."
  | valueCountMismatch expected found => s!"Expected {expected} values but {found} were supplied."

/-- Why a text has no value. -/
inductive Error where
  | parse (error : ParseError)
  | build (error : BuildError)
  | evaluation (error : EvaluationError)

def Error.message : Error → String
  | parse error => error.message
  | build error => error.message
  | evaluation error => error.message

end Formula
