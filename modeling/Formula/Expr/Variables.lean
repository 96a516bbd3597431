import Formula.Expr

/-!
# The variables of an expression

The names that an expression refers to, in the order in which evaluation looks them up: the first
operand before the second, and a radicand before its index. Names of constants are among them.
-/

namespace Formula

mutual

/-- The names referred to, one for each occurrence. -/
def Operand.variables : Operand → List String
  | .literal _ => []
  | .reference name => [name]
  | .subexpression expr => expr.variables

/-- The names referred to, one for each occurrence. -/
def Expr.variables : Expr → List String
  | .number _ => []
  | .identifier name => [name]
  | .call _ argument => argument.variables
  | .factorial argument => argument.variables
  | .root radicand index => radicand.variables ++ index.variables
  | .fraction numerator denominator => numerator.variables ++ denominator.variables
  | .binary left _ right => left.variables ++ right.variables

end

/-- The names referred to, each once, in the order of their first occurrences. -/
def Expr.uniqueVariables (expr : Expr) : List String :=
  expr.variables.eraseDups

end Formula
