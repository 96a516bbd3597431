import Formula.Expr.Dump
import Formula.Token

/-!
# Shapes

A shape is a construct put together freely, with any operand in any slot. It becomes an expression
unless a number does not hold a literal or an identifier does not hold a name; taking an expression
apart gives a shape that always becomes the same expression again.
-/

namespace Formula

/-- Why an expression cannot be built. -/
inductive BuildError where
  | unknownFunction (keyword : String) (position : Nat)
  | unknownOperator (found : Lexeme)
  | invalidNumber (text : String) (position : Nat)
  | malformedNumber (held : Operand)
  | malformedIdentifier (held : Operand)

namespace BuildError

def message : BuildError → String
  | unknownFunction keyword position =>
    s!"Error at position {position}: Unknown function '{keyword}'."
  | unknownOperator found =>
    s!"Error at position {found.position}: Invalid operator: {found.token.text}."
  | invalidNumber text position =>
    s!"Error at position {position}: Invalid number literal '{text}'."
  | malformedNumber held => s!"Malformed node: number node holds {held.dump}."
  | malformedIdentifier held => s!"Malformed node: identifier node holds {held.dump}."

end BuildError

/-- A construct whose slots hold any operand at all. -/
inductive Shape where
  | number (operand : Operand)
  | identifier (operand : Operand)
  | call (function : Function) (argument : Operand)
  | factorial (argument : Operand)
  | root (radicand index : Operand)
  | fraction (numerator denominator : Operand)
  | binary (left : Operand) (operator : Operator) (right : Operand)

namespace Expr

/-- The expression with this shape. -/
def ofShape? : Shape → Except BuildError Expr
  | .number (.literal value) => .ok (number value)
  | .number held => .error (.malformedNumber held)
  | .identifier (.reference name) => .ok (identifier name)
  | .identifier held => .error (.malformedIdentifier held)
  | .call function argument => .ok (call function argument)
  | .factorial argument => .ok (factorial argument)
  | .root radicand index => .ok (root radicand index)
  | .fraction numerator denominator => .ok (fraction numerator denominator)
  | .binary left operator right => .ok (binary left operator right)

def shape : Expr → Shape
  | number value => .number (.literal value)
  | identifier name => .identifier (.reference name)
  | call function argument => .call function argument
  | factorial argument => .factorial argument
  | root radicand index => .root radicand index
  | fraction numerator denominator => .fraction numerator denominator
  | binary left operator right => .binary left operator right

@[simp] theorem ofShape?_shape (expr : Expr) : ofShape? expr.shape = .ok expr := by
  cases expr <;> rfl

end Expr

end Formula
