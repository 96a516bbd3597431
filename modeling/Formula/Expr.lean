import Formula.Function
import Formula.Operator

/-!
# Expression trees

An expression is one construct with its meaning resolved: functions and operators are tags,
numbers are doubles. An operand is what stands in an argument slot: a bare literal, a bare
reference to a variable, or another expression. A number holds a double and an identifier a name
by their types, so no expression is malformed.
-/

namespace Formula

mutual

/-- What stands in one argument slot of an expression. -/
inductive Operand where
  | literal (value : Float)
  | reference (name : String)
  | subexpression (expr : Expr)

/-- One construct of an expression. -/
inductive Expr where
  | number (value : Float)
  | identifier (name : String)
  | call (function : Function) (argument : Operand)
  | factorial (argument : Operand)
  | root (radicand index : Operand)
  | fraction (numerator denominator : Operand)
  | binary (left : Operand) (operator : Operator) (right : Operand)

end

instance : Inhabited Operand := ⟨.literal 0⟩

instance : Inhabited Expr := ⟨.number 0⟩

namespace Expr

/-- The degree of a root that is written without one. -/
def defaultIndex : Float := 2

/-- The root of a radicand, of the default degree if none is given. -/
def nthRoot (radicand : Operand) (index : Option Operand) : Expr :=
  .root radicand (index.getD (.literal defaultIndex))

/-- A short name of the construct. -/
def kindName : Expr → String
  | number _ => "number"
  | identifier _ => "identifier"
  | call _ _ => "function call"
  | factorial _ => "factorial"
  | root _ _ => "root"
  | fraction _ _ => "fraction"
  | binary _ _ _ => "binary operation"

end Expr

/-! ## Equality

Two trees are equal if they have the same shape and their numbers compare equal as doubles: a zero
equals the negative zero, and no number that is not a number equals anything. -/

mutual

def Operand.beq : Operand → Operand → Bool
  | .literal x, .literal y => x == y
  | .reference x, .reference y => x == y
  | .subexpression x, .subexpression y => Expr.beq x y
  | _, _ => false

def Expr.beq : Expr → Expr → Bool
  | .number x, .number y => x == y
  | .identifier x, .identifier y => x == y
  | .call f x, .call g y => f == g && Operand.beq x y
  | .factorial x, .factorial y => Operand.beq x y
  | .root x i, .root y j => Operand.beq x y && Operand.beq i j
  | .fraction n d, .fraction m c => Operand.beq n m && Operand.beq d c
  | .binary l f r, .binary k g q => Operand.beq l k && f == g && Operand.beq r q
  | _, _ => false

end

instance : BEq Operand := ⟨Operand.beq⟩

instance : BEq Expr := ⟨Expr.beq⟩

end Formula
