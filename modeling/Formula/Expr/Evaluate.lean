import Formula.Arithmetic
import Formula.Context
import Formula.Logged

/-!
# The value of an expression

Operands are evaluated from left to right, a radicand before its index, and the first variable
without a value ends the evaluation. Every expression that has a value is noted, after its
operands.
-/

namespace Formula

/-- What a name stands for: a constant, or else the value that the context has for it. -/
def Context.resolve (context : Context) (name : String) : Except EvaluationError Float :=
  match (constant? name).or (context.get? name) with
  | some value => .ok value
  | none => .error (.unboundVariable name)

/-- The value of a function, noting that the meaning of `hyp` is in doubt. -/
def Function.call (unit : AngleUnit) (function : Function) (x : Float) :
    Logged EvaluationError Float := do
  if function = .hyp then
    Logged.log (.doubtfulFunction function)
  return function.apply unit x

/-- Notes the value of an expression. -/
def Expr.noted (expr : Expr) (value : Float) : Logged EvaluationError Float := do
  Logged.log (.evaluated expr.kindName value)
  return value

mutual

def Operand.evaluate (context : Context) : Operand → Logged EvaluationError Float
  | .literal value => return value
  | .reference name => Logged.lift (context.resolve name)
  | .subexpression expr => expr.evaluate context

def Expr.evaluate (context : Context) : Expr → Logged EvaluationError Float
  | .number value => (Expr.number value).noted value
  | .identifier name => do
    let value ← Logged.lift (context.resolve name)
    (Expr.identifier name).noted value
  | .call function argument => do
    let x ← argument.evaluate context
    let value ← function.call context.angleUnit x
    (Expr.call function argument).noted value
  | .factorial argument => do
    let x ← argument.evaluate context
    (Expr.factorial argument).noted (Binary64.factorial x)
  | .root radicand index => do
    let x ← radicand.evaluate context
    let degree ← index.evaluate context
    (Expr.root radicand index).noted (nthRoot x degree)
  | .fraction numerator denominator => do
    let x ← numerator.evaluate context
    let y ← denominator.evaluate context
    (Expr.fraction numerator denominator).noted (Operator.divide.apply x y)
  | .binary left operator right => do
    let x ← left.evaluate context
    let y ← right.evaluate context
    (Expr.binary left operator right).noted (operator.apply x y)

end

def Operand.value (context : Context) (operand : Operand) : Except EvaluationError Float :=
  (operand.evaluate context).result

def Expr.value (context : Context) (expr : Expr) : Except EvaluationError Float :=
  (expr.evaluate context).result

@[simp] theorem Function.result_call (unit : AngleUnit) (function : Function) (x : Float) :
    (function.call unit x).result = .ok (function.apply unit x) := by
  unfold Function.call
  split <;> rfl

@[simp] theorem Expr.result_noted (expr : Expr) (value : Float) :
    (expr.noted value).result = .ok value := rfl

section

variable (context : Context)

@[simp] theorem Operand.value_literal (x : Float) : (literal x).value context = .ok x := rfl

@[simp] theorem Operand.value_reference (name : String) :
    (reference name).value context = context.resolve name := rfl

@[simp] theorem Operand.value_subexpression (expr : Expr) :
    (subexpression expr).value context = expr.value context := rfl

namespace Expr

@[simp] theorem value_number (x : Float) : (number x).value context = .ok x := rfl

@[simp] theorem value_identifier (name : String) :
    (identifier name).value context = context.resolve name := by
  simp only [value, evaluate, Logged.result_bind, Logged.result_lift, result_noted]
  cases context.resolve name <;> rfl

@[simp] theorem value_call (function : Function) (argument : Operand) :
    (call function argument).value context =
      function.apply context.angleUnit <$> argument.value context := by
  simp only [value, evaluate, Logged.result_bind, Function.result_call, result_noted, Operand.value]
  cases (argument.evaluate context).result <;> rfl

@[simp] theorem value_factorial (argument : Operand) :
    (factorial argument).value context = Binary64.factorial <$> argument.value context := by
  simp only [value, evaluate, Logged.result_bind, result_noted, Operand.value]
  cases (argument.evaluate context).result <;> rfl

@[simp] theorem value_root (radicand index : Operand) :
    (root radicand index).value context =
      do return Formula.nthRoot (← radicand.value context) (← index.value context) := by
  simp only [value, evaluate, Logged.result_bind, result_noted, Operand.value]
  rfl

@[simp] theorem value_fraction (numerator denominator : Operand) :
    (fraction numerator denominator).value context =
      do return (← numerator.value context) / (← denominator.value context) := by
  simp only [value, evaluate, Logged.result_bind, result_noted, Operand.value, Operator.apply]
  rfl

@[simp] theorem value_binary (left right : Operand) (operator : Operator) :
    (binary left operator right).value context =
      do return operator.apply (← left.value context) (← right.value context) := by
  simp only [value, evaluate, Logged.result_bind, result_noted, Operand.value]
  rfl

end Expr

end

end Formula
