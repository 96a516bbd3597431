import Formula.AngleUnit
import Formula.Function
import Formula.Operator
import Formula.Binary64.Whole
import Formula.Binary64.Hypotenuse

/-!
# The values of functions and operators

Doubles have a value everywhere: a division by zero is infinite and a logarithm of a negative
number is not a number, so nothing here fails.
-/

namespace Formula

/-- `(1 + x) * cos (sin x ^ 3) - 1.4`, the established meaning of `sec`, which is not the
reciprocal of the cosine. -/
def secant (x : Float) : Float :=
  (1 + x) * Float.cos (Float.pow (Float.sin x) 3) - 1.4

/-- The root of degree `index`, as a power. -/
def nthRoot (radicand index : Float) : Float :=
  Float.pow radicand (1 / index)

/-- The value of a function. The unit concerns only the functions that read or return an angle. -/
def Function.apply (unit : AngleUnit) (function : Function) (x : Float) : Float :=
  match function with
  | .sin => Float.sin (unit.toRadians x)
  | .cos => Float.cos (unit.toRadians x)
  | .tan => Float.tan (unit.toRadians x)
  | .log => Float.log x
  | .sec => secant x
  | .csc => 1 / Float.sin (unit.toRadians x)
  | .cot => Float.cos (unit.toRadians x) / Float.sin (unit.toRadians x)
  | .hyp => Binary64.hypotenuse x
  | .arcsin => unit.ofRadians (Float.asin x)
  | .arccos => unit.ofRadians (Float.acos x)
  | .arctan => unit.ofRadians (Float.atan x)

def Operator.apply (operator : Operator) (x y : Float) : Float :=
  match operator with
  | .add => x + y
  | .subtract => x - y
  | .multiply => x * y
  | .divide => x / y
  | .modulus => Binary64.remainder x y
  | .power => Float.pow x y

end Formula
