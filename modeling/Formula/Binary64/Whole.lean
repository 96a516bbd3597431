import Formula.Binary64

/-!
# Whole numbers in doubles

Truncation to the signed 64-bit range, the remainder of two truncated doubles and the factorial.
Truncation saturates at both ends of the range, so the remainder and the factorial are defined for
every double.
-/

namespace Formula.Binary64

/-- The least and the greatest whole number that truncation can give. -/
def leastWhole : Int := -0x8000000000000000

def greatestWhole : Int := 0x7fffffffffffffff

/-- The double without its fraction; beyond the range its nearest end, and 0 for NaN. -/
def truncate (x : Float) : Int :=
  if x.isNaN then 0
  else
    let magnitude : Int := (units x / unitsPerOne : Nat)
    max leastWhole (min greatestWhole (if isNegative x then -magnitude else magnitude))

/-- The double nearest to a whole number. -/
def ofWhole (n : Int) : Float :=
  ofQuotient (n < 0) n.natAbs 1

/-- The remainder of the truncated operands, with the sign of the dividend. -/
def remainder (dividend divisor : Float) : Float :=
  if truncate divisor = 0 then nan
  else ofWhole ((truncate dividend).tmod (truncate divisor))

/-- Multiplies `product` by `factor`, `factor - 1`, down to 2, until it is no longer finite. -/
def descendingProduct (product : Float) : Nat → Float
  | 0 => product
  | 1 => product
  | factor + 2 =>
    if product.isFinite then descendingProduct (product * ofWhole (factor + 2)) (factor + 1)
    else product

/-- The factorial of the truncated argument; below 1 it is the empty product. -/
def factorial (x : Float) : Float :=
  descendingProduct 1 (truncate x).toNat

end Formula.Binary64
