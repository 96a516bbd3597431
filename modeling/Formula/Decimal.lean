import Formula.Binary64

/-!
# Decimal numbers

A number written in digits is a whole number times a power of ten. The double nearest to it is
found exactly: the digits are never cut off, however many there are.
-/

namespace Formula

/-- The number `significand * 10 ^ exponent`. -/
structure Decimal where
  significand : Nat
  exponent : Int
deriving DecidableEq, Repr

namespace Decimal

/-- The sign-free bits of the double nearest to the number.

The first two cases keep the powers of ten small: `10 ^ 400` exceeds every finite double, and a
number below half a unit rounds to zero. -/
def nearestBits (number : Decimal) : Nat :=
  if number.significand = 0 then 0
  else match number.exponent with
    | .ofNat power =>
      if 400 ≤ power then Binary64.infinityBits
      else Binary64.nearestBits (number.significand * Nat.pow 10 power * Binary64.unitsPerOne) 1
    | .negSucc power =>
      if number.significand.log2 + 1076 ≤ 3 * (power + 1) then 0
      else Binary64.nearestBits (number.significand * Binary64.unitsPerOne)
        (Nat.pow 10 (power + 1))

/-- The double nearest to the number, with this sign. -/
def toFloat (negative : Bool) (number : Decimal) : Float :=
  Binary64.ofSignBits negative number.nearestBits

/-- Moves the zeros at the end of the significand into the exponent. -/
def normalize (number : Decimal) : Decimal :=
  if 0 < number.significand ∧ number.significand % 10 = 0 then
    normalize ⟨number.significand / 10, number.exponent + 1⟩
  else number
termination_by number.significand
decreasing_by omega

end Decimal

end Formula
