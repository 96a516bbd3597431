/-!
# Doubles as whole numbers of the smallest unit

Every finite double is a sign and a whole number of `2 ^ -1074`, the least positive double. This
module reads that number off the bits and rounds any quotient of two such numbers back to bits,
to nearest with a half going to the even neighbour. Reading and printing decimals, the remainder
and the hypotenuse are all stated through it.
-/

namespace Formula.Binary64

/-- The bit in front of the 52 bits of the fraction: one step of the exponent, and the leading bit
that a normal magnitude leaves out. -/
def leadingBit : Nat := 0x10000000000000

/-- The bit in front of the exponent. -/
def signBit : Nat := 0x8000000000000000

/-- The sign-free bits of infinity; smaller bits are those of the finite magnitudes, in order. -/
def infinityBits : Nat := 0x7ff0000000000000

/-- How many units make 1. -/
def unitsPerOne : Nat := 1 <<< 1074

/-- The number of units in the magnitude with these sign-free bits. -/
def unitsOfBits (bits : Nat) : Nat :=
  let exponent := bits / leadingBit
  let fraction := bits % leadingBit
  if exponent = 0 then fraction else (leadingBit + fraction) <<< (exponent - 1)

/-- The whole number nearest to `num / den`, a half going to the even neighbour. -/
def divNearest (num den : Nat) : Nat :=
  let quotient := num / den
  let twice := 2 * (num % den)
  if den < twice ∨ twice = den ∧ quotient % 2 = 1 then quotient + 1 else quotient

/-- The sign-free bits of the double nearest to `num / den` units.

A significand that rounds up to the next power of two carries into the exponent by itself, since
the two fields are adjacent. -/
def nearestBits (num den : Nat) : Nat :=
  let shift := (num / den).log2 - 52
  min (shift * leadingBit + divNearest num (den <<< shift)) infinityBits

def isNegative (x : Float) : Bool :=
  signBit ≤ x.toBits.toNat

def magnitudeBits (x : Float) : Nat :=
  x.toBits.toNat % signBit

/-- The number of units in the magnitude of a finite double. -/
def units (x : Float) : Nat :=
  unitsOfBits (magnitudeBits x)

/-- The double with this sign and these sign-free bits. -/
def ofSignBits (negative : Bool) (bits : Nat) : Float :=
  Float.ofBits (UInt64.ofNat (if negative then signBit + bits else bits))

/-- The double nearest to the quotient `num / den` of two whole numbers. -/
def ofQuotient (negative : Bool) (num den : Nat) : Float :=
  ofSignBits negative (nearestBits (num * unitsPerOne) den)

def infinity (negative : Bool) : Float :=
  ofSignBits negative infinityBits

def nan : Float :=
  Float.ofBits 0x7ff8000000000000

end Formula.Binary64
