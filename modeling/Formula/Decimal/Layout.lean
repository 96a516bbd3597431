import Formula.Decimal.Shortest

/-!
# Writing numbers

Two ways to write a decimal: positionally, with as many zeros as it takes, and scientifically,
with one digit before the point and a power of ten. Which one is used, and what stands for zero's
sign, is up to the text that the number appears in.
-/

namespace Formula.Decimal

def digits (number : Decimal) : List Char :=
  Nat.toDigits 10 number.significand

/-- The power of ten just above the number, if it is not zero. -/
def point (number : Decimal) : Int :=
  number.digits.length + number.exponent

/-- The digits around the point: those of the whole part and those of the fraction. -/
def positionalParts (number : Decimal) : List Char × List Char :=
  match number.exponent with
  | .ofNat power => (number.digits ++ List.replicate power '0', [])
  | .negSucc power =>
    let places := power + 1
    let padded := List.replicate (places + 1 - number.digits.length) '0' ++ number.digits
    padded.splitAt (padded.length - places)

/-- The number without a power of ten, and without a point if it is whole. -/
def positional (number : Decimal) : String :=
  match number.positionalParts with
  | (whole, []) => String.ofList whole
  | (whole, fraction) => String.ofList (whole ++ '.' :: fraction)

/-- How the magnitude of a double is shown: positionally, with the shortest digits. -/
def showMagnitude (x : Float) : String :=
  if x.isNaN then "NaN"
  else if Binary64.magnitudeBits x = Binary64.infinityBits then "inf"
  else (shortest (Binary64.magnitudeBits x)).positional

/-- How a double is shown; the sign of zero is kept. -/
def showFloat (x : Float) : String :=
  if Binary64.isNegative x then "-" ++ showMagnitude x else showMagnitude x

/-- The number with one digit before the point and a power of ten. -/
def scientific (number : Decimal) : String :=
  let mantissa := match number.digits with
    | first :: second :: rest => String.ofList (first :: '.' :: second :: rest)
    | short => String.ofList short
  mantissa ++ "e" ++ toString (number.point - 1)

end Formula.Decimal
