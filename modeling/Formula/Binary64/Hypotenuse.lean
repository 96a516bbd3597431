import Formula.Binary64

/-!
# The hypotenuse over a unit leg

The length of `(x, 1)`, rounded once. The exact sum of the squares is a whole number, so its
integer square root and whether anything is left over decide the rounding.
-/

namespace Formula.Binary64

/-- The largest number whose square is at most `n`, two binary digits at a time. -/
def sqrtFloor (n : Nat) : Nat :=
  if n = 0 then 0
  else
    let root := 2 * sqrtFloor (n / 4)
    if (root + 1) * (root + 1) ≤ n then root + 1 else root
termination_by n
decreasing_by omega

/-- The length of the vector `(x, 1)`.

The root exceeds `2 ^ 1074` units, so half a unit stands for any remainder below one unit: it lies
on the same side of every rounding boundary. -/
def hypotenuse (x : Float) : Float :=
  if x.isNaN then nan
  else if magnitudeBits x = infinityBits then infinity false
  else
    let square := units x * units x + unitsPerOne * unitsPerOne
    let root := sqrtFloor square
    let halves := if root * root = square then 2 * root else 2 * root + 1
    ofSignBits false (nearestBits halves 2)

end Formula.Binary64
