import Formula.Decimal

/-!
# Shortest digits

The decimal with the fewest digits that reads back as a given magnitude, and of those the nearest.
Seventeen digits always suffice; the exact decimal value stands behind them, so that the result
reads back by construction.
-/

namespace Formula.Decimal

/-- A magnitude as an exact decimal: a unit is `5 ^ 1074 * 10 ^ (-1074)`. -/
def ofUnits (units : Nat) : Decimal :=
  ⟨units * Nat.pow 5 1074, -1074⟩

/-- The power of ten just above a magnitude of at least one unit.

It is counted off the whole part of the magnitude, scaled so that there is one: every unit exceeds
`10 ^ (-324)`, and for most numbers a smaller scale will do. -/
def pointOfUnits (units : Nat) : Int :=
  let scales : List Nat := [0, 20]
  let scale := (scales.find? fun scale ↦ Binary64.unitsPerOne ≤ units * Nat.pow 10 scale).getD 324
  (Nat.toDigits 10 (units * Nat.pow 10 scale / Binary64.unitsPerOne)).length - scale

/-- A magnitude counted in steps of `10 ^ exponent`, as a quotient of whole numbers. -/
def gridQuotient (units : Nat) : Int → Nat × Nat
  | .ofNat power => (units, Binary64.unitsPerOne * Nat.pow 10 power)
  | .negSucc power => (units * Nat.pow 10 (power + 1), Binary64.unitsPerOne)

/-- The neighbour of a magnitude on the grid of `10 ^ exponent` that reads back as `bits`: the
nearer one if both do, and the upper one if both are equally near. -/
def neighbour? (bits : Nat) (exponent : Int) : Option Decimal :=
  let (num, den) := gridQuotient (Binary64.unitsOfBits bits) exponent
  let below : Decimal := ⟨num / den, exponent⟩
  let above : Decimal := ⟨num / den + 1, exponent⟩
  if below.nearestBits = bits ∧ (2 * (num % den) < den ∨ above.nearestBits ≠ bits) then some below
  else if above.nearestBits = bits then some above
  else none

/-- The shortest decimal that reads back as the finite magnitude with these sign-free bits. -/
def shortest (bits : Nat) : Decimal :=
  if bits = 0 then ⟨0, 0⟩
  else
    let units := Binary64.unitsOfBits bits
    let point := pointOfUnits units
    let found := (List.range 17).findSome? fun (more : Nat) ↦
      neighbour? bits (point - (more + 1))
    (found.getD (ofUnits units)).normalize

end Formula.Decimal
