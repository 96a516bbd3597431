import Formula.Decimal.Shortest
import Formula.Proofs.Binary64

/-!
# Decimals and the doubles nearest to them

The double nearest to a quotient depends on the quotient alone, not on how it is written. Every
magnitude is therefore nearest to its own units, a decimal may move zeros between its digits and its
exponent, and the shortest decimal of a magnitude, which is searched for among those that read back
or else is the exact one, reads back.
-/

namespace Formula

namespace Binary64

theorem unitsPerOne_eq {places : Nat} (hplaces : places = 1074) : unitsPerOne = 2 ^ places := by
  rw [unitsPerOne, ← hplaces, Nat.one_shiftLeft]

theorem unitsPerOne_pos : 0 < unitsPerOne := by
  obtain ⟨places, hplaces⟩ : ∃ places, places = 1074 := ⟨1074, rfl⟩
  rw [unitsPerOne_eq hplaces]
  exact Nat.two_pow_pos places

/-- A common factor does not change the rounded quotient. -/
theorem divNearest_mul_right (num den : Nat) {scale : Nat} (hscale : 0 < scale) :
    divNearest (num * scale) (den * scale) = divNearest num den := by
  have hquotient : num * scale / (den * scale) = num / den := Nat.mul_div_mul_right num den hscale
  have htwice : 2 * (num * scale % (den * scale)) = 2 * (num % den) * scale := by
    rw [Nat.mul_mod_mul_right, Nat.mul_assoc]
  have hlt : den * scale < 2 * (num % den) * scale ↔ den < 2 * (num % den) :=
    Nat.mul_lt_mul_right hscale
  have heq : 2 * (num % den) * scale = den * scale ↔ 2 * (num % den) = den :=
    Nat.mul_left_inj (Nat.ne_of_gt hscale)
  simp only [divNearest, hquotient, htwice, hlt, heq]

/-- A common factor does not change the nearest float. -/
theorem nearestBits_mul_right (num den : Nat) {scale : Nat} (hscale : 0 < scale) :
    nearestBits (num * scale) (den * scale) = nearestBits num den := by
  have hquotient : num * scale / (den * scale) = num / den := Nat.mul_div_mul_right num den hscale
  have hshift (shift : Nat) : (den * scale) <<< shift = den <<< shift * scale := by
    simp only [Nat.shiftLeft_eq, Nat.mul_right_comm]
  simp only [nearestBits, hquotient, hshift, divNearest_mul_right num _ hscale]

/-- Equal quotients have the same nearest double. -/
theorem nearestBits_congr {num den num' den' : Nat} (hden : 0 < den) (hden' : 0 < den')
    (hequal : num * den' = num' * den) : nearestBits num den = nearestBits num' den' := by
  calc nearestBits num den
      = nearestBits (num * den') (den * den') := (nearestBits_mul_right num den hden').symm
    _ = nearestBits (num' * den) (den' * den) := by rw [hequal, Nat.mul_comm den den']
    _ = nearestBits num' den' := nearestBits_mul_right num' den' hden

theorem divNearest_one (num : Nat) : divNearest num 1 = num := by
  simp [divNearest, Nat.mod_one]

theorem divNearest_shiftLeft (num shift : Nat) :
    divNearest (num <<< shift) (1 <<< shift) = num := by
  rw [Nat.shiftLeft_eq, Nat.shiftLeft_eq, divNearest_mul_right num 1 (Nat.two_pow_pos shift),
    divNearest_one]

/-- Less than half a unit is nearest to zero. -/
theorem nearestBits_eq_zero {num den : Nat} (h : 2 * num < den) : nearestBits num den = 0 := by
  have hdiv : num / den = 0 := Nat.div_eq_of_lt (by omega)
  have hmod : num % den = num := Nat.mod_eq_of_lt (by omega)
  have hlog : Nat.log2 0 - 52 = 0 := rfl
  have hrounded : divNearest num (den <<< 0) = 0 := by
    rw [Nat.shiftLeft_zero, divNearest, hdiv, hmod, if_neg (by omega)]
  rw [nearestBits, hdiv, hlog, hrounded]
  rfl

/-- Twice the greatest finite power of two is beyond every finite double. -/
theorem nearestBits_eq_infinityBits {num shift : Nat} (hshift : 1024 ≤ shift)
    (h : unitsPerOne <<< shift ≤ num) : nearestBits num 1 = infinityBits := by
  obtain ⟨places, hplaces⟩ : ∃ places, places = 1074 := ⟨1074, rfl⟩
  rw [unitsPerOne_eq hplaces, Nat.shiftLeft_eq, ← Nat.pow_add] at h
  have hpos : num ≠ 0 := by
    have := Nat.two_pow_pos (places + shift)
    omega
  have hlog : places + shift ≤ num.log2 := (Nat.le_log2 hpos).2 h
  have hsignificand : leadingBit ≤ num / 2 ^ (num.log2 - 52) := by
    rw [Nat.le_div_iff_mul_le (Nat.two_pow_pos _)]
    calc leadingBit * 2 ^ (num.log2 - 52)
        = 2 ^ (52 + (num.log2 - 52)) := (Nat.pow_add 2 52 _).symm
      _ = 2 ^ num.log2 := by rw [Nat.add_sub_cancel' (by omega)]
      _ ≤ num := Nat.log2_self_le hpos
  have hrounded : leadingBit ≤ divNearest num (1 <<< (num.log2 - 52)) := by
    rw [Nat.shiftLeft_eq, Nat.one_mul, divNearest]
    split <;> omega
  rw [nearestBits, Nat.div_one]
  apply Nat.min_eq_right
  calc infinityBits
      = 2046 * leadingBit + leadingBit := rfl
    _ ≤ (num.log2 - 52) * leadingBit + divNearest num (1 <<< (num.log2 - 52)) :=
        Nat.add_le_add (Nat.mul_le_mul_right leadingBit (by omega)) hrounded

/-- A normal or a shiftless significand rounds to the fields that it is made of. -/
theorem nearestBits_shiftLeft {significand shift : Nat} (hpos : significand ≠ 0)
    (hlog : significand.log2 = 52 ∨ significand.log2 < 52 ∧ shift = 0) :
    nearestBits (significand <<< shift) 1 =
      min (shift * leadingBit + significand) infinityBits := by
  have hshift : (significand <<< shift).log2 - 52 = shift := by
    rw [log2_shiftLeft hpos]
    omega
  rw [nearestBits, Nat.div_one, hshift, divNearest_shiftLeft]

/-- Every magnitude, infinity included, is nearest to its own units. -/
theorem nearestBits_unitsOfBits {bits : Nat} (hbits : bits ≤ infinityBits) :
    nearestBits (unitsOfBits bits) 1 = bits := by
  have hfraction : bits % leadingBit < leadingBit := Nat.mod_lt bits (by decide)
  have hfields : bits / leadingBit * leadingBit + bits % leadingBit = bits :=
    Nat.div_add_mod' bits leadingBit
  rw [unitsOfBits]
  split
  · next hexponent =>
    have hsame : bits % leadingBit = bits := by
      rw [hexponent, Nat.zero_mul, Nat.zero_add] at hfields
      exact hfields
    rw [hsame] at hfraction ⊢
    by_cases hzero : bits = 0
    · rw [hzero]
      exact nearestBits_eq_zero (by decide)
    · have hlog : bits.log2 < 52 := (Nat.log2_lt hzero).2 hfraction
      calc nearestBits bits 1
          = nearestBits (bits <<< 0) 1 := by rw [Nat.shiftLeft_zero]
        _ = min (0 * leadingBit + bits) infinityBits :=
            nearestBits_shiftLeft hzero (.inr ⟨hlog, rfl⟩)
        _ = bits := by rw [Nat.zero_mul, Nat.zero_add, Nat.min_eq_left hbits]
  · next hexponent =>
    have hlog := log2_leadingBit_add hfraction
    have hpos : leadingBit + bits % leadingBit ≠ 0 := by
      intro hzero
      rw [hzero] at hlog
      cases hlog
    rw [nearestBits_shiftLeft hpos (.inl hlog), Nat.sub_mul, Nat.one_mul]
    have hleading : leadingBit ≤ bits / leadingBit * leadingBit :=
      Nat.le_mul_of_pos_left leadingBit (Nat.pos_of_ne_zero hexponent)
    have hsum : bits / leadingBit * leadingBit - leadingBit + (leadingBit + bits % leadingBit) =
        bits := by omega
    rw [hsum, Nat.min_eq_left hbits]

end Binary64

namespace Decimal

/-- The number of units in a decimal, as a quotient of whole numbers. -/
def unitQuotient (number : Decimal) : Nat × Nat :=
  match number.exponent with
  | .ofNat power => (number.significand * 10 ^ power * Binary64.unitsPerOne, 1)
  | .negSucc power => (number.significand * Binary64.unitsPerOne, 10 ^ (power + 1))

theorem unitQuotient_snd_pos (number : Decimal) : 0 < number.unitQuotient.2 := by
  unfold unitQuotient
  split
  · exact Nat.one_pos
  · exact Nat.pow_pos (by decide)

def Same (number other : Decimal) : Prop :=
  number.unitQuotient.1 * other.unitQuotient.2 = other.unitQuotient.1 * number.unitQuotient.2

/-- A power of ten exceeds the power of eight. -/
theorem unitsPerOne_shiftLeft_le {significand : Nat} (hpos : significand ≠ 0) (power : Nat) :
    Binary64.unitsPerOne <<< (3 * power) ≤ significand * 10 ^ power * Binary64.unitsPerOne := by
  rw [Nat.shiftLeft_eq, Nat.mul_comm]
  apply Nat.mul_le_mul_right
  calc 2 ^ (3 * power)
      = 8 ^ power := Nat.pow_mul 2 3 power
    _ ≤ 10 ^ power := Nat.pow_le_pow_left (by decide) power
    _ ≤ significand * 10 ^ power := Nat.le_mul_of_pos_left _ (Nat.pos_of_ne_zero hpos)

/-- A number with so many zeros after the point is below half a unit. -/
theorem two_mul_lt_of_tiny {significand power : Nat}
    (htiny : significand.log2 + 1076 ≤ 3 * (power + 1)) :
    2 * (significand * Binary64.unitsPerOne) < 10 ^ (power + 1) := by
  obtain ⟨places, hplaces⟩ : ∃ places, places = 1074 := ⟨1074, rfl⟩
  calc 2 * (significand * Binary64.unitsPerOne)
      < 2 * (2 ^ (significand.log2 + 1) * Binary64.unitsPerOne) := by
        have := Nat.mul_lt_mul_of_pos_right (Nat.lt_log2_self (n := significand))
          Binary64.unitsPerOne_pos
        omega
    _ = 2 ^ (significand.log2 + 1 + places + 1) := by
        rw [Binary64.unitsPerOne_eq hplaces, ← Nat.pow_add, ← Nat.pow_succ']
    _ ≤ 2 ^ (3 * (power + 1)) := Nat.pow_le_pow_right (by decide) (by omega)
    _ = 8 ^ (power + 1) := Nat.pow_mul 2 3 (power + 1)
    _ ≤ 10 ^ (power + 1) := Nat.pow_le_pow_left (by decide) (power + 1)

/-- Neither shortcut changes which double is the nearest. -/
theorem nearestBits_eq (number : Decimal) :
    number.nearestBits = Binary64.nearestBits number.unitQuotient.1 number.unitQuotient.2 := by
  obtain ⟨significand, exponent⟩ := number
  by_cases hzero : significand = 0
  · subst hzero
    have hnothing (den : Nat) (hden : 0 < den) : Binary64.nearestBits 0 den = 0 :=
      Binary64.nearestBits_eq_zero hden
    cases exponent with
    | ofNat power => simp [nearestBits, unitQuotient, hnothing]
    | negSucc power =>
      have hscale : 0 < 10 ^ (power + 1) := Nat.pow_pos (by decide)
      simp [nearestBits, unitQuotient, hnothing _ hscale]
  · cases exponent with
    | ofNat power =>
      simp only [nearestBits, unitQuotient, hzero, if_false]
      split
      · next huge =>
        have hinfinite := unitsPerOne_shiftLeft_le hzero power
        exact (Binary64.nearestBits_eq_infinityBits (by omega) hinfinite).symm
      · rfl
    | negSucc power =>
      simp only [nearestBits, unitQuotient, hzero, if_false]
      split
      · next htiny => exact (Binary64.nearestBits_eq_zero (two_mul_lt_of_tiny htiny)).symm
      · rfl

theorem Same.nearestBits_eq {number other : Decimal} (h : number.Same other) :
    number.nearestBits = other.nearestBits := by
  rw [number.nearestBits_eq, other.nearestBits_eq]
  exact Binary64.nearestBits_congr number.unitQuotient_snd_pos other.unitQuotient_snd_pos h

theorem same_succ (significand : Nat) (exponent : Int) :
    Same ⟨significand * 10, exponent⟩ ⟨significand, exponent + 1⟩ := by
  cases exponent with
  | ofNat power =>
    change significand * 10 * 10 ^ power * Binary64.unitsPerOne * 1 =
      significand * 10 ^ (power + 1) * Binary64.unitsPerOne * 1
    rw [Nat.pow_succ', Nat.mul_assoc significand 10]
  | negSucc power =>
    cases power with
    | zero =>
      change significand * 10 * Binary64.unitsPerOne * 1 =
        significand * 10 ^ 0 * Binary64.unitsPerOne * 10 ^ 1
      simp only [Nat.pow_zero, Nat.pow_one, Nat.mul_one, Nat.mul_right_comm]
    | succ power =>
      change significand * 10 * Binary64.unitsPerOne * 10 ^ (power + 1) =
        significand * Binary64.unitsPerOne * 10 ^ (power + 2)
      rw [Nat.mul_right_comm significand 10, Nat.mul_assoc _ 10, ← Nat.pow_succ']

/-- Dropping zeros at the end keeps the nearest float. -/
theorem nearestBits_normalize (number : Decimal) :
    number.normalize.nearestBits = number.nearestBits := by
  fun_induction normalize number with
  | case1 number hzeros ih =>
    have hsame := same_succ (number.significand / 10) number.exponent
    rw [Nat.div_mul_cancel (Nat.dvd_of_mod_eq_zero hzeros.2)] at hsame
    exact ih.trans hsame.nearestBits_eq.symm
  | case2 => rfl

theorem nearestBits_of_neighbour? {bits : Nat} {exponent : Int} {found : Decimal}
    (h : neighbour? bits exponent = some found) : found.nearestBits = bits := by
  simp only [neighbour?] at h
  split at h
  · next hbelow =>
    rw [← Option.some.inj h]
    exact hbelow.1
  · split at h
    · next habove =>
      rw [← Option.some.inj h]
      exact habove
    · cases h

theorem nearestBits_mul_negSucc (units : Nat) {scale power : Nat}
    (hscale : scale * Binary64.unitsPerOne = 10 ^ (power + 1)) :
    (Decimal.mk (units * scale) (.negSucc power)).nearestBits = Binary64.nearestBits units 1 := by
  have hpos : 0 < 10 ^ (power + 1) := Nat.pow_pos (by decide)
  rw [nearestBits_eq]
  change Binary64.nearestBits (units * scale * Binary64.unitsPerOne) (10 ^ (power + 1)) = _
  rw [Nat.mul_assoc, hscale, ← Binary64.nearestBits_mul_right units 1 hpos, Nat.one_mul]

/-- A unit is `5 ^ 1074 * 10 ^ (-1074)` exactly. -/
theorem nearestBits_fives (units : Nat) {power : Nat} (hpower : power + 1 = 1074) :
    (Decimal.mk (units * Nat.pow 5 1074) (.negSucc power)).nearestBits =
      Binary64.nearestBits units 1 := by
  apply nearestBits_mul_negSucc
  rw [Binary64.unitsPerOne_eq hpower, ← hpower]
  exact (Nat.mul_pow 5 2 (power + 1)).symm

/-- The decimal of a number of units is read as that number of units. -/
theorem nearestBits_ofUnits (units : Nat) :
    (ofUnits units).nearestBits = Binary64.nearestBits units 1 :=
  nearestBits_fives units rfl

/-- The shortest decimal of a finite magnitude reads back as it. -/
theorem nearestBits_shortest {bits : Nat} (hbits : bits < Binary64.infinityBits) :
    (shortest bits).nearestBits = bits := by
  unfold shortest
  split
  · next hzero =>
    rw [hzero]
    rfl
  · simp only [nearestBits_normalize]
    cases hfound : (List.range 17).findSome? fun (more : Nat) ↦
        neighbour? bits (pointOfUnits (Binary64.unitsOfBits bits) - (more + 1)) with
    | none =>
      rw [Option.getD_none, nearestBits_ofUnits]
      exact Binary64.nearestBits_unitsOfBits (Nat.le_of_lt hbits)
    | some found =>
      obtain ⟨more, -, hmore⟩ := List.exists_of_findSome?_eq_some hfound
      exact nearestBits_of_neighbour? hmore

end Decimal

end Formula
