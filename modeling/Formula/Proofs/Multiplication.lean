import Formula.Proofs.ExactValue

/-!
# Products of doubles

A product of two finite doubles is the double nearest to the exact product. Multiplying shifts the
product of the significands to the place where it is rounded and keeps two bits of what is cut off;
these decide between the neighbours as comparing the whole rest with one half does.
-/

namespace Formula.Binary64

open Float.Model Float.Model.UnpackedFloat

/-- A significand that stands for the quotient `num / den`: the two bits behind it tell whether the
rest is at least one half, and whether it is anything but nothing or one half. -/
structure Stands (extended : ExtendedMantissa) (num den : Nat) : Prop where
  mantissa_eq : extended.mantissa = num / den
  roundBit_iff : extended.roundBit = true ↔ den ≤ 2 * (num % den)
  stickyBit_iff : extended.stickyBit = true ↔ 2 * (num % den) ≠ 0 ∧ 2 * (num % den) ≠ den

theorem stands_exact (significand : Nat) : Stands ⟨significand, false, false⟩ significand 1 where
  mantissa_eq := (Nat.div_one _).symm
  roundBit_iff := by simp [Nat.mod_one]
  stickyBit_iff := by simp [Nat.mod_one]

theorem Stands.shiftRightOne {extended : ExtendedMantissa} {num den : Nat}
    (h : Stands extended num den) (hden : 0 < den) :
    Stands extended.shiftRightOne num (den * 2) := by
  have hquotient : num / (den * 2) = num / den / 2 := (Nat.div_div_eq_div_mul _ _ _).symm
  have hrest : num % (den * 2) = num % den + den * (num / den % 2) := Nat.mod_mul
  have hlt : num % den < den := Nat.mod_lt num hden
  rcases Nat.mod_two_eq_zero_or_one (num / den) with hbit | hbit
  all_goals
    rw [hbit] at hrest
    constructor
    · simp [ExtendedMantissa.shiftRightOne, h.mantissa_eq, hquotient]
    · simp only [ExtendedMantissa.shiftRightOne, h.mantissa_eq, hbit, hrest]
      simp
      omega
    · simp only [ExtendedMantissa.shiftRightOne, Bool.or_eq_true, h.roundBit_iff, h.stickyBit_iff,
        hrest]
      omega

/-- Each place shifted out doubles the denominator, and the two bits account for what was lost. -/
theorem Stands.shiftRight {extended : ExtendedMantissa} {num den : Nat}
    (h : Stands extended num den) (hden : 0 < den) (count : Nat) :
    Stands (extended >>> count) num (den * 2 ^ count) := by
  change Stands (Nat.repeat ExtendedMantissa.shiftRightOne count extended) _ _
  induction count with
  | zero =>
    rw [Nat.pow_zero, Nat.mul_one]
    exact h
  | succ count ih =>
    rw [Nat.pow_succ, ← Nat.mul_assoc]
    exact ih.shiftRightOne (Nat.mul_pos hden (Nat.two_pow_pos count))

/-- The two bits are enough to round to the nearest significand. -/
theorem Stands.roundedMantissa_eq {extended : ExtendedMantissa} {num den : Nat}
    (h : Stands extended num den) : extended.roundedMantissa = divNearest num den := by
  obtain ⟨mantissa, roundBit, stickyBit⟩ := extended
  obtain ⟨hmantissa, hround, hsticky⟩ := h
  dsimp only at hmantissa hround hsticky
  subst hmantissa
  cases roundBit <;> cases stickyBit <;>
    simp only [ExtendedMantissa.roundedMantissa, ExtendedMantissa.accuracy,
      Accuracy.roundToNearestEven, divNearest, Bool.false_eq_true, false_iff, true_iff] at * <;>
    split <;> omega

/-- Dividing by a power of two lowers the logarithm by its exponent. -/
theorem log2_div_two_pow (n count : Nat) : (n / 2 ^ count).log2 = n.log2 - count := by
  rcases Nat.lt_or_ge n (2 ^ count) with hlt | hge
  · have hlog : n.log2 ≤ count := by
      rcases Nat.eq_zero_or_pos n with rfl | hpos
      · exact Nat.zero_le _
      · exact Nat.le_of_lt ((Nat.log2_lt (Nat.ne_of_gt hpos)).2 hlt)
    rw [Nat.div_eq_of_lt hlt, Nat.sub_eq_zero_of_le hlog]
    rfl
  · have hpos : n ≠ 0 := Nat.ne_of_gt (Nat.lt_of_lt_of_le (Nat.two_pow_pos count) hge)
    have hquotient : n / 2 ^ count ≠ 0 := Nat.ne_of_gt (Nat.div_pos hge (Nat.two_pow_pos count))
    have hcount : count ≤ n.log2 := (Nat.le_log2 hpos).2 hge
    rw [Nat.log2_eq_iff hquotient]
    constructor
    · rw [Nat.le_div_iff_mul_le (Nat.two_pow_pos count), ← Nat.pow_add, Nat.sub_add_cancel hcount]
      exact Nat.log2_self_le hpos
    · rw [Nat.div_lt_iff_lt_mul (Nat.two_pow_pos count), ← Nat.pow_add]
      have hexponent : n.log2 - count + 1 + count = n.log2 + 1 := by omega
      rw [hexponent]
      exact Nat.lt_log2_self

/-- Shifting a significand to the place where it is rounded, in three steps of the exponent: up to
the step of the units, up to the excess, and on where the significand carries. -/
theorem shiftToTargetExponent_eq (significand : Nat) (exponent : Int) :
    let count := (max ((significand.log2 : Int) - 52) (-1074 - exponent)).toNat
    shiftToTargetExponent .binary64 significand exponent .exact =
      (ExtendedMantissa.mk significand false false >>> count, exponent + count) := by
  have hmin : Format.binary64.minExponent = -1074 := rfl
  have htarget : Format.binary64.targetExponent (totalExponent significand exponent) - exponent =
      max ((significand.log2 : Int) - 52) (-1074 - exponent) := by
    simp only [Format.targetExponent, totalExponent, mantissaBits_eq, hmin]
    omega
  simp only [shiftToTargetExponent, shiftToExponent, htarget]
  rfl

theorem toNat_packedInfinity (sign : Sign) :
    (packedInfinity .binary64 sign).toNat = sign.toBitVec.toNat * signBit + infinityBits := by
  cases sign <;> rfl

theorem toNat_pack_infinity (sign : Sign) :
    (UnpackedFloat.pack .binary64 (.infinity sign)).toNat =
      sign.toBitVec.toNat * signBit + infinityBits :=
  toNat_packedInfinity sign

/-- A significand and its shift are packed into adjacent fields, or else into infinity. -/
theorem toNat_pack_finite (sign : Sign) {significand shift : Nat} (hpos : 0 < significand)
    (hlt : significand < 2 * leadingBit) (hleading : shift = 0 ∨ leadingBit ≤ significand) :
    (UnpackedFloat.pack .binary64 (.finite sign significand (shift - 1074) hpos)).toNat =
      sign.toBitVec.toNat * signBit + min (shift * leadingBit + significand) infinityBits := by
  have hbiased : ((shift : Int) - 1074 + (1023 : Nat) + (52 : Nat)).toNat = shift + 1 := by omega
  rw [pack_finite sign hpos hbiased]
  rcases Nat.lt_or_ge shift 2046 with hfinite | hinfinite
  · have hexponent : (BitVec.ofNat 11 (shift + 1)).toNat = shift + 1 :=
      Nat.mod_eq_of_lt (by omega)
    rw [if_neg (by omega)]
    split
    · next hlog =>
      have hge : leadingBit ≤ significand :=
        (Nat.le_log2 (Nat.ne_of_gt hpos)).1 (Nat.le_of_eq (Nat.succ.inj hlog).symm)
      have hfraction : (BitVec.ofNat 52 significand).toNat = significand - leadingBit := by
        rw [BitVec.toNat_ofNat]
        unfold leadingBit at *
        omega
      rw [toNat_packComponents, hexponent, hfraction]
      unfold leadingBit infinityBits at *
      omega
    · next hlog =>
      have hlog' : significand.log2 < 53 := (Nat.log2_lt (Nat.ne_of_gt hpos)).2 hlt
      have hlt' : significand < 2 ^ 52 := (Nat.log2_lt (Nat.ne_of_gt hpos)).1 (by omega)
      have hlt'' : significand < leadingBit := hlt'
      obtain rfl : shift = 0 := by omega
      have hfraction : (BitVec.ofNat 52 significand).toNat = significand := Nat.mod_eq_of_lt hlt'
      rw [toNat_packComponents, hfraction]
      unfold leadingBit infinityBits at *
      simp
      omega
  · rw [if_pos (by omega), toNat_packedInfinity]
    unfold leadingBit infinityBits at *
    omega

theorem toNat_pack_zero (sign : Sign) :
    (UnpackedFloat.pack .binary64 (.zero sign)).toNat = sign.toBitVec.toNat * signBit := by
  cases sign <;> rfl

section

variable {significand count shift : Nat} {exponent : Int}
  (hcount : (count : Int) = max ((significand.log2 : Int) - 52) (max (-1074 - exponent) 0))
  (hshift : exponent + count = shift - 1074)
  (hleading : shift = 0 ∨ significand.log2 = count + 52)

include hcount

/-- A significand of the full width may round up to the next power of two, but not beyond. -/
theorem divNearest_two_pow_le : divNearest significand (2 ^ count) ≤ 2 * leadingBit := by
  refine divNearest_le (Nat.le_of_lt ?_)
  calc significand < 2 ^ (significand.log2 + 1) := Nat.lt_log2_self
    _ ≤ 2 ^ (53 + count) := Nat.pow_le_pow_right (by decide) (by omega)
    _ = 2 * leadingBit * 2 ^ count := Nat.pow_add 2 53 count

include hshift

/-- A significand that has been rounded is shifted once more only if it carries. -/
theorem shiftToTargetExponent_rounded {rounded : Nat} (hle : rounded ≤ 2 * leadingBit) :
    let carry : Nat := if rounded = 2 * leadingBit then 1 else 0
    shiftToTargetExponent .binary64 rounded (exponent + count) .exact =
      (ExtendedMantissa.mk rounded false false >>> carry, exponent + count + carry) := by
  have hcarry : (max ((rounded.log2 : Int) - 52) (-1074 - (exponent + count))).toNat =
      if rounded = 2 * leadingBit then 1 else 0 := by
    split
    · next heq =>
      have hlog : rounded.log2 = 53 := by
        rw [heq]
        decide
      omega
    · next hne =>
      have hlog : rounded.log2 < 53 := by
        rcases Nat.eq_zero_or_pos rounded with rfl | hpos
        · decide
        · exact (Nat.log2_lt (Nat.ne_of_gt hpos)).2 (Nat.lt_of_le_of_ne hle hne)
      omega
  have hsecond := shiftToTargetExponent_eq rounded (exponent + count)
  rw [hcarry] at hsecond
  exact hsecond

include hleading

/-- A significand is rounded to the fields of the nearest double, or to infinity. -/
theorem toNat_pack_round (sign : Sign) (hpos : 0 < significand) :
    (UnpackedFloat.pack .binary64
        (roundWithAccuracy .binary64 sign significand exponent .exact)).toNat =
      sign.toBitVec.toNat * signBit +
        min (shift * leadingBit + divNearest significand (2 ^ count)) infinityBits := by
  have hfirst := shiftToTargetExponent_eq significand exponent
  have hsame : (max ((significand.log2 : Int) - 52) (-1074 - exponent)).toNat = count := by omega
  rw [hsame] at hfirst
  have hrounded : (ExtendedMantissa.mk significand false false >>> count).roundedMantissa =
      divNearest significand (2 ^ count) := by
    rw [((stands_exact significand).shiftRight Nat.one_pos count).roundedMantissa_eq, Nat.one_mul]
  have hle := divNearest_two_pow_le hcount
  have hlead : shift = 0 ∨ leadingBit ≤ divNearest significand (2 ^ count) := by
    refine hleading.imp_right fun hlog ↦ le_divNearest (Nat.two_pow_pos count) ?_
    calc leadingBit * 2 ^ count = 2 ^ (52 + count) := (Nat.pow_add 2 52 count).symm
      _ = 2 ^ significand.log2 := by rw [hlog, Nat.add_comm]
      _ ≤ significand := Nat.log2_self_le (Nat.ne_of_gt hpos)
  have hsecond := shiftToTargetExponent_rounded hcount hshift hle
  generalize divNearest significand (2 ^ count) = rounded at *
  have hmantissa := ((stands_exact rounded).shiftRight Nat.one_pos
    (if rounded = 2 * leadingBit then 1 else 0)).mantissa_eq
  by_cases hcarry : rounded = 2 * leadingBit
  · simp only [if_pos hcarry] at hmantissa hsecond
    have hhalf : rounded / (1 * 2 ^ 1) = leadingBit := by
      rw [hcarry]
      decide
    have hexponent : exponent + count + (1 : Nat) = (shift + 1 : Nat) - 1074 := by omega
    have hfields : (shift + 1) * leadingBit + leadingBit = shift * leadingBit + rounded := by
      rw [hcarry]
      ring
    rw [roundWithAccuracy_of_pos sign hfirst hrounded hsecond (hmantissa.trans hhalf) (by decide),
      hexponent, toNat_pack_finite sign _ (by decide) (.inr (Nat.le_refl leadingBit)), hfields]
  · simp only [if_neg hcarry, Nat.pow_zero, Nat.mul_one, Nat.div_one, Nat.cast_zero, add_zero,
      hshift] at hmantissa hfirst hsecond
    rcases Nat.eq_zero_or_pos rounded with hzero | hsome
    · obtain rfl : shift = 0 := hlead.resolve_right (by rw [hzero]; decide)
      rw [roundWithAccuracy_of_eq_zero sign hfirst hrounded hsecond (hmantissa.trans hzero),
        toNat_pack_zero, hzero, Nat.zero_mul, Nat.zero_add, Nat.zero_min, Nat.add_zero]
    · rw [roundWithAccuracy_of_pos sign hfirst hrounded hsecond hmantissa hsome]
      exact toNat_pack_finite sign hsome (Nat.lt_of_le_of_ne hle hcarry) hlead

end

/-! ## The fields of a finite double -/

def signOf (negative : Bool) : Sign :=
  if negative then .negative else .positive

theorem toNat_toBitVec_signOf (negative : Bool) :
    (signOf negative).toBitVec.toNat * signBit = if negative then signBit else 0 := by
  cases negative <;> rfl

theorem signOf_mul (first second : Bool) :
    signOf first * signOf second = signOf (first != second) := by
  cases first <;> cases second <;> rfl

/-- The sign that unpacking finds is the one of the bits. -/
theorem ofBitVec_unpackSign (x : Float) :
    Sign.ofBitVec (@unpackSign .binary64 x.toBits.toBitVec) = signOf (isNegative x) := by
  have hfield := toNat_unpackSign x.toBits.toBitVec
  have hlt := toNat_toBits_lt x
  change _ = x.toBits.toNat / signBit at hfield
  unfold isNegative
  by_cases hnegative : signBit ≤ x.toBits.toNat
  · have hone : @unpackSign .binary64 x.toBits.toBitVec = 1#1 := by
      apply BitVec.eq_of_toNat_eq
      rw [hfield]
      change _ = 1
      unfold signBit at *
      omega
    rw [hone, decide_eq_true hnegative]
    rfl
  · have hzero : @unpackSign .binary64 x.toBits.toBitVec = 0#1 := by
      apply BitVec.eq_of_toNat_eq
      rw [hfield, Nat.div_eq_of_lt (Nat.lt_of_not_le hnegative)]
      rfl
    rw [hzero, decide_eq_false hnegative]
    rfl

/-- The exponent field is what stands above the significand. -/
theorem toNat_unpackExponent_toBits (x : Float) :
    (@unpackExponent .binary64 x.toBits.toBitVec).toNat = magnitudeBits x / leadingBit := by
  rw [toNat_unpackExponent]
  change x.toBits.toNat / leadingBit % 2048 = _
  simp only [magnitudeBits, signBit, leadingBit]
  omega

/-- The mantissa field is what the exponent field leaves of the magnitude. -/
theorem toNat_unpackMantissa_toBits (x : Float) :
    (@unpackMantissa .binary64 x.toBits.toBitVec).toNat = magnitudeBits x % leadingBit := by
  rw [toNat_unpackMantissa]
  change x.toBits.toNat % leadingBit = _
  simp only [magnitudeBits, signBit, leadingBit]
  omega

/-- A finite double is a zero, or its units are a significand and a power of two. -/
theorem unpack_of_isFinite {x : Float} (hfinite : x.isFinite) :
    x.toModel.unpack = .zero (signOf (isNegative x)) ∧ units x = 0 ∨
    ∃ significand exponent, ∃ hpos : 0 < significand,
      x.toModel.unpack = .finite (signOf (isNegative x)) significand exponent hpos ∧
        -1074 ≤ exponent ∧ (leadingBit ≤ significand ∨ exponent = -1074) ∧
        units x = significand * 2 ^ (exponent + 1074).toNat := by
  have hexponent := toNat_unpackExponent_toBits x
  have hfraction := toNat_unpackMantissa_toBits x
  have hunpacks := unpacks x.toBits.toBitVec
  have hordinary := hunpacks.isFinite_iff.1 hfinite
  have hnone (hzero : @unpackExponent .binary64 x.toBits.toBitVec = 0#11) :
      magnitudeBits x / leadingBit = 0 := by
    rw [← hexponent, hzero]
    rfl
  rw [ofBitVec_unpackSign] at hunpacks
  change UnpackedFloat.unpack .binary64 x.toBits.toBitVec = _ ∧ _ ∨ ∃ _ _, ∃ _,
    UnpackedFloat.unpack .binary64 x.toBits.toBitVec = _ ∧ _
  generalize UnpackedFloat.unpack .binary64 x.toBits.toBitVec = unpacked at hunpacks ⊢
  cases hunpacks with
  | infinity hspecial | notANumber hspecial => exact absurd hspecial hordinary
  | zero hzero hempty =>
    refine .inl ⟨rfl, ?_⟩
    rw [units, unitsOfBits, if_pos (hnone hzero), ← hfraction, hempty]
    rfl
  | subnormal hzero hpos =>
    refine .inr ⟨_, -1074, hpos, rfl, Int.le_refl _, .inr rfl, ?_⟩
    rw [units, unitsOfBits, if_pos (hnone hzero), ← hfraction]
    exact (Nat.mul_one _).symm
  | normal _ hzero hpos =>
    have hsome : magnitudeBits x / leadingBit ≠ 0 := by
      rw [← hexponent]
      exact fun h ↦ hzero (BitVec.eq_of_toNat_eq h)
    have hsignificand := toNat_leadingBit_append (@unpackMantissa .binary64 x.toBits.toBitVec)
    refine .inr ⟨_, _, hpos, rfl, by omega, .inl (by omega), ?_⟩
    rw [units, unitsOfBits, if_neg hsome, ← hfraction, Nat.shiftLeft_eq, ← hsignificand, hexponent]
    congr 2
    omega

/-- A double is known by its bits, and these by the sign and the others. -/
theorem eq_ofSignBits {x : Float} {negative : Bool} {bits : Nat}
    (h : x.toBits.toNat = (if negative then signBit else 0) + bits) :
    x = ofSignBits negative bits := by
  have hbits : (if negative then signBit + bits else bits) = x.toBits.toNat := by
    rw [h]
    split
    · rfl
    · exact (Nat.zero_add bits).symm
  rw [ofSignBits, hbits, UInt64.ofNat_toNat, ofBits_toBits]

/-- The quotient by the units of 1 is rounded where multiplying rounds the significand. -/
theorem nearestBits_mul_two_pow {significand power count shift : Nat} (hpos : 0 < significand)
    (hnormal : 52 ≤ significand.log2 ∨ power ≤ 1074)
    (hcount : count = max (significand.log2 - 52) (1074 - power))
    (hshift : count + power = 1074 + shift) :
    nearestBits (significand * 2 ^ power) unitsPerOne =
      min (shift * leadingBit + divNearest significand (2 ^ count)) infinityBits := by
  obtain ⟨places, hplaces⟩ : ∃ places, places = 1074 := ⟨1074, rfl⟩
  have hsteps : (significand * 2 ^ power / 2 ^ places).log2 - 52 = shift := by
    rw [log2_div_two_pow, ← Nat.shiftLeft_eq, log2_shiftLeft (Nat.ne_of_gt hpos)]
    omega
  have hden : 2 ^ places <<< shift = 2 ^ count * 2 ^ power := by
    rw [Nat.shiftLeft_eq, ← Nat.pow_add, ← Nat.pow_add, hshift, hplaces]
  rw [nearestBits, unitsPerOne_eq hplaces, hsteps, hden,
    divNearest_mul_right _ _ (Nat.two_pow_pos power)]

/-- Two significands that doubles can have are multiplied and rounded as their units are. -/
theorem toNat_pack_round_mul (sign : Sign) {significand significand' : Nat}
    {exponent exponent' : Int} (hpos : 0 < significand) (hpos' : 0 < significand')
    (hleast : -1074 ≤ exponent) (hleast' : -1074 ≤ exponent')
    (hlead : leadingBit ≤ significand ∨ exponent = -1074)
    (hlead' : leadingBit ≤ significand' ∨ exponent' = -1074) :
    (UnpackedFloat.pack .binary64 (roundWithAccuracy .binary64 sign (significand * significand')
        (exponent + exponent') .exact)).toNat =
      sign.toBitVec.toNat * signBit +
        nearestBits (significand * 2 ^ (exponent + 1074).toNat *
          (significand' * 2 ^ (exponent' + 1074).toNat)) unitsPerOne := by
  obtain ⟨power, hpower⟩ := Int.eq_ofNat_of_zero_le (by omega : 0 ≤ exponent + 1074)
  obtain ⟨power', hpower'⟩ := Int.eq_ofNat_of_zero_le (by omega : 0 ≤ exponent' + 1074)
  have hproduct : significand * 2 ^ power * (significand' * 2 ^ power') =
      significand * significand' * 2 ^ (power + power') := by
    rw [Nat.pow_add, Nat.mul_mul_mul_comm]
  have hposProduct : 0 < significand * significand' := Nat.mul_pos hpos hpos'
  -- Of two doubles one is normal, or both are multiples of the unit below the least normal one.
  have hnormal : 52 ≤ (significand * significand').log2 ∨ power + power' ≤ 1074 := by
    rcases hlead with hge | hleast
    · refine .inl ((Nat.le_log2 (Nat.ne_of_gt hposProduct)).2 ?_)
      exact hge.trans (Nat.le_mul_of_pos_right _ hpos')
    · rcases hlead' with hge | hleast'
      · refine .inl ((Nat.le_log2 (Nat.ne_of_gt hposProduct)).2 ?_)
        exact hge.trans (Nat.le_mul_of_pos_left _ hpos)
      · exact .inr (by omega)
  obtain ⟨count, hcount⟩ : ∃ count,
      count = max ((significand * significand').log2 - 52) (1074 - (power + power')) := ⟨_, rfl⟩
  obtain ⟨shift, hshift⟩ := Nat.exists_eq_add_of_le (by omega : 1074 ≤ count + (power + power'))
  rw [hpower, hpower', Int.toNat_natCast, Int.toNat_natCast, hproduct,
    nearestBits_mul_two_pow hposProduct hnormal hcount hshift]
  exact toNat_pack_round (by omega) (by omega) (by omega) sign hposProduct

theorem nearestBits_zero {den : Nat} (hden : 0 < den) : nearestBits 0 den = 0 :=
  nearestBits_eq_zero (by rwa [Nat.mul_zero])

/-- The product of two finite doubles is the double nearest to the product of what they are. -/
theorem mul_eq {x y : Float} (hx : x.isFinite) (hy : y.isFinite) :
    x * y = ofSignBits (isNegative x != isNegative y)
      (nearestBits (units x * units y) unitsPerOne) := by
  apply eq_ofSignBits
  change (UnpackedFloat.pack .binary64
    (UnpackedFloat.mul .binary64 x.toModel.unpack y.toModel.unpack)).toNat = _
  rw [← toNat_toBitVec_signOf, ← signOf_mul]
  have hzero (sign : Sign) : (UnpackedFloat.pack .binary64 (.zero sign)).toNat =
      sign.toBitVec.toNat * signBit + nearestBits 0 unitsPerOne := by
    rw [nearestBits_zero unitsPerOne_pos, Nat.add_zero, toNat_pack_zero]
  rcases unpack_of_isFinite hx with ⟨hunpack, hunits⟩ |
    ⟨significand, exponent, hpos, hunpack, hleast, hlead, hunits⟩
  · rw [hunpack, hunits, Nat.zero_mul]
    rcases unpack_of_isFinite hy with ⟨hunpack', -⟩ | ⟨_, _, _, hunpack', -⟩ <;>
      rw [hunpack'] <;> exact hzero _
  · rcases unpack_of_isFinite hy with ⟨hunpack', hunits'⟩ |
      ⟨significand', exponent', hpos', hunpack', hleast', hlead', hunits'⟩
    · rw [hunpack, hunpack', hunits', Nat.mul_zero]
      exact hzero _
    · rw [hunpack, hunpack', hunits, hunits']
      exact toNat_pack_round_mul _ hpos hpos' hleast hleast' hlead hlead'

theorem unpack_infinity (negative : Bool) :
    (infinity negative).toModel.unpack = .infinity (signOf negative) := by
  cases negative <;> rfl

/-- Infinity stays infinite under a finite factor that is not zero. -/
theorem infinity_mul (negative : Bool) {y : Float} (hy : y.isFinite) (hunits : units y ≠ 0) :
    infinity negative * y = infinity (negative != isNegative y) := by
  apply eq_ofSignBits
  change (UnpackedFloat.pack .binary64
    (UnpackedFloat.mul .binary64 (infinity negative).toModel.unpack y.toModel.unpack)).toNat = _
  rcases unpack_of_isFinite hy with ⟨-, hzero⟩ | ⟨_, _, _, hunpack, -⟩
  · exact absurd hzero hunits
  · rw [unpack_infinity, hunpack]
    change (UnpackedFloat.pack .binary64 (.infinity (signOf _ * signOf _))).toNat = _
    rw [signOf_mul, toNat_pack_infinity, toNat_toBitVec_signOf]

theorem log2_mono {n m : Nat} (h : n ≤ m) : n.log2 ≤ m.log2 := by
  rcases Nat.eq_zero_or_pos n with rfl | hpos
  · exact Nat.zero_le _
  · exact (Nat.le_log2 (by omega)).2 ((Nat.log2_self_le (Nat.ne_of_gt hpos)).trans h)

theorem divNearest_mono {num num' : Nat} (den : Nat) (h : num ≤ num') :
    divNearest num den ≤ divNearest num' den := by
  have hsplit := Nat.div_add_mod num den
  have hsplit' := Nat.div_add_mod num' den
  rcases Nat.lt_or_eq_of_le (Nat.div_le_div_right h : num / den ≤ num' / den) with hlt | heq
  · dsimp only [divNearest]
    split <;> split <;> omega
  · have hrest : num % den ≤ num' % den := by
      rw [heq] at hsplit
      omega
    dsimp only [divNearest]
    rw [heq]
    split <;> split <;> omega

/-- Rounding keeps the order. -/
theorem nearestBits_mono {num num' den : Nat} (hden : 0 < den) (h : num ≤ num') :
    nearestBits num den ≤ nearestBits num' den := by
  have hquotient : num / den ≤ num' / den := Nat.div_le_div_right h
  have hshift : excess (num / den) ≤ excess (num' / den) :=
    Nat.sub_le_sub_right (log2_mono hquotient) 52
  have hbits (num : Nat) : nearestBits num den =
      min (excess (num / den) * leadingBit + divNearest num (den * 2 ^ excess (num / den)))
        infinityBits := by
    rw [nearestBits, Nat.shiftLeft_eq]
    rfl
  rw [hbits, hbits]
  refine min_le_min_right _ ?_
  rcases Nat.lt_or_eq_of_le hshift with hlt | heq
  · have hupper : divNearest num (den * 2 ^ excess (num / den)) ≤ 2 * leadingBit :=
      divNearest_le (Nat.le_of_lt (lt_mul_step hden))
    have hlower : leadingBit ≤ divNearest num' (den * 2 ^ excess (num' / den)) :=
      le_divNearest (Nat.mul_pos hden (Nat.two_pow_pos _)) (mul_step_le hden (by omega))
    have hsteps : (excess (num / den) + 1) * leadingBit ≤ excess (num' / den) * leadingBit :=
      Nat.mul_le_mul_right leadingBit hlt
    rw [Nat.add_mul, Nat.one_mul] at hsteps
    omega
  · rw [heq]
    exact Nat.add_le_add_left (divNearest_mono _ h) _

/-- Greater bits stand for more units. -/
theorem unitsOfBits_mono {bits bits' : Nat} (h : bits ≤ bits') :
    unitsOfBits bits ≤ unitsOfBits bits' := by
  refine monotone_nat_of_le_succ (f := unitsOfBits) (fun bits ↦ ?_) h
  have hsplit := Nat.div_add_mod' bits leadingBit
  have hrest : bits % leadingBit < leadingBit := Nat.mod_lt bits (by decide)
  -- One more bit is one more of the significand, also where it carries.
  obtain ⟨shift, significand, hbits, hupper, hlead⟩ : ∃ shift significand,
      bits = shift * leadingBit + significand ∧ significand + 1 ≤ 2 * leadingBit ∧
        (shift = 0 ∨ leadingBit ≤ significand) := by
    rcases Nat.eq_zero_or_eq_succ_pred (bits / leadingBit) with hzero | hsucc
    · exact ⟨0, bits % leadingBit, by rw [← hsplit, hzero]; simp, by omega, .inl rfl⟩
    · refine ⟨(bits / leadingBit).pred, leadingBit + bits % leadingBit, ?_, by omega,
        .inr (Nat.le_add_right _ _)⟩
      rw [hsucc, Nat.succ_mul] at hsplit
      omega
  rw [hbits, unitsOfBits_fields (by omega) hlead, Nat.add_assoc,
    unitsOfBits_fields hupper (hlead.imp_right Nat.le_succ_of_le)]
  exact Nat.mul_le_mul_right _ (Nat.le_succ _)

end Formula.Binary64
