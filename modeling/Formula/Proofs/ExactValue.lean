import Mathlib.Algebra.Order.Field.Rat
import Mathlib.Tactic.Positivity
import Mathlib.Tactic.Ring
import Formula.Binary64.Whole
import Formula.Proofs.Rounding

/-!
# The exact values of doubles

A finite double is a rational number: its sign and its units. A whole number is made a double by
rounding its units to a significand of 53 bits. One that has such a significand is its own double,
and rounding never goes past such a number, so that any of them above a number bounds its double.
-/

namespace Formula.Binary64

open Float.Model Float.Model.UnpackedFloat

def exact (x : Float) : ℚ :=
  if isNegative x then -(units x / unitsPerOne) else units x / unitsPerOne

/-- The bits of a float made of sign and magnitude are the two put together. -/
theorem toNat_toBits_ofSignBits (negative : Bool) {bits : Nat} (hbits : bits ≤ infinityBits) :
    (ofSignBits negative bits).toBits.toNat = if negative then signBit + bits else bits := by
  let packed := if negative then signBit + bits else bits
  have hlt : packed < 2 ^ 64 := by
    have hle : packed ≤ signBit + bits := by
      simp only [packed]
      split <;> omega
    simp only [signBit, infinityBits] at *
    omega
  have hpacked : (UInt64.ofNat packed).toBitVec.toNat = packed := by
    rw [UInt64.toNat_toBitVec, UInt64.toNat_ofNat']
    exact Nat.mod_eq_of_lt hlt
  have hmagnitude : packed % signBit = bits := by
    have hmod : bits % signBit = bits := Nat.mod_eq_of_lt (Nat.lt_of_le_of_lt hbits (by decide))
    simp only [packed]
    split
    · rw [Nat.add_mod_left, hmod]
    · exact hmod
  -- A pattern no greater than infinity's is none of those that stand for no number.
  have hvalid : Format.binary64.Valid (UInt64.ofNat packed).toBitVec := by
    refine ⟨fun hexponent hmantissa ↦ ?_⟩
    have hexponent' := congrArg BitVec.toNat hexponent
    have hmantissa' : (@unpackMantissa .binary64 (UInt64.ofNat packed).toBitVec).toNat ≠ 0 :=
      fun hzero ↦ hmantissa (BitVec.eq_of_toNat_eq hzero)
    rw [toNat_unpackExponent, hpacked] at hexponent'
    rw [toNat_unpackMantissa, hpacked] at hmantissa'
    change packed / leadingBit % 2048 = 2047 at hexponent'
    simp only [signBit, infinityBits, leadingBit] at *
    omega
  calc (ofSignBits negative bits).toBits.toNat
      = (UnpackedFloat.pack .binary64
          (UnpackedFloat.unpack .binary64 (UInt64.ofNat packed).toBitVec)).toNat := rfl
    _ = packed := by rw [pack_unpack hvalid, hpacked]

section

variable (negative : Bool) {bits : Nat}

theorem isNegative_ofSignBits (hbits : bits ≤ infinityBits) :
    isNegative (ofSignBits negative bits) = negative := by
  have hlt : bits < signBit := Nat.lt_of_le_of_lt hbits (by decide)
  rw [isNegative, toNat_toBits_ofSignBits negative hbits]
  cases negative <;> simp [hlt]

theorem magnitudeBits_ofSignBits (hbits : bits ≤ infinityBits) :
    magnitudeBits (ofSignBits negative bits) = bits := by
  have hlt : bits < signBit := Nat.lt_of_le_of_lt hbits (by decide)
  rw [magnitudeBits, toNat_toBits_ofSignBits negative hbits]
  cases negative <;> simp [Nat.mod_eq_of_lt hlt]

theorem units_ofSignBits (hbits : bits ≤ infinityBits) :
    units (ofSignBits negative bits) = unitsOfBits bits := by
  rw [units, magnitudeBits_ofSignBits negative hbits]

end

theorem isFinite_of_magnitudeBits_lt {x : Float} (h : magnitudeBits x < infinityBits) :
    x.isFinite = true := by
  have hfield : (@unpackExponent .binary64 x.toBits.toBitVec).toNat ≠ 2047 := by
    rw [toNat_unpackExponent]
    change x.toBits.toNat / leadingBit % 2048 ≠ 2047
    simp only [magnitudeBits, infinityBits, signBit, leadingBit] at *
    omega
  have hexponent : @unpackExponent .binary64 x.toBits.toBitVec ≠ -1#11 :=
    fun h ↦ hfield (congrArg BitVec.toNat h)
  change (UnpackedFloat.unpack .binary64 x.toBits.toBitVec).isFinite = true
  exact (unpacks x.toBits.toBitVec).isFinite_iff.2 hexponent

/-- The whole numbers that need at most 53 bits behind their zeros. -/
def HasSignificand (n : Nat) : Prop :=
  ∃ significand shift, significand < 2 * leadingBit ∧ n = significand * 2 ^ shift

theorem HasSignificand.of_lt {n : Nat} (h : n < 2 * leadingBit) : HasSignificand n :=
  ⟨n, 0, h, (Nat.mul_one n).symm⟩

theorem hasSignificand_two_pow (power : Nat) : HasSignificand (2 ^ power) :=
  ⟨1, power, by decide, (Nat.one_mul _).symm⟩

theorem HasSignificand.mul_two_pow {n : Nat} (h : HasSignificand n) (power : Nat) :
    HasSignificand (n * 2 ^ power) := by
  obtain ⟨significand, shift, hlt, rfl⟩ := h
  exact ⟨significand, shift + power, hlt, by rw [Nat.mul_assoc, ← Nat.pow_add]⟩

/-- Halving keeps a significand that fits, even if it cuts bits off. -/
theorem HasSignificand.div_two_pow {n : Nat} (h : HasSignificand n) (power : Nat) :
    HasSignificand (n / 2 ^ power) := by
  obtain ⟨significand, shift, hlt, rfl⟩ := h
  rcases Nat.le_total power shift with hle | hle
  · refine ⟨significand, shift - power, hlt, ?_⟩
    rw [Nat.mul_div_assoc _ (Nat.pow_dvd_pow 2 hle), Nat.pow_div hle (by decide)]
  · refine .of_lt (Nat.lt_of_le_of_lt ?_ hlt)
    calc significand * 2 ^ shift / 2 ^ power
        ≤ significand * 2 ^ power / 2 ^ power :=
          Nat.div_le_div_right (Nat.mul_le_mul_left _ (Nat.pow_le_pow_right (by decide) hle))
      _ = significand := Nat.mul_div_cancel _ (Nat.two_pow_pos power)

theorem HasSignificand.mul_unitsPerOne {n : Nat} (h : HasSignificand n) :
    HasSignificand (n * unitsPerOne) := by
  obtain ⟨places, hplaces⟩ : ∃ places, places = 1074 := ⟨1074, rfl⟩
  rw [unitsPerOne_eq hplaces]
  exact h.mul_two_pow places

theorem HasSignificand.div_unitsPerOne {n : Nat} (h : HasSignificand n) :
    HasSignificand (n / unitsPerOne) := by
  obtain ⟨places, hplaces⟩ : ∃ places, places = 1074 := ⟨1074, rfl⟩
  rw [unitsPerOne_eq hplaces]
  exact h.div_two_pow places

/-- The units of every double have a significand. -/
theorem hasSignificand_unitsOfBits (bits : Nat) : HasSignificand (unitsOfBits bits) := by
  have hfraction : bits % leadingBit < leadingBit := Nat.mod_lt bits (by decide)
  rw [unitsOfBits]
  split
  · exact .of_lt (by omega)
  · exact ⟨leadingBit + bits % leadingBit, bits / leadingBit - 1, by omega, Nat.shiftLeft_eq _ _⟩

/-- A remainder has a significand if the dividend and the divisor have one: it is divisible by the
smaller of their powers of two, and below both of them. -/
theorem HasSignificand.mod {dividend divisor : Nat} (hdividend : HasSignificand dividend)
    (hdivisor : HasSignificand divisor) : HasSignificand (dividend % divisor) := by
  obtain ⟨significand, shift, hlt, rfl⟩ := hdividend
  obtain ⟨significand', shift', hlt', rfl⟩ := hdivisor
  rcases Nat.le_total shift shift' with hle | hle
  · obtain ⟨more, rfl⟩ := Nat.exists_eq_add_of_le hle
    refine ⟨significand % (significand' * 2 ^ more), shift,
      Nat.lt_of_le_of_lt (Nat.mod_le _ _) hlt, ?_⟩
    rw [Nat.add_comm, Nat.pow_add, ← Nat.mul_assoc, Nat.mul_mod_mul_right]
  · obtain ⟨more, rfl⟩ := Nat.exists_eq_add_of_le hle
    rcases Nat.eq_zero_or_pos significand' with rfl | hpos
    · rw [Nat.zero_mul, Nat.mod_zero]
      exact ⟨significand, shift' + more, hlt, rfl⟩
    · refine ⟨significand * 2 ^ more % significand', shift',
        (Nat.mod_lt _ hpos).trans hlt', ?_⟩
      rw [Nat.add_comm, Nat.pow_add, ← Nat.mul_assoc, Nat.mul_mod_mul_right]

/-- How many bits of a number do not fit into a significand. -/
def excess (n : Nat) : Nat :=
  n.log2 - 52

/-- The number of significands below the one that a number is rounded to. -/
def roundedSignificand (n : Nat) : Nat :=
  divNearest n (2 ^ excess n)

/-- A quotient without remainder is not rounded. -/
theorem divNearest_mul_eq (quotient : Nat) {den : Nat} (hden : 0 < den) :
    divNearest (quotient * den) den = quotient := by
  have h := divNearest_mul_right quotient 1 hden
  rwa [Nat.one_mul, divNearest_one] at h

/-- Rounding a quotient never goes past a whole number. -/
theorem divNearest_le {num den bound : Nat} (h : num ≤ bound * den) :
    divNearest num den ≤ bound := by
  rcases Nat.eq_zero_or_pos den with rfl | hpos
  · obtain rfl : num = 0 := by simpa using h
    simp [divNearest]
  · have hdiv : num / den ≤ bound := Nat.div_le_of_le_mul (Nat.mul_comm bound den ▸ h)
    have hsplit := Nat.div_add_mod num den
    dsimp only [divNearest]
    split
    · next hup =>
      refine Nat.lt_of_le_of_ne hdiv fun heq ↦ ?_
      rw [heq, Nat.mul_comm] at hsplit
      omega
    · exact hdiv

theorem le_divNearest {num den bound : Nat} (hden : 0 < den) (h : bound * den ≤ num) :
    bound ≤ divNearest num den := by
  have hdiv : bound ≤ num / den := (Nat.le_div_iff_mul_le hden).2 h
  dsimp only [divNearest]
  split <;> omega

theorem lt_two_mul_leadingBit_mul (n : Nat) : n < 2 * leadingBit * 2 ^ excess n := by
  calc n < 2 ^ (n.log2 + 1) := Nat.lt_log2_self
    _ ≤ 2 ^ (53 + excess n) := Nat.pow_le_pow_right (by decide) (by unfold excess; omega)
    _ = 2 * leadingBit * 2 ^ excess n := Nat.pow_add 2 53 _

theorem leadingBit_mul_le {n : Nat} (h : excess n ≠ 0) : leadingBit * 2 ^ excess n ≤ n := by
  have hlog : 52 + excess n = n.log2 := by
    unfold excess at *
    omega
  have hpos : n ≠ 0 := by
    rintro rfl
    exact h rfl
  calc leadingBit * 2 ^ excess n = 2 ^ (52 + excess n) := (Nat.pow_add 2 52 _).symm
    _ = 2 ^ n.log2 := by rw [hlog]
    _ ≤ n := Nat.log2_self_le hpos

/-- In the steps to which it is rounded, a quotient is below two leading bits and, above the least
step, not below one. -/
theorem lt_mul_step {num den : Nat} (hden : 0 < den) :
    num < 2 * leadingBit * (den * 2 ^ excess (num / den)) := by
  have hlt := (Nat.div_lt_iff_lt_mul hden).1 (lt_two_mul_leadingBit_mul (num / den))
  rwa [Nat.mul_assoc, Nat.mul_comm _ den] at hlt

/-- The grid at the leading bit is not wider than the number itself. -/
theorem mul_step_le {num den : Nat} (hden : 0 < den) (h : excess (num / den) ≠ 0) :
    leadingBit * (den * 2 ^ excess (num / den)) ≤ num := by
  have hle := (Nat.le_div_iff_mul_le hden).1 (leadingBit_mul_le h)
  rwa [Nat.mul_assoc, Nat.mul_comm _ den] at hle

theorem roundedSignificand_le (n : Nat) : roundedSignificand n ≤ 2 * leadingBit :=
  divNearest_le (Nat.le_of_lt (lt_two_mul_leadingBit_mul n))

/-- The fields of a double stand for its significand and its shift, also where the significand
carries into the exponent. -/
theorem unitsOfBits_fields {significand shift : Nat} (hle : significand ≤ 2 * leadingBit)
    (hleading : shift = 0 ∨ leadingBit ≤ significand) :
    unitsOfBits (shift * leadingBit + significand) = significand * 2 ^ shift := by
  have hpos : 0 < leadingBit := by decide
  rcases Nat.lt_or_ge significand leadingBit with hlt | hge
  · obtain rfl : shift = 0 := by omega
    rw [Nat.zero_mul, Nat.zero_add, unitsOfBits, Nat.div_eq_of_lt hlt, if_pos rfl,
      Nat.mod_eq_of_lt hlt, Nat.pow_zero, Nat.mul_one]
  · obtain ⟨fraction, rfl⟩ := Nat.exists_eq_add_of_le hge
    rcases Nat.lt_or_ge fraction leadingBit with hfraction | hcarry
    · have hfields : shift * leadingBit + (leadingBit + fraction) =
          fraction + leadingBit * (shift + 1) := by ring
      rw [hfields, unitsOfBits, Nat.add_mul_div_left _ _ hpos, Nat.add_mul_mod_self_left,
        Nat.div_eq_of_lt hfraction, Nat.mod_eq_of_lt hfraction, if_neg (by omega),
        Nat.shiftLeft_eq]
      congr 2
      omega
    · obtain rfl : fraction = leadingBit := by omega
      have hfields : shift * leadingBit + (leadingBit + leadingBit) =
          0 + leadingBit * (shift + 2) := by ring
      rw [hfields, unitsOfBits, Nat.add_mul_div_left _ _ hpos, Nat.add_mul_mod_self_left,
        Nat.zero_div, Nat.zero_mod, if_neg (by omega), Nat.shiftLeft_eq]
      have hshift : 0 + (shift + 2) - 1 = shift + 1 := by omega
      rw [hshift, Nat.pow_succ]
      ring

/-- The bits of a whole number of units, with the exponent counted on top of the significand. -/
theorem nearestBits_one (n : Nat) :
    nearestBits n 1 = min (excess n * leadingBit + roundedSignificand n) infinityBits := by
  rw [nearestBits, Nat.div_one, Nat.one_shiftLeft]
  rfl

/-- The units of the nearest double are those of the rounded significand, unless it is infinite. -/
theorem unitsOfBits_nearestBits {n : Nat}
    (hfinite : excess n * leadingBit + roundedSignificand n ≤ infinityBits) :
    unitsOfBits (nearestBits n 1) = roundedSignificand n * 2 ^ excess n := by
  rw [nearestBits_one, Nat.min_eq_left hfinite]
  refine unitsOfBits_fields (roundedSignificand_le n) ?_
  rcases Nat.eq_zero_or_pos (excess n) with hzero | hpos
  · exact .inl hzero
  · exact .inr (le_divNearest (Nat.two_pow_pos _) (leadingBit_mul_le (Nat.ne_of_gt hpos)))

/-- A number that has a significand is a multiple of the step at which any number below it is
rounded; otherwise it would have too few bits to be above it. -/
theorem HasSignificand.two_pow_excess_dvd {n bound : Nat} (hbound : HasSignificand bound)
    (h : n ≤ bound) : 2 ^ excess n ∣ bound := by
  obtain ⟨significand, shift, hlt, rfl⟩ := hbound
  suffices hshift : excess n ≤ shift from
    (Nat.pow_dvd_pow 2 hshift).trans (Nat.dvd_mul_left _ significand)
  by_contra hshift
  have hlarge : 2 * leadingBit * 2 ^ shift ≤ n := by
    calc 2 * leadingBit * 2 ^ shift = leadingBit * 2 ^ (shift + 1) := by
          rw [Nat.pow_succ]
          ring
      _ ≤ leadingBit * 2 ^ excess n :=
          Nat.mul_le_mul_left _ (Nat.pow_le_pow_right (by decide) (Nat.lt_of_not_le hshift))
      _ ≤ n := leadingBit_mul_le (by omega)
  have hsmall : significand * 2 ^ shift < 2 * leadingBit * 2 ^ shift :=
    Nat.mul_lt_mul_of_pos_right hlt (Nat.two_pow_pos shift)
  omega

/-- Rounding never goes past a number that has a significand. -/
theorem rounded_le {n bound : Nat} (h : n ≤ bound) (hbound : HasSignificand bound) :
    roundedSignificand n * 2 ^ excess n ≤ bound := by
  obtain ⟨count, rfl⟩ := hbound.two_pow_excess_dvd h
  rw [Nat.mul_comm] at h ⊢
  exact Nat.mul_le_mul_left _ (divNearest_le h)

/-- A number that has a significand is not rounded. -/
theorem HasSignificand.rounded_eq {n : Nat} (h : HasSignificand n) :
    roundedSignificand n * 2 ^ excess n = n := by
  obtain ⟨count, hcount⟩ := h.two_pow_excess_dvd (Nat.le_refl n)
  rw [Nat.mul_comm] at hcount
  calc roundedSignificand n * 2 ^ excess n
      = divNearest (count * 2 ^ excess n) (2 ^ excess n) * 2 ^ excess n := by
        rw [roundedSignificand, ← hcount]
    _ = n := by rw [divNearest_mul_eq count (Nat.two_pow_pos _), ← hcount]

/-! ## Whole numbers as doubles -/

theorem excess_mul_unitsPerOne_le (n : Nat) : excess (n * unitsPerOne) ≤ n.log2 + 1022 := by
  obtain ⟨places, hplaces⟩ : ∃ places, places = 1074 := ⟨1074, rfl⟩
  rcases Nat.eq_zero_or_pos n with rfl | hpos
  · rw [Nat.zero_mul]
    exact Nat.zero_le _
  · have hlog : (n * unitsPerOne).log2 = n.log2 + places := by
      rw [unitsPerOne_eq hplaces, ← Nat.shiftLeft_eq, log2_shiftLeft (Nat.ne_of_gt hpos)]
    rw [excess, hlog]
    omega

section

variable {n : Int} (hlog : n.natAbs.log2 < 1023)
include hlog

/-- No whole number below `2 ^ 1023` comes near infinity. -/
theorem fields_lt_infinityBits :
    excess (n.natAbs * unitsPerOne) * leadingBit + roundedSignificand (n.natAbs * unitsPerOne) <
      infinityBits := by
  have hexcess := excess_mul_unitsPerOne_le n.natAbs
  have hsignificand := roundedSignificand_le (n.natAbs * unitsPerOne)
  simp only [infinityBits, leadingBit] at *
  omega

theorem magnitudeBits_ofWhole_lt : nearestBits (n.natAbs * unitsPerOne) 1 < infinityBits := by
  rw [nearestBits_one]
  exact Nat.lt_of_le_of_lt (Nat.min_le_left _ _) (fields_lt_infinityBits hlog)

theorem isFinite_ofWhole : (ofWhole n).isFinite = true := by
  have hlt := magnitudeBits_ofWhole_lt hlog
  apply isFinite_of_magnitudeBits_lt
  rw [ofWhole, ofQuotient, magnitudeBits_ofSignBits _ (Nat.le_of_lt hlt)]
  exact hlt

theorem isNegative_ofWhole : isNegative (ofWhole n) = decide (n < 0) :=
  isNegative_ofSignBits _ (Nat.le_of_lt (magnitudeBits_ofWhole_lt hlog))

/-- A conversion keeps the rounded significand, at the exponent of the number. -/
theorem units_ofWhole :
    units (ofWhole n) = roundedSignificand (n.natAbs * unitsPerOne) *
      2 ^ excess (n.natAbs * unitsPerOne) := by
  rw [ofWhole, ofQuotient, units_ofSignBits _ (Nat.le_of_lt (magnitudeBits_ofWhole_lt hlog))]
  exact unitsOfBits_nearestBits (Nat.le_of_lt (fields_lt_infinityBits hlog))

end

theorem unitsPerOne_cast_pos : (0 : ℚ) < unitsPerOne :=
  Nat.cast_pos.2 unitsPerOne_pos

/-- The size of an exact value is its units, each one part of `unitsPerOne`. -/
theorem abs_exact (x : Float) : |exact x| = units x / unitsPerOne := by
  have hnonneg : (0 : ℚ) ≤ units x / unitsPerOne :=
    div_nonneg (Nat.cast_nonneg _) unitsPerOne_cast_pos.le
  unfold exact
  split
  · rw [abs_neg, abs_of_nonneg hnonneg]
  · exact abs_of_nonneg hnonneg

/-- A whole number that has a significand is its own double. -/
theorem exact_ofWhole {n : Int} (hlog : n.natAbs.log2 < 1023) (h : HasSignificand n.natAbs) :
    exact (ofWhole n) = n := by
  have hmagnitude : (units (ofWhole n) / unitsPerOne : ℚ) = n.natAbs := by
    rw [units_ofWhole hlog, h.mul_unitsPerOne.rounded_eq, Nat.cast_mul,
      mul_div_cancel_right₀ _ unitsPerOne_cast_pos.ne']
  rw [exact, isNegative_ofWhole hlog, hmagnitude, Nat.cast_natAbs]
  rcases lt_or_ge n 0 with hn | hn
  · rw [if_pos (decide_eq_true hn), abs_of_neg hn]
    push_cast
    ring
  · rw [if_neg (by simpa using hn), abs_of_nonneg hn]

/-- The double of a whole number lies on the same side of zero. -/
theorem exact_ofWhole_nonneg {n : Int} (hlog : n.natAbs.log2 < 1023) (h : 0 ≤ n) :
    0 ≤ exact (ofWhole n) := by
  rw [exact, isNegative_ofWhole hlog, if_neg (by simpa using h)]
  positivity

theorem exact_ofWhole_nonpos {n : Int} (hlog : n.natAbs.log2 < 1023) (h : n ≤ 0) :
    exact (ofWhole n) ≤ 0 := by
  rcases h.lt_or_eq with hn | rfl
  · rw [exact, isNegative_ofWhole hlog, if_pos (decide_eq_true hn)]
    exact neg_nonpos.2 (by positivity)
  · rw [exact_ofWhole hlog (.of_lt (by decide))]
    exact le_rfl

end Formula.Binary64
