import Mathlib.Data.Int.ConditionallyCompleteOrder
import Mathlib.Data.Nat.Prime.Int
import Mathlib.Data.Rat.Floor
import Mathlib.Data.Sign.Defs
import Mathlib.Tactic.Linarith
import Formula.Proofs.ExactValue

/-!
# The remainder of truncated doubles

Truncation keeps the significand of a double, unless it gives the greatest whole number for a double
beyond it. Two truncated operands with a significand have a remainder with a significand, so that no
rounding takes place. The greatest whole number is the only dividend where it does, and the
remainder by a power of two is then rounded up to the divisor itself.
-/

namespace Formula.Binary64

def towardZero (q : ℚ) : ℤ :=
  if q < 0 then ⌈q⌉ else ⌊q⌋

theorem towardZero_neg (q : ℚ) : towardZero (-q) = -towardZero q := by
  unfold towardZero
  rcases lt_trichotomy q 0 with hneg | rfl | hpos
  · rw [if_neg (by linarith), if_pos hneg, Int.floor_neg]
  · simp
  · rw [if_pos (by linarith), if_neg (by linarith), Int.ceil_neg]

theorem towardZero_natCast_div (num den : ℕ) : towardZero (num / den) = (num / den : ℕ) := by
  have hnonneg : (0 : ℚ) ≤ num / den := by positivity
  rw [towardZero, if_neg hnonneg.not_gt, Rat.floor_natCast_div_natCast]
  rfl

theorem towardZero_intCast_div (num den : ℤ) : towardZero (num / den) = num.tdiv den := by
  have hwhole (a b : ℕ) : ((a : ℤ).tdiv b : ℤ) = (a / b : ℕ) := rfl
  obtain ⟨a, rfl | rfl⟩ := num.eq_nat_or_neg <;> obtain ⟨b, rfl | rfl⟩ := den.eq_nat_or_neg
  · exact towardZero_natCast_div a b
  · rw [Int.tdiv_neg, hwhole, ← towardZero_natCast_div, ← towardZero_neg]
    push_cast
    rw [div_neg]
  · rw [Int.neg_tdiv, hwhole, ← towardZero_natCast_div, ← towardZero_neg]
    push_cast
    rw [neg_div]
  · rw [Int.neg_tdiv, Int.tdiv_neg, neg_neg, hwhole, ← towardZero_natCast_div]
    push_cast
    rw [neg_div_neg_eq]

/-- Towards zero means dropping the part of a unit. -/
theorem towardZero_exact (x : Float) :
    towardZero (exact x) =
      if isNegative x then -((units x / unitsPerOne : ℕ) : ℤ) else (units x / unitsPerOne : ℕ) := by
  unfold exact
  split
  · rw [towardZero_neg, towardZero_natCast_div]
  · rw [towardZero_natCast_div]

/-- The whole part of a double keeps its significand. -/
theorem hasSignificand_towardZero (x : Float) : HasSignificand (towardZero (exact x)).natAbs := by
  have hwhole : HasSignificand (units x / unitsPerOne) :=
    (hasSignificand_unitsOfBits (magnitudeBits x)).div_unitsPerOne
  rw [towardZero_exact]
  split
  · rwa [Int.natAbs_neg, Int.natAbs_natCast]
  · rwa [Int.natAbs_natCast]

/-- Conversion rounds towards zero and then saturates. -/
theorem truncate_eq {x : Float} (h : x.isNaN = false) :
    truncate x = max leastWhole (min greatestWhole (towardZero (exact x))) := by
  rw [towardZero_exact, truncate, h]
  rfl

theorem truncate_of_mem {x : Float} (h : x.isNaN = false)
    (hmem : towardZero (exact x) ∈ Set.Icc leastWhole greatestWhole) :
    truncate x = towardZero (exact x) := by
  rw [truncate_eq h, min_eq_right hmem.2, max_eq_right hmem.1]

theorem truncate_mem (x : Float) : truncate x ∈ Set.Icc leastWhole greatestWhole := by
  unfold truncate
  split
  · decide
  · exact ⟨le_max_left _ _, max_le (by decide) (min_le_left _ _)⟩

/-- A truncated double has a significand, or else it is the greatest whole number. -/
theorem hasSignificand_truncate (x : Float) :
    HasSignificand (truncate x).natAbs ∨ truncate x = greatestWhole := by
  cases hnan : x.isNaN with
  | true =>
    have hzero : truncate x = 0 := by rw [truncate, if_pos hnan]
    rw [hzero]
    exact .inl (.of_lt (by decide))
  | false =>
    rw [truncate_eq hnan]
    rcases le_total greatestWhole (towardZero (exact x)) with hgreat | hgreat
    · rw [min_eq_left hgreat]
      exact .inr rfl
    · rw [min_eq_right hgreat]
      rcases le_total leastWhole (towardZero (exact x)) with hleast | hleast
      · rw [max_eq_right hleast]
        exact .inl (hasSignificand_towardZero x)
      · rw [max_eq_left hleast]
        exact .inl (hasSignificand_two_pow 63)

section

variable {dividend divisor : Int} (hdividend : dividend ∈ Set.Icc leastWhole greatestWhole)
include hdividend

theorem natAbs_le_two_pow : dividend.natAbs ≤ 2 ^ 63 := by
  obtain ⟨hleast, hgreatest⟩ := hdividend
  simp only [leastWhole, greatestWhole] at *
  omega

theorem log2_natAbs_tmod_lt : (dividend.tmod divisor).natAbs.log2 < 1023 := by
  have hle : (dividend.tmod divisor).natAbs ≤ 2 ^ 63 := by
    rw [Int.natAbs_tmod]
    exact (Nat.mod_le _ _).trans (natAbs_le_two_pow hdividend)
  rcases Nat.eq_zero_or_pos (dividend.tmod divisor).natAbs with hzero | hpos
  · rw [hzero]
    decide
  · have hlog : (dividend.tmod divisor).natAbs.log2 < 64 :=
      (Nat.log2_lt (Nat.ne_of_gt hpos)).2 (Nat.lt_of_le_of_lt hle (by decide))
    omega

/-- Words of 64 bits have the same remainder as the whole numbers that they stand for. -/
theorem toInt_ofInt_mod (hdivisor : divisor ∈ Set.Icc leastWhole greatestWhole) :
    (Int64.ofInt dividend % Int64.ofInt divisor).toInt = dividend.tmod divisor := by
  have hword {n : Int} (hn : n ∈ Set.Icc leastWhole greatestWhole) :
      (Int64.ofInt n).toInt = n := by
    obtain ⟨hleast, hgreatest⟩ := hn
    simp only [leastWhole, greatestWhole] at hleast hgreatest
    exact Int64.toInt_ofInt_of_le (by omega) (by omega)
  rw [Int64.toInt_mod, hword hdividend, hword hdivisor]

end

/-- Off zero the remainder is the one of the converted operands, converted back. -/
theorem remainder_eq {x y : Float} (h : truncate y ≠ 0) :
    remainder x y = ofWhole ((truncate x).tmod (truncate y)) :=
  if_neg h

/-- Without saturation the remainder is exact: the whole parts of both operands have significands,
and so has what is left of one after taking away the multiples of the other. Words of 64 bits
compute the same. -/
theorem remainder_exact {x y : Float} (hx : x.isFinite = true) (hy : y.isFinite = true)
    (hdividend : towardZero (exact x) ∈ Set.Icc leastWhole greatestWhole)
    (hdivisor : towardZero (exact y) ∈ Set.Icc leastWhole greatestWhole)
    (hne : towardZero (exact y) ≠ 0) :
    let dividend := towardZero (exact x)
    let divisor := towardZero (exact y)
    let rest := dividend - divisor * towardZero ((dividend : ℚ) / divisor)
    (remainder x y).isFinite = true ∧ exact (remainder x y) = rest ∧
      remainder x y = ofWhole rest ∧ exact (ofWhole rest) = rest ∧
      (Int64.ofInt dividend % Int64.ofInt divisor).toInt = rest ∧
      (dividend = leastWhole → divisor = -1 → remainder x y = 0) := by
  intro dividend divisor rest
  have hrest : rest = dividend.tmod divisor := by
    rw [Int.tmod_def, ← towardZero_intCast_div]
  have hlog : rest.natAbs.log2 < 1023 := hrest ▸ log2_natAbs_tmod_lt hdividend
  have hremainder : remainder x y = ofWhole rest := by
    have hx' : truncate x = dividend := truncate_of_mem (isNaN_of_isFinite hx) hdividend
    have hy' : truncate y = divisor := truncate_of_mem (isNaN_of_isFinite hy) hdivisor
    have hne' : truncate y ≠ 0 := hy' ▸ hne
    rw [remainder_eq hne', hx', hy', hrest]
  have hsignificand : HasSignificand rest.natAbs := by
    rw [hrest, Int.natAbs_tmod]
    exact (hasSignificand_towardZero x).mod (hasSignificand_towardZero y)
  have hexact : exact (ofWhole rest) = rest := exact_ofWhole hlog hsignificand
  refine ⟨?_, ?_, hremainder, hexact, ?_, ?_⟩
  · rw [hremainder]
    exact isFinite_ofWhole hlog
  · rw [hremainder, hexact]
  · rw [hrest]
    exact toInt_ofInt_mod hdividend hdivisor
  · intro hleast hone
    have hzero : rest = 0 := by
      rw [hrest, hleast, hone]
      decide
    rw [hremainder, hzero]
    rfl

/-- A remainder with more than 53 bits, by a negative divisor. -/
theorem remainder_exact_negative_divisor :
    let x : Float := 9223372036854774784
    let y : Float := -4611686018427388928
    towardZero (exact x) = 9223372036854774784 ∧ towardZero (exact y) = -4611686018427388928 ∧
      exact (remainder x y) = 4611686018427385856 := by
  intro x y
  have hx : towardZero (exact x) = 9223372036854774784 := by
    rw [towardZero_exact]
    decide +kernel
  have hy : towardZero (exact y) = -4611686018427388928 := by
    rw [towardZero_exact]
    decide +kernel
  have h := remainder_exact (x := x) (y := y) (by decide +kernel) (by decide +kernel)
    (hx ▸ by decide) (hy ▸ by decide) (hy ▸ by decide)
  have hquotient : Int.tdiv 9223372036854774784 (-4611686018427388928) = -1 := by decide
  refine ⟨hx, hy, ?_⟩
  rw [h.2.1, towardZero_intCast_div, hx, hy, hquotient]
  norm_num

/-! ## Remainders of the greatest whole number -/

/-- What is short of an even multiple by 1 is rounded up to it. -/
theorem divNearest_mul_sub_one {quotient den : Nat} (heven : quotient % 2 = 1) (hden : 2 ≤ den) :
    divNearest ((quotient + 1) * den - 1) den = quotient + 1 := by
  have hnum : (quotient + 1) * den - 1 = den - 1 + den * quotient := by
    rw [Nat.add_mul, Nat.one_mul, Nat.mul_comm]
    omega
  have hdiv : ((quotient + 1) * den - 1) / den = quotient := by
    rw [hnum, Nat.add_mul_div_left _ _ (by omega), Nat.div_eq_of_lt (by omega), Nat.zero_add]
  have hmod : ((quotient + 1) * den - 1) % den = den - 1 := by
    rw [hnum, Nat.add_mul_mod_self_left, Nat.mod_eq_of_lt (by omega)]
  rw [divNearest, hdiv, hmod, if_pos (by omega)]

/-- What is short of a power of two by 1 and has more than 53 bits is rounded up to the power. -/
theorem rounded_two_pow_sub_one (more places : Nat) :
    roundedSignificand ((2 ^ (54 + more) - 1) * 2 ^ places) *
        2 ^ excess ((2 ^ (54 + more) - 1) * 2 ^ places) =
      2 ^ (54 + more) * 2 ^ places := by
  have hhalf : 2 ^ (54 + more) = 2 * 2 ^ (53 + more) := by
    rw [← Nat.pow_succ']
    congr 1
    omega
  have hsplit : 2 ^ (54 + more) = (2 ^ 53 - 1 + 1) * 2 ^ (more + 1) := by
    rw [Nat.sub_add_cancel (by decide), ← Nat.pow_add]
    congr 1
    omega
  have hpos := Nat.two_pow_pos (53 + more)
  have hlog : (2 ^ (54 + more) - 1).log2 = 53 + more := by
    rw [Nat.log2_eq_iff (by omega), Nat.pow_succ']
    omega
  have hexcess : excess ((2 ^ (54 + more) - 1) * 2 ^ places) = more + 1 + places := by
    rw [excess, ← Nat.shiftLeft_eq, log2_shiftLeft (by omega), hlog]
    omega
  have hrounded : divNearest (2 ^ (54 + more) - 1) (2 ^ (more + 1)) = 2 ^ 53 - 1 + 1 := by
    rw [hsplit]
    exact divNearest_mul_sub_one (by decide) (Nat.le_self_pow (by omega) 2)
  rw [roundedSignificand, hexcess, Nat.pow_add 2 (more + 1),
    divNearest_mul_right _ _ (Nat.two_pow_pos _), hrounded, ← Nat.mul_assoc, hsplit]

/-- A remainder of a number is short by 1 of a remainder of the next one, or of the divisor. -/
theorem mod_of_succ_mod (n : Nat) {divisor : Nat} (hpos : 0 < divisor) :
    n % divisor = if (n + 1) % divisor = 0 then divisor - 1 else (n + 1) % divisor - 1 := by
  have hle : n % divisor + 1 ≤ divisor := Nat.mod_lt n hpos
  have hnext : (n + 1) % divisor = (n % divisor + 1) % divisor := (Nat.mod_add_mod n divisor 1).symm
  rcases hle.eq_or_lt with heq | hlt
  · rw [hnext, heq, Nat.mod_self, if_pos rfl]
    omega
  · rw [hnext, Nat.mod_eq_of_lt hlt, if_neg (Nat.succ_ne_zero _), Nat.add_sub_cancel]

/-- Between a remainder and the divisor there is a number with a significand, unless the greatest
whole number is divided by a power of two that needs more than 53 bits less 1. -/
theorem exists_between {dividend divisor : Nat} (hle : dividend ≤ 2 ^ 63) (hpos : 0 < divisor)
    (hdividend : HasSignificand dividend ∨
      dividend = 2 ^ 63 - 1 ∧ ∀ power, 54 ≤ power → divisor ≠ 2 ^ power)
    (hdivisor : HasSignificand divisor ∨ divisor = 2 ^ 63 - 1) :
    ∃ bound, HasSignificand bound ∧ dividend % divisor ≤ bound ∧ bound < divisor := by
  have hitself (h : HasSignificand (dividend % divisor)) :
      ∃ bound, HasSignificand bound ∧ dividend % divisor ≤ bound ∧ bound < divisor :=
    ⟨_, h, le_rfl, Nat.mod_lt _ hpos⟩
  rcases hdivisor with hdivisor | rfl
  · rcases hdividend with hdividend | ⟨rfl, hpower⟩
    · exact hitself (hdividend.mod hdivisor)
    · have hmod := mod_of_succ_mod (2 ^ 63 - 1) hpos
      rw [Nat.sub_add_cancel Nat.one_le_two_pow] at hmod
      by_cases hzero : 2 ^ 63 % divisor = 0
      · obtain ⟨power, -, rfl⟩ :=
          (Nat.dvd_prime_pow Nat.prime_two).1 (Nat.dvd_of_mod_eq_zero hzero)
        have hfew : power ≤ 53 := by
          by_contra hmany
          exact hpower power (by omega) rfl
        have hbits : 2 ^ power ≤ 2 * leadingBit := Nat.pow_le_pow_right (by decide) hfew
        refine hitself (.of_lt ?_)
        rw [hmod, if_pos hzero]
        omega
      · refine ⟨2 ^ 63 % divisor, (hasSignificand_two_pow 63).mod hdivisor, ?_,
          Nat.mod_lt _ hpos⟩
        rw [hmod, if_neg hzero]
        exact Nat.sub_le _ _
  · apply hitself
    rcases hle.eq_or_lt with rfl | hlt
    · exact .of_lt (by decide)
    · rcases hdividend with hdividend | ⟨rfl, -⟩
      · rcases (Nat.le_sub_one_of_lt hlt).eq_or_lt with rfl | hlt
        · exact .of_lt (by decide)
        · rwa [Nat.mod_eq_of_lt hlt]
      · exact .of_lt (by decide)

section

variable {x y : Float} (hne : truncate y ≠ 0)
include hne

theorem abs_exact_remainder :
    |exact (remainder x y)| =
      (roundedSignificand ((truncate x).natAbs % (truncate y).natAbs * unitsPerOne) *
        2 ^ excess ((truncate x).natAbs % (truncate y).natAbs * unitsPerOne) : ℕ) / unitsPerOne := by
  rw [remainder_eq hne, abs_exact, units_ofWhole (log2_natAbs_tmod_lt (truncate_mem x)),
    Int.natAbs_tmod]

/-- Only the greatest whole number divided by a power of two is rounded up to its divisor. -/
theorem abs_exact_remainder_lt
    (h : truncate x = greatestWhole → ∀ power, 54 ≤ power → (truncate y).natAbs ≠ 2 ^ power) :
    |exact (remainder x y)| < |(truncate y : ℚ)| := by
  have hle := natAbs_le_two_pow (truncate_mem x)
  have hdividend : HasSignificand (truncate x).natAbs ∨ (truncate x).natAbs = 2 ^ 63 - 1 ∧
      ∀ power, 54 ≤ power → (truncate y).natAbs ≠ 2 ^ power :=
    (hasSignificand_truncate x).imp_right fun hgreat ↦ ⟨by rw [hgreat]; rfl, h hgreat⟩
  have hdivisor : HasSignificand (truncate y).natAbs ∨ (truncate y).natAbs = 2 ^ 63 - 1 :=
    (hasSignificand_truncate y).imp_right fun hgreat ↦ by rw [hgreat]; rfl
  obtain ⟨bound, hbound, hrest, hlt⟩ :=
    exists_between hle (Int.natAbs_pos.2 hne) hdividend hdivisor
  have hrounded := rounded_le (Nat.mul_le_mul_right unitsPerOne hrest) hbound.mul_unitsPerOne
  rw [abs_exact_remainder hne, div_lt_iff₀ unitsPerOne_cast_pos, ← Int.cast_abs, ← Nat.cast_natAbs]
  exact_mod_cast hrounded.trans_lt (Nat.mul_lt_mul_of_pos_right hlt unitsPerOne_pos)

theorem abs_exact_remainder_eq (hgreat : truncate x = greatestWhole) {power : Nat}
    (hpower : 54 ≤ power) (hdivisor : (truncate y).natAbs = 2 ^ power) :
    |exact (remainder x y)| = |(truncate y : ℚ)| := by
  obtain ⟨more, rfl⟩ := Nat.exists_eq_add_of_le hpower
  obtain ⟨places, hplaces⟩ : ∃ places, places = 1074 := ⟨1074, rfl⟩
  have hmore : more ≤ 9 := by
    have hle := natAbs_le_two_pow (truncate_mem y)
    rw [hdivisor] at hle
    have := (Nat.pow_le_pow_iff_right (by decide)).1 hle
    omega
  have hrest : greatestWhole.natAbs % 2 ^ (54 + more) = 2 ^ (54 + more) - 1 := by
    have hmod := mod_of_succ_mod greatestWhole.natAbs (Nat.two_pow_pos (54 + more))
    have hdvd : (greatestWhole.natAbs + 1) % 2 ^ (54 + more) = 0 :=
      Nat.mod_eq_zero_of_dvd (Nat.pow_dvd_pow 2 (n := 63) (by omega))
    rwa [if_pos hdvd] at hmod
  rw [abs_exact_remainder hne, hgreat, hdivisor, hrest, unitsPerOne_eq hplaces,
    rounded_two_pow_sub_one, ← unitsPerOne_eq hplaces, Nat.cast_mul,
    mul_div_cancel_right₀ _ unitsPerOne_cast_pos.ne', ← hdivisor, Nat.cast_natAbs, Int.cast_abs]

/-- A remainder is zero or has the sign of the dividend. -/
theorem sign_exact_remainder :
    exact (remainder x y) = 0 ∨
      SignType.sign (exact (remainder x y)) = SignType.sign (truncate x) := by
  have hlog : ((truncate x).tmod (truncate y)).natAbs.log2 < 1023 :=
    log2_natAbs_tmod_lt (truncate_mem x)
  rw [remainder_eq hne]
  rcases lt_trichotomy (truncate x) 0 with hneg | hzero | hpos
  · have hrest : (truncate x).tmod (truncate y) ≤ 0 := by
      have hflipped := Int.tmod_nonneg (truncate y) (neg_nonneg.2 hneg.le)
      rwa [Int.neg_tmod, neg_nonneg] at hflipped
    rcases (exact_ofWhole_nonpos hlog hrest).eq_or_lt with hexact | hexact
    · exact .inl hexact
    · exact .inr (by rw [sign_neg hexact, sign_neg hneg])
  · rw [hzero, Int.zero_tmod, exact_ofWhole (by decide) (.of_lt (by decide))]
    exact .inl rfl
  · have hrest := Int.tmod_nonneg (truncate y) hpos.le
    rcases (exact_ofWhole_nonneg hlog hrest).eq_or_lt with hexact | hexact
    · exact .inl hexact.symm
    · exact .inr (by rw [sign_pos hexact, sign_pos hpos])

end

/-- The remainder is a number that is not beyond the divisor and is zero or has the sign of the
dividend. It is as great as the divisor only if the dividend is beyond the range and the divisor is
a power of two that has more than 53 bits less 1, where the conversion to a double rounds it up. -/
theorem remainder_bounded {x y : Float} (hdivisor : truncate y ≠ 0) :
    (remainder x y).isFinite = true ∧
    |exact (remainder x y)| ≤ |(truncate y : ℚ)| ∧
    (|exact (remainder x y)| = |(truncate y : ℚ)| ↔
      truncate x = greatestWhole ∧ ∃ power, 54 ≤ power ∧ |truncate y| = 2 ^ power) ∧
    (exact (remainder x y) = 0 ∨
      SignType.sign (exact (remainder x y)) = SignType.sign (truncate x)) := by
  have hfinite : (remainder x y).isFinite = true := by
    rw [remainder_eq hdivisor]
    exact isFinite_ofWhole (log2_natAbs_tmod_lt (truncate_mem x))
  have hpower (power : Nat) : |truncate y| = 2 ^ power ↔ (truncate y).natAbs = 2 ^ power := by
    rw [Int.abs_eq_natAbs]
    exact_mod_cast Iff.rfl
  by_cases hgreat : truncate x = greatestWhole ∧ ∃ power, 54 ≤ power ∧ |truncate y| = 2 ^ power
  · obtain ⟨hdividend, power, hmany, hwhole⟩ := hgreat
    have heq := abs_exact_remainder_eq hdivisor hdividend hmany ((hpower power).1 hwhole)
    exact ⟨hfinite, heq.le, iff_of_true heq ⟨hdividend, power, hmany, hwhole⟩,
      sign_exact_remainder hdivisor⟩
  · have hlt : |exact (remainder x y)| < |(truncate y : ℚ)| :=
      abs_exact_remainder_lt hdivisor fun hdividend power hmany hwhole ↦
        hgreat ⟨hdividend, power, hmany, (hpower power).2 hwhole⟩
    exact ⟨hfinite, hlt.le, iff_of_false hlt.ne hgreat, sign_exact_remainder hdivisor⟩

/-- A dividend beyond the range: the remainder `2 ^ 55 - 1` is rounded up, but not to the divisor,
which is `3 * 2 ^ 54`. -/
theorem remainder_bounded_beyond_range :
    let y : Float := 54043195528445952
    truncate y ≠ 0 ∧ (remainder 1e300 y).isFinite = true ∧
      |exact (remainder 1e300 y)| < |(truncate y : ℚ)| := by
  intro y
  have htruncate : truncate y = 3 * 2 ^ 54 := by decide +kernel
  have hdivisor : truncate y ≠ 0 := by
    rw [htruncate]
    decide
  obtain ⟨hfinite, hle, hreaches, -⟩ := remainder_bounded (x := 1e300) hdivisor
  refine ⟨hdivisor, hfinite, hle.lt_of_ne fun heq ↦ ?_⟩
  obtain ⟨-, power, -, hpower⟩ := hreaches.1 heq
  have hthree : (3 : ℤ) ∣ 2 ^ power := by
    rw [← hpower, htruncate]
    exact (dvd_abs _ _).2 (Dvd.intro _ rfl)
  exact absurd (Int.prime_three.dvd_of_dvd_pow hthree) (by decide)

/-- The remainder of a dividend beyond the range by `2 ^ 54` is `2 ^ 54 - 1`, which is no double and
becomes `2 ^ 54`. -/
theorem remainder_reaches_divisor :
    ¬∀ x y : Float, truncate y ≠ 0 →
      (remainder x y).isNaN = false ∧ |exact (remainder x y)| < |(truncate y : ℚ)| ∧
      (exact (remainder x y) = 0 ∨
        SignType.sign (exact (remainder x y)) = SignType.sign (truncate x)) := by
  intro h
  have hunits : units (remainder 1e300 18014398509481984) = 2 ^ 54 * unitsPerOne := by
    decide +kernel
  have htruncate : truncate 18014398509481984 = 2 ^ 54 := by decide +kernel
  have hdivisor : truncate 18014398509481984 ≠ 0 := by decide +kernel
  obtain ⟨-, hlt, -⟩ := h 1e300 18014398509481984 hdivisor
  rw [abs_exact, hunits, htruncate, Nat.cast_mul,
    mul_div_cancel_right₀ _ unitsPerOne_cast_pos.ne'] at hlt
  norm_num at hlt

end Formula.Binary64
