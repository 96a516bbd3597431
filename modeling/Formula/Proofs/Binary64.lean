import Mathlib.Algebra.Group.Nat.Defs
import Mathlib.Algebra.Ring.Int.Defs
import Formula.Binary64

/-!
# The bits of a double

A double is its sign, its exponent and its fraction, and nothing else: putting the three fields of
its bits together again gives the same double. So a double can be negated by its sign alone, and a
product with -1, which is rounded like any other, is the negation.
-/

namespace Formula.Binary64

open Float.Model Float.Model.UnpackedFloat

theorem toNat_unpackMantissa (b : BitVec 64) :
    (@unpackMantissa .binary64 b).toNat = b.toNat % leadingBit := by
  simp [unpackMantissa, leadingBit]

theorem toNat_unpackExponent (b : BitVec 64) :
    (@unpackExponent .binary64 b).toNat = b.toNat / leadingBit % 2048 := by
  simp [unpackExponent, leadingBit, Nat.shiftRight_eq_div_pow]

theorem toNat_unpackSign (b : BitVec 64) :
    (@unpackSign .binary64 b).toNat = b.toNat / signBit := by
  have := b.isLt
  change ((b.extractLsb 63 63).cast rfl).toNat = b.toNat / signBit
  simp only [signBit, BitVec.toNat_cast, BitVec.extractLsb_toNat, Nat.shiftRight_eq_div_pow]
  omega

/-- The three fields as parts of one number. -/
theorem toNat_packComponents (sign : Sign) (exponent : BitVec 11) (fraction : BitVec 52) :
    (packComponents .binary64 sign exponent fraction).toNat =
      sign.toBitVec.toNat * signBit + exponent.toNat * leadingBit + fraction.toNat := by
  have hfraction : fraction.toNat < 2 ^ 52 := fraction.isLt
  have hexponent : exponent.toNat < 2 ^ 11 := exponent.isLt
  simp only [packComponents, BitVec.toNat_append]
  rw [← Nat.shiftLeft_add_eq_or_of_lt hexponent, ← Nat.shiftLeft_add_eq_or_of_lt hfraction]
  simp only [Nat.shiftLeft_eq, signBit, leadingBit]
  omega

@[simp] theorem toBitVec_ofBitVec (b : BitVec 1) : (Sign.ofBitVec b).toBitVec = b := by
  revert b
  decide

/-- The fields of a pattern of bits are all that there is of it. -/
theorem packComponents_unpack (b : BitVec 64) :
    packComponents .binary64 (Sign.ofBitVec (@unpackSign .binary64 b)) (@unpackExponent .binary64 b)
      (@unpackMantissa .binary64 b) = b := by
  apply BitVec.eq_of_toNat_eq
  rw [toNat_packComponents, toBitVec_ofBitVec, toNat_unpackSign, toNat_unpackExponent,
    toNat_unpackMantissa]
  have := b.isLt
  simp only [signBit, leadingBit]
  omega

/-- The significand of a normal double with this fraction. -/
theorem toNat_leadingBit_append (fraction : BitVec 52) :
    (1#1 ++ fraction).toNat = leadingBit + fraction.toNat := by
  have hfraction : fraction.toNat < 2 ^ 52 := fraction.isLt
  rw [BitVec.toNat_append, ← Nat.shiftLeft_add_eq_or_of_lt hfraction]
  simp [leadingBit, Nat.shiftLeft_eq]

theorem log2_leadingBit_add {fraction : Nat} (h : fraction < leadingBit) :
    (leadingBit + fraction).log2 = 52 := by
  unfold leadingBit at *
  rw [Nat.log2_eq_iff (by omega)]
  omega

theorem log2_lt_of_lt_leadingBit {fraction : Nat} (hpos : 0 < fraction)
    (h : fraction < leadingBit) : fraction.log2 < 52 :=
  (Nat.log2_lt (by omega)).2 h

theorem mantissaBits_eq : Format.binary64.mantissaBits = 53 := rfl

/-- A finite double is infinite if its exponent has no room, and subnormal if its significand does
not reach the leading bit. -/
theorem pack_finite (sign : Sign) {significand biased : Nat} {exponent : Int}
    (hpos : 0 < significand) (hbiased : (exponent + (1023 : Nat) + (52 : Nat)).toNat = biased) :
    UnpackedFloat.pack .binary64 (.finite sign significand exponent hpos) =
      if 2048 ≤ biased + 1 then packedInfinity .binary64 sign
      else if significand.log2 + 1 = 53 then
        packComponents .binary64 sign (BitVec.ofNat 11 biased) (BitVec.ofNat 52 significand)
      else packComponents .binary64 sign 0#11 (BitVec.ofNat 52 significand) := by
  rw [← hbiased]
  rfl

/-- The leading bit of a normal double is not packed. -/
theorem pack_normal (sign : Sign) {exponent : BitVec 11} (fraction : BitVec 52)
    (hfinite : exponent ≠ -1#11) (hpos : 0 < (1#1 ++ fraction).toNat) :
    UnpackedFloat.pack .binary64
        (.finite sign (1#1 ++ fraction).toNat (exponent.toNat - (1023 + 52)) hpos) =
      packComponents .binary64 sign exponent fraction := by
  have hexponent : exponent.toNat ≠ 2047 := fun h ↦ hfinite (BitVec.eq_of_toNat_eq h)
  have hlog : (1#1 ++ fraction).toNat.log2 = 52 := by
    rw [toNat_leadingBit_append, log2_leadingBit_add fraction.isLt]
  have hbiased : ((exponent.toNat : Int) - (1023 + 52) + (1023 : Nat) + (52 : Nat)).toNat =
      exponent.toNat := by omega
  have hlt := exponent.isLt
  have hsignificand : BitVec.ofNat 52 (1#1 ++ fraction).toNat = fraction := by
    apply BitVec.eq_of_toNat_eq
    rw [toNat_leadingBit_append]
    simp [leadingBit, Nat.mod_eq_of_lt fraction.isLt]
  rw [pack_finite sign hpos hbiased, hlog, if_neg (by omega), if_pos rfl, hsignificand,
    BitVec.ofNat_toNat, BitVec.setWidth_eq]

/-- A subnormal double is packed with the least exponent. -/
theorem pack_subnormal (sign : Sign) (fraction : BitVec 52) (hpos : 0 < fraction.toNat) :
    UnpackedFloat.pack .binary64 (.finite sign fraction.toNat (-1074) hpos) =
      packComponents .binary64 sign 0#11 fraction := by
  have hlog := log2_lt_of_lt_leadingBit hpos fraction.isLt
  have hbiased : ((-1074 : Int) + (1023 : Nat) + (52 : Nat)).toNat = 1 := rfl
  rw [pack_finite sign hpos hbiased, if_neg (by decide), if_neg (by omega), BitVec.ofNat_toNat,
    BitVec.setWidth_eq]

inductive Unpacks (sign : Sign) (exponent : BitVec 11) (fraction : BitVec 52) :
    UnpackedFloat → Prop
  | infinity (hexponent : exponent = -1#11) (hfraction : fraction = 0#52) :
      Unpacks sign exponent fraction (.infinity sign)
  | notANumber (hexponent : exponent = -1#11) (hfraction : fraction ≠ 0#52) :
      Unpacks sign exponent fraction .notANumber
  | zero (hexponent : exponent = 0#11) (hfraction : fraction = 0#52) :
      Unpacks sign exponent fraction (.zero sign)
  | subnormal (hexponent : exponent = 0#11) (hpos : 0 < fraction.toNat) :
      Unpacks sign exponent fraction (.finite sign fraction.toNat (-1074) hpos)
  | normal (hspecial : exponent ≠ -1#11) (hzero : exponent ≠ 0#11)
      (hpos : 0 < (1#1 ++ fraction).toNat) :
      Unpacks sign exponent fraction
        (.finite sign (1#1 ++ fraction).toNat (exponent.toNat - (1023 + 52)) hpos)

section Unpacks

variable {sign : Sign} {exponent : BitVec 11} {fraction : BitVec 52} {unpacked : UnpackedFloat}

theorem exists_unpacks (sign : Sign) (exponent : BitVec 11) (fraction : BitVec 52) :
    ∃ unpacked, Unpacks sign exponent fraction unpacked := by
  by_cases hspecial : exponent = -1#11
  · by_cases hfraction : fraction = 0#52
    · exact ⟨_, .infinity hspecial hfraction⟩
    · exact ⟨_, .notANumber hspecial hfraction⟩
  · by_cases hzero : exponent = 0#11
    · by_cases hfraction : fraction = 0#52
      · exact ⟨_, .zero hzero hfraction⟩
      · have hpos := Nat.pos_of_ne_zero fun h ↦ hfraction (BitVec.eq_of_toNat_eq h)
        exact ⟨_, .subnormal hzero hpos⟩
    · have hpos : 0 < (1#1 ++ fraction).toNat := by
        rw [toNat_leadingBit_append]
        exact Nat.add_pos_left (by decide) _
      exact ⟨_, .normal hspecial hzero hpos⟩

/-- A double with the fields is unpacked so. -/
theorem Unpacks.unpack_eq {b : BitVec 64} (h : Unpacks sign exponent fraction unpacked)
    (hsign : Sign.ofBitVec (@unpackSign .binary64 b) = sign)
    (hexponent : @unpackExponent .binary64 b = exponent)
    (hfraction : @unpackMantissa .binary64 b = fraction) :
    UnpackedFloat.unpack .binary64 b = unpacked := by
  subst hsign hexponent hfraction
  have hordinary (hzero : @unpackExponent .binary64 b = 0#11) :
      @unpackExponent .binary64 b ≠ -1#11 := by
    rw [hzero]
    decide
  cases h with
  | infinity hspecial hnone => exact (if_pos hspecial).trans (if_pos hnone)
  | notANumber hspecial hsome => exact (if_pos hspecial).trans (if_neg hsome)
  | zero hzero hnone =>
    exact (if_neg (hordinary hzero)).trans ((if_pos hzero).trans (dif_pos hnone))
  | subnormal hzero hpos =>
    have hsome : @unpackMantissa .binary64 b ≠ 0#52 := fun h ↦ by
      rw [h] at hpos
      cases hpos
    have hleast : ((@unpackExponent .binary64 b).toNat : Int) - (1023 + 52) + 1 = -1074 := by
      rw [hzero]
      rfl
    rw [← hleast]
    exact (if_neg (hordinary hzero)).trans ((if_pos hzero).trans (dif_neg hsome))
  | normal hspecial hzero => exact (if_neg hspecial).trans (if_neg hzero)

/-- A pattern of bits stands for what its fields stand for. -/
theorem unpacks (b : BitVec 64) :
    Unpacks (Sign.ofBitVec (@unpackSign .binary64 b)) (@unpackExponent .binary64 b)
      (@unpackMantissa .binary64 b) (UnpackedFloat.unpack .binary64 b) := by
  obtain ⟨unpacked, h⟩ := exists_unpacks (Sign.ofBitVec (@unpackSign .binary64 b))
    (@unpackExponent .binary64 b) (@unpackMantissa .binary64 b)
  rw [h.unpack_eq rfl rfl rfl]
  exact h

/-- Another sign negates what the other fields stand for. -/
theorem Unpacks.neg (h : Unpacks sign exponent fraction unpacked) :
    Unpacks (-sign) exponent fraction unpacked.neg := by
  cases h with
  | infinity hspecial hnone => exact .infinity hspecial hnone
  | notANumber hspecial hsome => exact .notANumber hspecial hsome
  | zero hzero hnone => exact .zero hzero hnone
  | subnormal hzero hpos => exact .subnormal hzero hpos
  | normal hspecial hzero hpos => exact .normal hspecial hzero hpos

/-- A double is finite unless all bits of its exponent are set. -/
theorem Unpacks.isFinite_iff (h : Unpacks sign exponent fraction unpacked) :
    unpacked.isFinite = true ↔ exponent ≠ -1#11 := by
  cases h with
  | infinity hspecial | notANumber hspecial =>
    exact ⟨nofun, fun hordinary ↦ absurd hspecial hordinary⟩
  | zero hzero | subnormal hzero => exact ⟨fun _ ↦ by rw [hzero]; decide, fun _ ↦ rfl⟩
  | normal hspecial => exact ⟨fun _ ↦ hspecial, fun _ ↦ rfl⟩

end Unpacks

/-- Putting together what a pattern of bits was taken apart into gives it back. -/
theorem pack_unpack {b : BitVec 64} (hvalid : Format.binary64.Valid b) :
    UnpackedFloat.pack .binary64 (UnpackedFloat.unpack .binary64 b) = b := by
  have hfields := packComponents_unpack b
  have hunpacks := unpacks b
  generalize UnpackedFloat.unpack .binary64 b = unpacked at hunpacks ⊢
  cases hunpacks with
  | infinity hexponent hfraction | zero hexponent hfraction =>
    rw [hexponent, hfraction] at hfields
    exact hfields
  | notANumber hexponent hfraction => exact (hvalid.eq_packedNaN hexponent hfraction).symm
  | subnormal hexponent hpos =>
    rw [hexponent] at hfields
    exact (pack_subnormal _ _ hpos).trans hfields
  | normal hspecial _ hpos => exact (pack_normal _ _ hspecial hpos).trans hfields

theorem eq_of_toBits_eq {first second : Float.Model} (h : first.toBits = second.toBits) :
    first = second := by
  cases first
  cases second
  cases h
  rfl

theorem model_pack_unpack (model : Float.Model) : Float.Model.pack model.unpack = model :=
  eq_of_toBits_eq (congrArg UInt64.ofBitVec (pack_unpack model.valid))

/-- A double is known by its bits. -/
theorem ofBits_toBits (x : Float) : Float.ofBits x.toBits = x :=
  congrArg Float.ofModel (model_pack_unpack x.toModel)

/-! ## Multiplying by -1 -/

theorem repeat_shiftRightOne (count significand : Nat) :
    Nat.repeat ExtendedMantissa.shiftRightOne count ⟨significand <<< count, false, false⟩ =
      ⟨significand, false, false⟩ := by
  induction count generalizing significand with
  | zero => rfl
  | succ count ih =>
    rw [Nat.repeat, Nat.shiftLeft_succ_inside, ih]
    simp [ExtendedMantissa.shiftRightOne]

/-- The significands and exponents that a double can have. -/
structure Canonical (significand : Nat) (exponent : Int) : Prop where
  pos : 0 < significand
  lt : significand < 2 * leadingBit
  least : -1074 ≤ exponent
  leading : exponent = -1074 ∨ leadingBit ≤ significand

theorem Canonical.targetExponent_eq {significand : Nat} {exponent : Int}
    (h : Canonical significand exponent) :
    Format.binary64.targetExponent (totalExponent significand exponent) = exponent := by
  have := h.least
  have hne : significand ≠ 0 := Nat.ne_of_gt h.pos
  have hlt : significand.log2 < 53 := (Nat.log2_lt hne).2 h.lt
  have hleading : exponent = -1074 ∨ 52 ≤ significand.log2 :=
    h.leading.imp_right (Nat.le_log2 hne).2
  have hmin : Format.binary64.minExponent = -1074 := rfl
  simp only [Format.targetExponent, totalExponent, mantissaBits_eq, hmin]
  omega

/-- Zeros that were put at the end are shifted off again, with nothing lost. -/
theorem shiftToExponent_shiftLeft (significand count : Nat) (exponent : Int) :
    shiftToExponent (significand <<< count) (exponent - count) .exact exponent =
      (⟨significand, false, false⟩, exponent) := by
  have hcount : (exponent - (exponent - count)).toNat = count := by omega
  simp only [shiftToExponent, hcount]
  refine Prod.ext (repeat_shiftRightOne count significand) ?_
  simp

theorem log2_shiftLeft {significand : Nat} (hpos : significand ≠ 0) (shift : Nat) :
    (significand <<< shift).log2 = significand.log2 + shift := by
  induction shift with
  | zero => rfl
  | succ shift ih =>
    have hshifted : significand <<< shift ≠ 0 := by
      rw [Nat.shiftLeft_eq]
      exact Nat.mul_ne_zero hpos (Nat.ne_of_gt (Nat.two_pow_pos shift))
    rw [Nat.shiftLeft_succ, Nat.log2_two_mul hshifted, ih, Nat.add_assoc]

section

variable (sign : Sign) {mantissa rounded : Nat} {exponent first last : Int} {accuracy : Accuracy}
  {shifted carried : ExtendedMantissa}
  (hfirst : shiftToTargetExponent .binary64 mantissa exponent accuracy = (shifted, first))
  (hrounded : shifted.roundedMantissa = rounded)
  (hsecond : shiftToTargetExponent .binary64 rounded first .exact = (carried, last))

include hfirst hrounded hsecond

/-- Rounding shifts twice: in front of it and, in case it carries, behind it. -/
theorem roundWithAccuracy_of_pos {significand : Nat} (hcarried : carried.mantissa = significand)
    (hpos : 0 < significand) :
    roundWithAccuracy .binary64 sign mantissa exponent accuracy =
      .finite sign significand last hpos := by
  subst hrounded hcarried
  unfold roundWithAccuracy
  rw [hfirst]
  dsimp only
  rw [hsecond]
  exact dif_neg (Nat.ne_of_gt hpos)

theorem roundWithAccuracy_of_eq_zero (hcarried : carried.mantissa = 0) :
    roundWithAccuracy .binary64 sign mantissa exponent accuracy = .zero sign := by
  subst hrounded
  unfold roundWithAccuracy
  rw [hfirst]
  dsimp only
  rw [hsecond]
  exact dif_pos hcarried

end

/-- A product with a power of two needs no rounding. -/
theorem roundWithAccuracy_shiftLeft (sign : Sign) {significand : Nat} {exponent : Int}
    (h : Canonical significand exponent) :
    roundWithAccuracy .binary64 sign (significand <<< 52) (exponent - (52 : Nat)) .exact =
      .finite sign significand exponent h.pos := by
  have hne : significand ≠ 0 := Nat.ne_of_gt h.pos
  have htotal : totalExponent (significand <<< 52) (exponent - (52 : Nat)) =
      totalExponent significand exponent := by
    simp only [totalExponent, log2_shiftLeft hne]
    omega
  have hfirst : shiftToTargetExponent .binary64 (significand <<< 52) (exponent - (52 : Nat))
      .exact = (⟨significand, false, false⟩, exponent) := by
    rw [shiftToTargetExponent, htotal, h.targetExponent_eq, shiftToExponent_shiftLeft]
  have hsecond : shiftToTargetExponent .binary64 significand exponent .exact =
      (⟨significand, false, false⟩, exponent) := by
    rw [shiftToTargetExponent, h.targetExponent_eq]
    simpa using shiftToExponent_shiftLeft significand 0 exponent
  exact roundWithAccuracy_of_pos sign hfirst rfl hsecond rfl h.pos

/-- What a finite double is unpacked to can be the parts of a double. -/
theorem canonical_of_unpack {b : BitVec 64} {sign : Sign} {significand : Nat} {exponent : Int}
    {hpos : 0 < significand}
    (h : UnpackedFloat.unpack .binary64 b = .finite sign significand exponent hpos) :
    Canonical significand exponent := by
  have hfraction : (@unpackMantissa .binary64 b).toNat < leadingBit :=
    (@unpackMantissa .binary64 b).isLt
  have hunpacks := unpacks b
  rw [h] at hunpacks
  cases hunpacks with
  | subnormal => exact ⟨hpos, by omega, by decide, .inl rfl⟩
  | normal _ hnormal =>
    have hexponent : (@unpackExponent .binary64 b).toNat ≠ 0 :=
      fun hzero ↦ hnormal (BitVec.eq_of_toNat_eq hzero)
    have hsignificand := toNat_leadingBit_append (@unpackMantissa .binary64 b)
    exact ⟨hpos, by omega, by omega, .inr (by omega)⟩

theorem unpack_neg_one :
    (-1 : Float).toModel.unpack = .finite .negative (2 ^ 52) (-52) (by decide) :=
  rfl

theorem negative_mul (sign : Sign) : Sign.negative * sign = -sign := by
  cases sign <;> rfl

/-- A product with -1 is rounded to the negation itself. -/
theorem neg_one_mul (x : Float) : -1 * x = -x := by
  have hmul : UnpackedFloat.mul .binary64 (-1 : Float).toModel.unpack x.toModel.unpack =
      x.toModel.unpack.neg := by
    rw [unpack_neg_one]
    cases hunpack : x.toModel.unpack with
    | infinity sign => exact congrArg UnpackedFloat.infinity (negative_mul sign)
    | notANumber => rfl
    | zero sign => exact congrArg UnpackedFloat.zero (negative_mul sign)
    | finite sign significand exponent hpos =>
      have hsignificand : 2 ^ 52 * significand = significand <<< 52 := by
        rw [Nat.shiftLeft_eq, Nat.mul_comm]
      have hexponent : (-52 : Int) + exponent = exponent - (52 : Nat) := by omega
      change roundWithAccuracy .binary64 (.negative * sign) (2 ^ 52 * significand) (-52 + exponent)
        .exact = _
      rw [negative_mul, hsignificand, hexponent]
      exact roundWithAccuracy_shiftLeft (-sign) (canonical_of_unpack hunpack)
  exact congrArg (fun unpacked ↦ Float.ofModel (Float.Model.pack unpacked)) hmul

theorem toNat_toBits_lt (x : Float) : x.toBits.toNat < 2 * signBit :=
  x.toBits.toNat_lt

/-- A double is its sign and its magnitude put together. -/
theorem ofSignBits_magnitudeBits (x : Float) : ofSignBits (isNegative x) (magnitudeBits x) = x := by
  have hlt := toNat_toBits_lt x
  have hbits : (if isNegative x then signBit + magnitudeBits x else magnitudeBits x) =
      x.toBits.toNat := by
    unfold isNegative magnitudeBits
    split
    · next hnegative =>
      have hle : signBit ≤ x.toBits.toNat := of_decide_eq_true hnegative
      rw [Nat.mod_eq_sub_mod hle, Nat.mod_eq_of_lt (by omega)]
      omega
    · next hpositive =>
      have hlt : x.toBits.toNat < signBit := by simpa using hpositive
      exact Nat.mod_eq_of_lt hlt
  rw [ofSignBits, hbits, UInt64.ofNat_toNat, ofBits_toBits]

/-- The magnitudes of finite doubles are those below infinity. -/
theorem magnitudeBits_lt_of_isFinite {x : Float} (hfinite : x.isFinite) :
    magnitudeBits x < infinityBits := by
  have hexponent := (unpacks x.toBits.toBitVec).isFinite_iff.1 hfinite
  have hfield : (@unpackExponent .binary64 x.toBits.toBitVec).toNat ≠ 2047 :=
    fun h ↦ hexponent (BitVec.eq_of_toNat_eq h)
  rw [toNat_unpackExponent] at hfield
  have hlt := toNat_toBits_lt x
  change x.toBits.toNat / leadingBit % 2048 ≠ 2047 at hfield
  simp only [magnitudeBits, infinityBits, signBit, leadingBit] at *
  omega

theorem isNaN_of_isFinite {x : Float} (hfinite : x.isFinite) : x.isNaN = false := by
  have hmodel : x.toModel.unpack.isFinite = true := hfinite
  change x.toModel.unpack.isNaN = false
  cases hunpack : x.toModel.unpack with
  | notANumber =>
    rw [hunpack] at hmodel
    cases hmodel
  | infinity | zero | finite => rfl

/-- The sign bit negates what the other bits stand for. -/
theorem unpack_signBit_add {b negated : BitVec 64} (h : negated.toNat = signBit + b.toNat) :
    UnpackedFloat.unpack .binary64 negated = (UnpackedFloat.unpack .binary64 b).neg := by
  have hlt := negated.isLt
  have hmantissa : @unpackMantissa .binary64 negated = @unpackMantissa .binary64 b := by
    apply BitVec.eq_of_toNat_eq
    rw [toNat_unpackMantissa, toNat_unpackMantissa, h]
    simp only [signBit, leadingBit]
    omega
  have hexponent : @unpackExponent .binary64 negated = @unpackExponent .binary64 b := by
    apply BitVec.eq_of_toNat_eq
    rw [toNat_unpackExponent, toNat_unpackExponent, h]
    simp only [signBit, leadingBit]
    omega
  have hsign : @unpackSign .binary64 negated = 1#1 ∧ @unpackSign .binary64 b = 0#1 := by
    constructor <;> apply BitVec.eq_of_toNat_eq <;> rw [toNat_unpackSign] <;>
      simp only [signBit, BitVec.toNat_ofNat] at * <;> omega
  have hopposite : Sign.ofBitVec (@unpackSign .binary64 negated) =
      -Sign.ofBitVec (@unpackSign .binary64 b) := by
    rw [hsign.1, hsign.2]
    rfl
  exact (unpacks b).neg.unpack_eq hopposite hexponent hmantissa

/-- A double is negated by its sign alone. -/
theorem neg_ofSignBits {bits : Nat} (hbits : bits < infinityBits) :
    -ofSignBits false bits = ofSignBits true bits := by
  have hlt : bits < 2 ^ 63 := Nat.lt_trans hbits (by decide)
  have htoNat : (UInt64.ofNat bits).toBitVec.toNat = bits := by
    rw [UInt64.toNat_toBitVec, UInt64.toNat_ofNat']
    exact Nat.mod_eq_of_lt (by omega)
  have hnegated : (UInt64.ofNat (signBit + bits)).toBitVec.toNat =
      signBit + (UInt64.ofNat bits).toBitVec.toNat := by
    rw [htoNat, UInt64.toNat_toBitVec, UInt64.toNat_ofNat']
    exact Nat.mod_eq_of_lt (by unfold signBit; omega)
  have hvalid : Format.binary64.Valid (UInt64.ofNat bits).toBitVec := by
    refine ⟨fun hexponent _ ↦ ?_⟩
    have hfield := congrArg BitVec.toNat hexponent
    rw [toNat_unpackExponent, htoNat] at hfield
    change bits / leadingBit % 2048 = 2047 at hfield
    simp only [infinityBits, leadingBit] at *
    omega
  have hunpacked : (Float.ofBits (UInt64.ofNat bits)).toModel.unpack =
      UnpackedFloat.unpack .binary64 (UInt64.ofNat bits).toBitVec :=
    congrArg (UnpackedFloat.unpack .binary64) (pack_unpack hvalid)
  change Float.ofModel (Float.Model.pack (Float.ofBits (UInt64.ofNat bits)).toModel.unpack.neg) = _
  rw [hunpacked, ← unpack_signBit_add hnegated]
  rfl

theorem some_beq_some_eq_congr {first second : Ordering} (h : first = .eq ↔ second = .eq) :
    (some first == some .eq) = (some second == some .eq) := by
  rw [Option.some_beq_some, Option.some_beq_some, Bool.eq_iff_iff, beq_iff_eq, beq_iff_eq]
  exact h

theorem unpacked_beq_comm (x y : UnpackedFloat) : x.beq y = y.beq x := by
  cases x with
  | notANumber => cases y <;> rfl
  | infinity sign =>
    cases y with
    | infinity other => cases sign <;> cases other <;> rfl
    | finite other => cases sign <;> cases other <;> rfl
    | _ => cases sign <;> rfl
  | zero sign =>
    cases y with
    | infinity other => cases other <;> rfl
    | finite other => cases other <;> rfl
    | _ => rfl
  | finite sign significand exponent =>
    cases y with
    | infinity other => cases sign <;> cases other <;> rfl
    | finite other significand' exponent' =>
      have hboth : (compare exponent exponent').then (compare significand significand') = .eq ↔
          (compare exponent' exponent).then (compare significand' significand) = .eq := by
        simp only [Ordering.then_eq_eq, Std.LawfulEqCmp.compare_eq_iff_eq]
        exact and_congr eq_comm eq_comm
      cases sign <;> cases other
      · exact some_beq_some_eq_congr (by rw [Ordering.swap_eq_eq, Ordering.swap_eq_eq, hboth])
      · rfl
      · rfl
      · exact some_beq_some_eq_congr hboth
    | _ => cases sign <;> rfl

/-- Equality of doubles is symmetric, though not reflexive. -/
theorem beq_comm (x y : Float) : (x == y) = (y == x) :=
  unpacked_beq_comm x.toModel.unpack y.toModel.unpack

theorem unpack_two : (2 : Float).toModel.unpack = .finite .positive (2 ^ 52) (-51) (by decide) :=
  rfl

theorem eq_of_unpack_eq {x y : Float} (h : x.toModel.unpack = y.toModel.unpack) : x = y := by
  have hmodel : x.toModel = y.toModel := by
    rw [← model_pack_unpack x.toModel, h, model_pack_unpack]
  exact congrArg Float.ofModel hmodel

/-- No other double compares equal to 2. -/
theorem beq_two_iff (x : Float) : (x == 2) = true ↔ x = 2 := by
  constructor
  · intro hequal
    have hcompare :
        (x.toModel.unpack.compare (2 : Float).toModel.unpack == some .eq) = true := hequal
    rw [unpack_two] at hcompare
    apply eq_of_unpack_eq
    rw [unpack_two]
    cases hunpack : x.toModel.unpack with
    | notANumber => rw [hunpack] at hcompare; cases hcompare
    | infinity sign => cases sign <;> rw [hunpack] at hcompare <;> cases hcompare
    | zero sign => rw [hunpack] at hcompare; cases hcompare
    | finite sign significand exponent hpos =>
      rw [hunpack] at hcompare
      cases sign with
      | negative => cases hcompare
      | positive =>
        have hboth : (compare exponent (-51)).then (compare significand (2 ^ 52)) = .eq :=
          Option.some.inj (eq_of_beq hcompare)
        rw [Ordering.then_eq_eq, Std.LawfulEqCmp.compare_eq_iff_eq,
          Std.LawfulEqCmp.compare_eq_iff_eq] at hboth
        obtain ⟨rfl, rfl⟩ := hboth
        rfl
  · intro hequal
    rw [hequal]
    decide

end Formula.Binary64
