import Mathlib.Order.Interval.Set.Basic
import Formula.Proofs.Multiplication
import Formula.Proofs.Remainder

/-!
# The factorial

The factorial stops multiplying when the product is no longer finite. A product of positive factors
never shrinks, not even where it is rounded, so that from there on it is infinite in any case. For
the same reason the factorial of a greater number is no less, and all of them are infinite from the
first one on that is.
-/

namespace Formula.Binary64

/-- Takes `n`, `n - 1`, down to 2 into what there is so far, one after the other. -/
def descend {α : Type} (step : α → Nat → α) (start : α) : Nat → α
  | 0 => start
  | 1 => start
  | factor + 2 => descend step (step start (factor + 2)) (factor + 1)

/-- What every factor keeps is kept by all of them. -/
theorem descend_related {α β : Type} {step : α → Nat → α} {step' : β → Nat → β} {R : α → β → Prop}
    {start : α} {start' : β} {n : Nat} (h : R start start')
    (hstep : ∀ x y factor, 2 ≤ factor → factor ≤ n → R x y → R (step x factor) (step' y factor)) :
    R (descend step start n) (descend step' start' n) := by
  fun_induction descend step start n generalizing start' with
  | case1 | case2 => exact h
  | case3 start factor ih =>
    have hfirst : R (step start (factor + 2)) (step' start' (factor + 2)) :=
      hstep _ _ _ (Nat.le_add_left 2 factor) (Nat.le_refl _) h
    exact ih hfirst fun x y later hleast hlater ↦ hstep x y later hleast (Nat.le_succ_of_le hlater)

/-- What every factor from two on keeps holds of the whole product. -/
theorem descend_preserves {α : Type} {step : α → Nat → α} {P : α → Prop} {start : α} {n : Nat}
    (h : P start) (hstep : ∀ x factor, 2 ≤ factor → P x → P (step x factor)) :
    P (descend step start n) := by
  have hkeeps (x y : α) (factor : Nat) (hfactor : 2 ≤ factor) (_ : factor ≤ n)
      (hboth : P x ∧ x = y) : P (step x factor) ∧ step x factor = step y factor :=
    ⟨hstep x factor hfactor hboth.1, congrArg (step · factor) hboth.2⟩
  exact (descend_related (R := fun x y ↦ P x ∧ x = y) ⟨h, rfl⟩ hkeeps).1

/-- The product of 1 and of `n`, `n - 1`, down to 2, in this order, whatever it is on the way. -/
def completeProduct (n : Nat) : Float :=
  descend (fun product factor ↦ product * ofWhole factor) 1 n

/-- The bits of a positive double, infinity included, multiplied by a whole number. -/
def scaledBits (bits factor : Nat) : Nat :=
  nearestBits (unitsOfBits bits * unitsOfBits (nearestBits (factor * unitsPerOne) 1)) unitsPerOne

theorem scaledBits_le_infinityBits (bits factor : Nat) : scaledBits bits factor ≤ infinityBits :=
  Nat.min_le_right _ _

theorem scaledBits_mono {bits bits' : Nat} (factor : Nat) (h : bits ≤ bits') :
    scaledBits bits factor ≤ scaledBits bits' factor :=
  nearestBits_mono unitsPerOne_pos (Nat.mul_le_mul_right _ (unitsOfBits_mono h))

/-- A whole number that is rounded to a double does not fall below 1. -/
theorem unitsPerOne_le_units {factor : Nat} (hfactor : 1 ≤ factor) :
    unitsPerOne ≤ unitsOfBits (nearestBits (factor * unitsPerOne) 1) := by
  calc unitsPerOne = unitsOfBits (nearestBits (1 * unitsPerOne) 1) := by decide +kernel
    _ ≤ unitsOfBits (nearestBits (factor * unitsPerOne) 1) :=
      unitsOfBits_mono (nearestBits_mono Nat.one_pos (Nat.mul_le_mul_right _ hfactor))

theorem le_scaledBits {bits factor : Nat} (hbits : bits ≤ infinityBits) (hfactor : 1 ≤ factor) :
    bits ≤ scaledBits bits factor := by
  calc bits = nearestBits (unitsOfBits bits) 1 := (nearestBits_unitsOfBits hbits).symm
    _ = nearestBits (unitsOfBits bits * unitsPerOne) unitsPerOne := by
      rw [← nearestBits_mul_right _ 1 unitsPerOne_pos, Nat.one_mul]
    _ ≤ scaledBits bits factor :=
      nearestBits_mono unitsPerOne_pos (Nat.mul_le_mul_left _ (unitsPerOne_le_units hfactor))

theorem scaledBits_infinityBits {factor : Nat} (hfactor : 1 ≤ factor) :
    scaledBits infinityBits factor = infinityBits :=
  Nat.le_antisymm (scaledBits_le_infinityBits _ _) (le_scaledBits le_rfl hfactor)

theorem isFinite_ofSignBits_iff {bits : Nat} (hbits : bits ≤ infinityBits) :
    (ofSignBits false bits).isFinite = true ↔ bits < infinityBits := by
  constructor
  · intro hfinite
    have hlt := magnitudeBits_lt_of_isFinite hfinite
    rwa [magnitudeBits_ofSignBits false hbits] at hlt
  · intro hlt
    apply isFinite_of_magnitudeBits_lt
    rwa [magnitudeBits_ofSignBits false hbits]

theorem isNaN_ofSignBits {bits : Nat} (hbits : bits ≤ infinityBits) :
    (ofSignBits false bits).isNaN = false := by
  rcases hbits.lt_or_eq with hlt | rfl
  · exact isNaN_of_isFinite ((isFinite_ofSignBits_iff hbits).2 hlt)
  · rfl

/-- Among the bits that are in use only `infinityBits` stand for infinity. -/
theorem infinity_eq_ofSignBits_iff {bits : Nat} (hbits : bits ≤ infinityBits) :
    ofSignBits false bits = infinity false ↔ bits = infinityBits := by
  constructor
  · intro h
    rw [← magnitudeBits_ofSignBits false hbits, h]
    rfl
  · rintro rfl
    rfl

/-- A factor that is a whole number multiplies the bits, also those of infinity. -/
theorem ofSignBits_mul_ofWhole {bits factor : Nat} (hbits : bits ≤ infinityBits)
    (hfactor : 1 ≤ factor) (hlog : factor.log2 < 1023) :
    ofSignBits false bits * ofWhole factor = ofSignBits false (scaledBits bits factor) := by
  have hfinite : (ofWhole factor).isFinite = true := isFinite_ofWhole hlog
  have hsign : isNegative (ofWhole factor) = decide ((factor : Int) < 0) := isNegative_ofWhole hlog
  rw [decide_eq_false (Int.natCast_nonneg factor).not_gt] at hsign
  have hunits : units (ofWhole factor) = unitsOfBits (nearestBits (factor * unitsPerOne) 1) :=
    units_ofSignBits _ (Nat.min_le_right _ _)
  rcases hbits.lt_or_eq with hlt | rfl
  · rw [mul_eq ((isFinite_ofSignBits_iff hbits).2 hlt) hfinite, hsign, hunits,
      isNegative_ofSignBits false hbits, units_ofSignBits false hbits]
    rfl
  · have hpos : units (ofWhole factor) ≠ 0 := by
      rw [hunits]
      exact Nat.ne_of_gt (Nat.lt_of_lt_of_le unitsPerOne_pos (unitsPerOne_le_units hfactor))
    have hmul := infinity_mul false hfinite hpos
    rw [hsign] at hmul
    rw [scaledBits_infinityBits hfactor]
    exact hmul

/-- The bits of a positive double multiplied by `n`, `n - 1`, down to 2. -/
def descendingBits (bits n : Nat) : Nat :=
  descend scaledBits bits n

section

variable {bits : Nat} (hbits : bits ≤ infinityBits)
include hbits

/-- The products never shrink, and they end at infinity. -/
theorem descendingBits_mem (n : Nat) : descendingBits bits n ∈ Set.Icc bits infinityBits := by
  have hstart : bits ∈ Set.Icc bits infinityBits := ⟨Nat.le_refl bits, hbits⟩
  refine descend_preserves hstart fun product factor hfactor hproduct ↦ ?_
  exact ⟨hproduct.1.trans (le_scaledBits hproduct.2 (Nat.le_of_succ_le hfactor)),
    scaledBits_le_infinityBits _ _⟩

/-- One more factor in front does not make the product less. -/
theorem monotone_descendingBits : Monotone (descendingBits bits) := by
  refine monotone_nat_of_le_succ fun n ↦ ?_
  cases n with
  | zero => exact Nat.le_refl bits
  | succ n =>
    have hfirst : bits ≤ scaledBits bits (n + 2) := le_scaledBits hbits (Nat.le_add_left 1 (n + 1))
    exact descend_related hfirst fun _ _ factor _ _ ↦ scaledBits_mono factor

omit hbits in
theorem descendingBits_infinityBits (n : Nat) : descendingBits infinityBits n = infinityBits :=
  Nat.le_antisymm (descendingBits_mem le_rfl n).2 (descendingBits_mem le_rfl n).1

/-- The loop on floats follows the recursion on bits. -/
theorem descend_mul_ofWhole {n : Nat} (hlog : n.log2 < 1023) :
    descend (fun product factor ↦ product * ofWhole factor) (ofSignBits false bits) n =
      ofSignBits false (descendingBits bits n) := by
  refine (descend_related (R := fun x product ↦ x = ofSignBits false product ∧
    product ≤ infinityBits) ⟨rfl, hbits⟩ fun x product factor hfactor hle ⟨hx, hproduct⟩ ↦ ?_).1
  have hless : factor.log2 < 1023 := (log2_mono hle).trans_lt hlog
  rw [hx, ofSignBits_mul_ofWhole hproduct (Nat.le_of_succ_le hfactor) hless]
  exact ⟨rfl, scaledBits_le_infinityBits _ _⟩

/-- Stopping at infinity leaves out only factors that keep it. -/
theorem descendingProduct_ofSignBits {n : Nat} (hlog : n.log2 < 1023) :
    descendingProduct (ofSignBits false bits) n = ofSignBits false (descendingBits bits n) := by
  unfold descendingBits
  fun_induction descend scaledBits bits n with
  | case1 | case2 => rfl
  | case3 bits factor ih =>
    rw [descendingProduct]
    split
    · have hless : (factor + 1).log2 < 1023 := (log2_mono (Nat.le_succ _)).trans_lt hlog
      rw [← ih (scaledBits_le_infinityBits _ _) hless,
        ← ofSignBits_mul_ofWhole hbits (Nat.le_add_left 1 (factor + 1)) hlog]
      rfl
    · next hinfinite =>
      have heq : bits = infinityBits :=
        hbits.eq_of_not_lt fun hlt ↦ hinfinite ((isFinite_ofSignBits_iff hbits).2 hlt)
      have hstays := descendingBits_infinityBits (factor + 2)
      rw [heq]
      exact congrArg (ofSignBits false) hstays.symm

end

/-- The bits of a normal double multiplied by a whole number that needs no rounding: only the
product of the significands is rounded. -/
def scaledFields (bits factor : Nat) : Nat :=
  let significand := (leadingBit + bits % leadingBit) * factor
  min ((bits / leadingBit - 1 + excess significand) * leadingBit + roundedSignificand significand)
    infinityBits

/-- A whole number of at most 53 bits is its own double. -/
theorem unitsOfBits_nearestBits_of_lt {factor : Nat} (hpos : 1 ≤ factor)
    (hfactor : factor < 2 * leadingBit) :
    unitsOfBits (nearestBits (factor * unitsPerOne) 1) = factor * unitsPerOne := by
  have hlog : factor.log2 < 53 := (Nat.log2_lt (Nat.ne_of_gt hpos)).2 hfactor
  have hfinite := fields_lt_infinityBits (n := factor) (hlog.trans (by decide))
  exact (unitsOfBits_nearestBits hfinite.le).trans
    (HasSignificand.of_lt hfactor).mul_unitsPerOne.rounded_eq

theorem scaledBits_eq_scaledFields {bits factor : Nat} (hnormal : leadingBit ≤ bits)
    (hpos : 1 ≤ factor) (hfactor : factor < 2 * leadingBit) :
    scaledBits bits factor = scaledFields bits factor := by
  obtain ⟨places, hplaces⟩ : ∃ places, places = 1074 := ⟨1074, rfl⟩
  obtain ⟨shift, hshift⟩ : ∃ shift, shift = bits / leadingBit - 1 := ⟨_, rfl⟩
  obtain ⟨significand, hsignificand⟩ : ∃ significand,
      significand = (leadingBit + bits % leadingBit) * factor := ⟨_, rfl⟩
  have hproduct : unitsOfBits bits * (factor * unitsPerOne) =
      significand * 2 ^ (shift + places) := by
    have hexponent : bits / leadingBit ≠ 0 := Nat.ne_of_gt (Nat.div_pos hnormal (by decide))
    rw [unitsOfBits, if_neg hexponent, Nat.shiftLeft_eq, unitsPerOne_eq hplaces, Nat.pow_add,
      hsignificand, hshift]
    ring
  have hleading : leadingBit ≤ significand := by
    rw [hsignificand]
    exact (Nat.le_add_right _ _).trans (Nat.le_mul_of_pos_right _ hpos)
  have hnonzero : 0 < significand := Nat.lt_of_lt_of_le (by decide) hleading
  have hlog : 52 ≤ significand.log2 := (Nat.le_log2 (Nat.ne_of_gt hnonzero)).2 hleading
  have hcount : excess significand = max (significand.log2 - 52) (1074 - (shift + places)) := by
    unfold excess
    omega
  have hrounded := nearestBits_mul_two_pow hnonzero (.inl hlog) hcount
    (by omega : excess significand + (shift + places) = 1074 + (shift + excess significand))
  rw [scaledBits, unitsOfBits_nearestBits_of_lt hpos hfactor, hproduct, hrounded, hsignificand,
    hshift]
  rfl

/-- From a normal number on, the recursion needs no case for subnormal products. -/
theorem descendingBits_eq_scaledFields {bits n : Nat}
    (hbits : bits ∈ Set.Icc leadingBit infinityBits) (hn : n < 2 * leadingBit) :
    descendingBits bits n = descend scaledFields bits n := by
  refine (descend_related (R := fun product fields ↦ product = fields ∧
    product ∈ Set.Icc leadingBit infinityBits) ⟨rfl, hbits⟩ ?_).1
  rintro product _ factor hfactor hle ⟨rfl, hleast, hgreatest⟩
  have hpos : 1 ≤ factor := Nat.le_of_succ_le hfactor
  exact ⟨scaledBits_eq_scaledFields hleast hpos (hle.trans_lt hn),
    hleast.trans (le_scaledBits hgreatest hpos), scaledBits_le_infinityBits _ _⟩

def oneBits : Nat := 0x3ff0000000000000

theorem ofSignBits_oneBits : ofSignBits false oneBits = 1 := rfl

theorem oneBits_le_infinityBits : oneBits ≤ infinityBits := by
  decide

/-- The greatest whole number with a finite factorial is 170. -/
theorem descendingBits_oneBits_eq_infinityBits_iff (n : Nat) :
    descendingBits oneBits n = infinityBits ↔ 171 ≤ n := by
  have hone : oneBits ∈ Set.Icc leadingBit infinityBits := ⟨by decide, oneBits_le_infinityBits⟩
  have hmono := monotone_descendingBits oneBits_le_infinityBits
  constructor
  · intro hgreatest
    by_contra hless
    have hfinite : descendingBits oneBits 170 < infinityBits := by
      rw [descendingBits_eq_scaledFields hone (by decide)]
      decide +kernel
    have hle : descendingBits oneBits n ≤ descendingBits oneBits 170 := hmono (by omega)
    omega
  · intro hmany
    have hinfinite : descendingBits oneBits 171 = infinityBits := by
      rw [descendingBits_eq_scaledFields hone (by decide)]
      decide +kernel
    exact Nat.le_antisymm (descendingBits_mem oneBits_le_infinityBits n).2 (hinfinite ▸ hmono hmany)

theorem log2_toNat_truncate_lt (x : Float) : (truncate x).toNat.log2 < 1023 := by
  have hle : (truncate x).toNat ≤ 2 ^ 63 :=
    (by omega : _ ≤ (truncate x).natAbs).trans (natAbs_le_two_pow (truncate_mem x))
  calc (truncate x).toNat.log2 ≤ (2 ^ 63).log2 := log2_mono hle
    _ < 1023 := by decide

/-- The loop with its early exit reaches what the recursion on bits reaches. -/
theorem factorial_eq (x : Float) :
    factorial x = ofSignBits false (descendingBits oneBits (truncate x).toNat) := by
  rw [factorial, ← ofSignBits_oneBits]
  exact descendingProduct_ofSignBits oneBits_le_infinityBits (log2_toNat_truncate_lt x)

/-- The product without an exit is the recursion on bits, too. -/
theorem completeProduct_eq {n : Nat} (hlog : n.log2 < 1023) :
    completeProduct n = ofSignBits false (descendingBits oneBits n) := by
  rw [completeProduct, ← ofSignBits_oneBits]
  exact descend_mul_ofWhole oneBits_le_infinityBits hlog

/-- The factorial is the product of all factors, although it stops at infinity. It is a number or
infinity, 1 for everything below 2 and infinity from 171 on. -/
theorem factorial_eq_completeProduct (x : Float) :
    factorial x = completeProduct (truncate x).toNat ∧
    (factorial x).isNaN = false ∧
    (truncate x < 2 → factorial x = 1) ∧
    (factorial x = infinity false ↔ 171 ≤ truncate x) := by
  have hproduct : descendingBits oneBits (truncate x).toNat ≤ infinityBits :=
    (descendingBits_mem oneBits_le_infinityBits _).2
  refine ⟨?_, ?_, fun hless ↦ ?_, ?_⟩
  · rw [factorial_eq, completeProduct_eq (log2_toNat_truncate_lt x)]
  · rw [factorial_eq]
    exact isNaN_ofSignBits hproduct
  · have hfew : (truncate x).toNat = 0 ∨ (truncate x).toNat = 1 := by omega
    rcases hfew with hzero | hone
    · rw [factorial, hzero, descendingProduct]
    · rw [factorial, hone, descendingProduct]
  · rw [factorial_eq, infinity_eq_ofSignBits_iff hproduct,
      descendingBits_oneBits_eq_infinityBits_iff]
    omega

/-- An argument beyond the range stands for its end, and NaN for 0. -/
theorem factorial_eq_completeProduct_saturated :
    (171 ≤ truncate 1e300 ∧ completeProduct (truncate 1e300).toNat = infinity false) ∧
      truncate nan < 2 ∧ factorial nan = 1 := by
  have hgreat : 171 ≤ truncate 1e300 := by decide +kernel
  have hsmall : truncate nan < 2 := by decide +kernel
  obtain ⟨hproduct, -, -, hinfinite⟩ := factorial_eq_completeProduct 1e300
  obtain ⟨-, -, hone, -⟩ := factorial_eq_completeProduct nan
  exact ⟨⟨hgreat, hproduct.symm.trans (hinfinite.2 hgreat)⟩, hsmall, hone hsmall⟩

end Formula.Binary64
