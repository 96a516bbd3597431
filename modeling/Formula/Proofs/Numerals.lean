import Formula.Decimal.Layout
import Formula.Decimal.Numeral
import Formula.Proofs.Rounding

/-!
# Numerals

The positional form of a number is a run of digits, maybe with a point inside, and reading it gives
a decimal of the same value. So the magnitude of every finite double reads back as it is shown.
-/

namespace Formula

section

variable {matching : Char → Bool} {run rest : List Char}

/-- A run that matches is taken as a whole if what follows does not match. -/
theorem takeWhile_run (hrun : ∀ c ∈ run, matching c)
    (hrest : ∀ c ∈ rest.head?, matching c = false) :
    (run ++ rest).takeWhile matching = run := by
  rw [List.takeWhile_append_of_pos hrun]
  cases rest with
  | nil => simp
  | cons c rest => simp [hrest c rfl]

theorem dropWhile_run (hrun : ∀ c ∈ run, matching c)
    (hrest : ∀ c ∈ rest.head?, matching c = false) :
    (run ++ rest).dropWhile matching = rest := by
  rw [List.dropWhile_append_of_pos hrun]
  cases rest with
  | nil => rfl
  | cons c rest => simp [hrest c rfl]

end

namespace Decimal

def IsDigits (text : List Char) : Prop :=
  text ≠ [] ∧ ∀ c ∈ text, c.isDigit

/-- Digits, maybe with a point inside. -/
inductive IsNumeral : List Char → Prop where
  | whole {digits : List Char} (h : IsDigits digits) : IsNumeral digits
  | pointed {digits fraction : List Char} (hdigits : IsDigits digits)
      (hfraction : IsDigits fraction) : IsNumeral (digits ++ '.' :: fraction)

theorem IsDigits.takeWhile {digits : List Char} (h : IsDigits digits) :
    digits.takeWhile Char.isDigit = digits := by
  simpa using @takeWhile_run Char.isDigit digits [] h.2 (by simp)

theorem IsDigits.dropWhile {digits : List Char} (h : IsDigits digits) :
    digits.dropWhile Char.isDigit = [] := by
  simpa using @dropWhile_run Char.isDigit digits [] h.2 (by simp)

theorem isDigits_digits (number : Decimal) : IsDigits number.digits :=
  ⟨Nat.toDigits_ne_nil, fun _ hc ↦ Nat.isDigit_of_mem_toDigits (by decide) (by decide) hc⟩

theorem isDigit_of_mem_replicate {count : Nat} {c : Char} (h : c ∈ List.replicate count '0') :
    c.isDigit := by
  rw [List.eq_of_mem_replicate h]
  rfl

/-- A numeral starts with a digit. -/
theorem IsNumeral.exists_digit {text : List Char} (h : IsNumeral text) :
    ∃ c rest, text = c :: rest ∧ c.isDigit := by
  have hfirst {digits : List Char} (hdigits : IsDigits digits) :
      ∃ c rest, digits = c :: rest ∧ c.isDigit := by
    cases digits with
    | nil => exact absurd rfl hdigits.1
    | cons c rest => exact ⟨c, rest, rfl, hdigits.2 c List.mem_cons_self⟩
  cases h with
  | whole hdigits => exact hfirst hdigits
  | pointed hdigits _ =>
    obtain ⟨c, rest, rfl, hc⟩ := hfirst hdigits
    exact ⟨c, _, rfl, hc⟩

/-- Digits alone read as the whole number that they write. -/
theorem ofText?_digits {digits : List Char} (h : IsDigits digits) :
    ofText? digits = some ⟨wholeOfDigits digits, 0⟩ := by
  rw [ofText?, h.takeWhile, h.dropWhile]
  simp [splitFraction, exponent?, h.1]

/-- Digits behind a point lower the exponent by one each. -/
theorem ofText?_pointed {digits fraction : List Char} (hdigits : IsDigits digits)
    (hfraction : IsDigits fraction) :
    ofText? (digits ++ '.' :: fraction) =
      some ⟨wholeOfDigits (digits ++ fraction), -fraction.length⟩ := by
  have hpoint : ∀ c ∈ ('.' :: fraction).head?, c.isDigit = false := by simp
  rw [ofText?, takeWhile_run hdigits.2 hpoint, dropWhile_run hdigits.2 hpoint]
  simp [splitFraction, exponent?, hfraction.takeWhile, hfraction.dropWhile, hdigits.1]

/-- The digits with as many zeros before them as it takes to put a point inside. -/
def padded (number : Decimal) (places : Nat) : List Char :=
  List.replicate (places + 1 - number.digits.length) '0' ++ number.digits

theorem wholeOfDigits_padded (number : Decimal) (places : Nat) :
    wholeOfDigits (number.padded places) = number.significand := by
  unfold wholeOfDigits padded digits
  rw [Nat.ofDigitChars_append, Nat.ofDigitChars_replicate_zero, Nat.mul_zero,
    Nat.ofDigitChars_ten_toDigits]

theorem wholeOfDigits_append_zeros (number : Decimal) (count : Nat) :
    wholeOfDigits (number.digits ++ List.replicate count '0') =
      number.significand * 10 ^ count := by
  unfold wholeOfDigits digits
  rw [Nat.ofDigitChars_append, Nat.ofDigitChars_replicate_zero, Nat.ofDigitChars_ten_toDigits,
    Nat.mul_comm]

theorem isDigit_of_mem_padded {number : Decimal} {places : Nat} {c : Char}
    (h : c ∈ number.padded places) : c.isDigit := by
  rcases List.mem_append.1 h with hzero | hdigit
  · exact isDigit_of_mem_replicate hzero
  · exact number.isDigits_digits.2 c hdigit

/-- Padding leaves at least one digit in front of the point. -/
theorem lt_length_padded (number : Decimal) (places : Nat) :
    places < (number.padded places).length := by
  rw [padded, List.length_append, List.length_replicate]
  omega

/-- How many digits stand before a point that has this many places after it. -/
def wholeLength (number : Decimal) (places : Nat) : Nat :=
  (number.padded places).length - places

theorem isDigits_take_padded (number : Decimal) (places : Nat) :
    IsDigits ((number.padded places).take (number.wholeLength places)) := by
  have hlt := number.lt_length_padded places
  refine ⟨fun hnil ↦ ?_, fun c hc ↦ isDigit_of_mem_padded (List.mem_of_mem_take hc)⟩
  have hlength := congrArg List.length hnil
  rw [List.length_take, wholeLength, List.length_nil] at hlength
  omega

theorem length_drop_padded (number : Decimal) (places : Nat) :
    ((number.padded places).drop (number.wholeLength places)).length = places := by
  have hlt := number.lt_length_padded places
  rw [List.length_drop, wholeLength]
  omega

theorem isDigits_drop_padded (number : Decimal) (power : Nat) :
    IsDigits ((number.padded (power + 1)).drop (number.wholeLength (power + 1))) := by
  refine ⟨fun hnil ↦ ?_, fun c hc ↦ isDigit_of_mem_padded (List.mem_of_mem_drop hc)⟩
  have hlength := number.length_drop_padded (power + 1)
  rw [hnil] at hlength
  cases hlength

/-- Without a negative exponent the digits stand first and the zeros behind. -/
theorem toList_positional_ofNat (number : Decimal) {power : Nat}
    (hexponent : number.exponent = .ofNat power) :
    number.positional.toList = number.digits ++ List.replicate power '0' := by
  simp [positional, positionalParts, hexponent]

/-- With a negative exponent the point stands among the padded digits. -/
theorem toList_positional_negSucc (number : Decimal) {power : Nat}
    (hexponent : number.exponent = .negSucc power) :
    number.positional.toList =
      (number.padded (power + 1)).take (number.wholeLength (power + 1)) ++ '.' ::
        (number.padded (power + 1)).drop (number.wholeLength (power + 1)) := by
  have hparts : number.positionalParts =
      ((number.padded (power + 1)).take (number.wholeLength (power + 1)),
        (number.padded (power + 1)).drop (number.wholeLength (power + 1))) := by
    simp only [positionalParts, hexponent, List.splitAt_eq]
    rfl
  have hfraction := (number.isDigits_drop_padded power).1
  rw [positional, hparts]
  split
  · next hnil => exact absurd (congrArg Prod.snd hnil) hfraction
  · next heq =>
    obtain ⟨hwhole, hrest⟩ := Prod.mk.inj heq
    rw [hwhole, hrest, String.toList_ofList]

theorem IsNumeral.splitSign_eq {text : List Char} (h : IsNumeral text) :
    splitSign text = (false, text) := by
  obtain ⟨c, rest, rfl, hc⟩ := h.exists_digit
  unfold splitSign
  split
  · next heq => cases heq; cases hc
  · next heq => cases heq; cases hc
  · rfl

/-- The positional form is a numeral, and reads back as a decimal of the same value. -/
theorem positional_spec (number : Decimal) :
    IsNumeral number.positional.toList ∧
      ∃ read, ofText? number.positional.toList = some read ∧
        read.nearestBits = number.nearestBits := by
  cases hexponent : number.exponent with
  | ofNat power =>
    have hdigits : IsDigits (number.digits ++ List.replicate power '0') := by
      refine ⟨by simp [number.isDigits_digits.1], fun c hc ↦ ?_⟩
      rcases List.mem_append.1 hc with hdigit | hzero
      · exact number.isDigits_digits.2 c hdigit
      · exact isDigit_of_mem_replicate hzero
    rw [number.toList_positional_ofNat hexponent]
    refine ⟨.whole hdigits, _, ofText?_digits hdigits, Same.nearestBits_eq ?_⟩
    rw [wholeOfDigits_append_zeros, Same, unitQuotient, unitQuotient, hexponent]
    change number.significand * 10 ^ power * 10 ^ 0 * Binary64.unitsPerOne * 1 =
      number.significand * 10 ^ power * Binary64.unitsPerOne * 1
    rw [Nat.pow_zero, Nat.mul_one (number.significand * 10 ^ power)]
  | negSucc power =>
    have hwhole := number.isDigits_take_padded (power + 1)
    have hfraction := number.isDigits_drop_padded power
    have hread := ofText?_pointed hwhole hfraction
    rw [List.take_append_drop, wholeOfDigits_padded, length_drop_padded] at hread
    rw [number.toList_positional_negSucc hexponent]
    refine ⟨.pointed hwhole hfraction, _, hread, congrArg nearestBits ?_⟩
    cases number
    cases hexponent
    rfl

/-- The magnitude of a finite double is shown as a numeral, and reads back as the same bits. -/
theorem showMagnitude_spec {x : Float} (hfinite : x.isFinite) :
    IsNumeral (showMagnitude x).toList ∧
      readFloat? (showMagnitude x) =
        some (Binary64.ofSignBits false (Binary64.magnitudeBits x)) := by
  have hlt := Binary64.magnitudeBits_lt_of_isFinite hfinite
  have hnan := Binary64.isNaN_of_isFinite hfinite
  have hshown : showMagnitude x = (shortest (Binary64.magnitudeBits x)).positional := by
    rw [showMagnitude, hnan, if_neg (by simp), if_neg (Nat.ne_of_lt hlt)]
  rw [hshown]
  obtain ⟨hnumeral, read, hread, hbits⟩ := (shortest (Binary64.magnitudeBits x)).positional_spec
  refine ⟨hnumeral, ?_⟩
  simp only [readFloat?, hnumeral.splitSign_eq, hread, toFloat, hbits, nearestBits_shortest hlt]

end Decimal

end Formula
