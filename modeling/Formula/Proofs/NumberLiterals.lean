import Mathlib.Tactic.FieldSimp
import Mathlib.Tactic.LinearCombination
import Mathlib.Tactic.NormNum
import Formula.Proofs.BuildFailures
import Formula.Proofs.ExactValue
import Formula.Proofs.Reentry
import Formula.Proofs.Spacing

/-!
# Number literals

A literal of any length stands for the double nearest to it, which is finite below the middle
between the greatest double and the next power of two. Written out, every finite double reads back
as itself. From the middle on a literal stands for infinity, which is written as a word, and the
word reads back as a name. So the text of an expression can mention a variable that the expression
does not have, and exactly the literals that are not finite make it do so.
-/

namespace Formula

namespace Binary64

/-- A quotient is rounded to less than an even number exactly if it is more than a half below it:
the half itself goes to the even number. -/
theorem divNearest_lt_iff (num : Nat) {den bound : Nat} (hden : 0 < den) (hbound : 0 < bound)
    (heven : bound % 2 = 0) : divNearest num den < bound ↔ 2 * num + den < 2 * (bound * den) := by
  have hsplit := Nat.div_add_mod' num den
  have hmod := Nat.mod_lt num hden
  dsimp only [divNearest]
  generalize num / den = quotient at *
  generalize num % den = rest at *
  rcases Nat.lt_trichotomy (quotient + 1) bound with hlt | rfl | hgt
  · have hle : (quotient + 2) * den ≤ bound * den := Nat.mul_le_mul_right den hlt
    rw [Nat.add_mul] at hle
    split <;> omega
  · rw [Nat.add_mul, Nat.one_mul]
    split <;> omega
  · have hle : bound * den ≤ quotient * den := Nat.mul_le_mul_right den (by omega)
    split <;> omega

/-- The nearest double is finite below the middle between the greatest one, which has `2 ^ 53 - 1`
of the largest steps, and the next power of two. -/
theorem nearestBits_lt_infinityBits_iff {num den places : Nat} (hplaces : places = 2045)
    (hden : 0 < den) :
    nearestBits num den < infinityBits ↔
      2 * num + den * 2 ^ places < 2 * (2 * leadingBit * (den * 2 ^ places)) := by
  let shift := excess (num / den)
  let step := den * 2 ^ shift
  have hstep : 0 < step := Nat.mul_pos hden (Nat.two_pow_pos shift)
  have hbits : nearestBits num den < infinityBits ↔
      shift * leadingBit + divNearest num step < 2047 * leadingBit := by
    rw [nearestBits, Nat.shiftLeft_eq]
    change min (shift * leadingBit + divNearest num step) (2047 * leadingBit) <
      2047 * leadingBit ↔ _
    omega
  have hupper : num < 2 * leadingBit * step := lt_mul_step hden
  have hlower (hshift : shift ≠ 0) : leadingBit * step ≤ num := mul_step_le hden hshift
  rw [hbits]
  -- Only at the largest steps does rounding decide; smaller ones cannot carry as far as infinity,
  -- and larger ones are beyond it.
  rcases Nat.lt_trichotomy shift places with hlt | heq | hgt
  · have hhalf : step * 2 ≤ den * 2 ^ places := by
      rw [Nat.mul_assoc, ← Nat.pow_succ]
      exact Nat.mul_le_mul_left den (Nat.pow_le_pow_right (by decide) hlt)
    have hrounded : divNearest num step ≤ 2 * leadingBit := divNearest_le (Nat.le_of_lt hupper)
    simp only [leadingBit] at *
    omega
  · have hrounded := divNearest_lt_iff num hstep (by decide : 0 < 2 * leadingBit) rfl
    have hsame : den * 2 ^ places = step := by rw [← heq]
    rw [hsame, ← hrounded]
    simp only [leadingBit] at *
    omega
  · have hdouble : den * 2 ^ places * 2 ≤ step := by
      rw [Nat.mul_assoc, ← Nat.pow_succ]
      exact Nat.mul_le_mul_left den (Nat.pow_le_pow_right (by decide) hgt)
    have hlarge := hlower (by omega)
    have hrounded : leadingBit ≤ divNearest num step := le_divNearest hstep hlarge
    simp only [leadingBit] at *
    omega

end Binary64

namespace Decimal

def exact (number : Decimal) : ℚ :=
  number.significand * 10 ^ number.exponent

/-- The quotient of units is the exact value, counted in units. -/
theorem exact_mul_unitsPerOne (number : Decimal) :
    number.exact * Binary64.unitsPerOne * number.unitQuotient.2 = number.unitQuotient.1 := by
  obtain ⟨significand, exponent⟩ := number
  cases exponent with
  | ofNat power =>
    simp only [exact, unitQuotient, Int.ofNat_eq_natCast, zpow_natCast]
    push_cast
    ring
  | negSucc power =>
    have hpower : (10 : ℚ) ^ (power + 1) ≠ 0 := by positivity
    simp only [exact, unitQuotient, zpow_negSucc]
    push_cast
    field_simp

/-- The next power of two is half a largest step above the middle. Both are counted in units and
doubled. -/
theorem middle_mul_unitsPerOne :
    ((2 : ℚ) ^ 1024 - 2 ^ 970) * Binary64.unitsPerOne * 2 + 2 ^ 2045 =
      2 * (2 * Binary64.leadingBit * 2 ^ 2045) := by
  have hpowers (low places : Nat) :
      ((2 : ℚ) ^ (low + 54) - 2 ^ low) * 2 ^ places * 2 + 2 ^ (low + places + 1) =
        2 * (2 * 2 ^ 52 * 2 ^ (low + places + 1)) := by
    ring
  have hleading : (Binary64.leadingBit : ℚ) = 2 ^ 52 := by
    norm_num [Binary64.leadingBit]
  obtain ⟨places, hplaces⟩ : ∃ places, places = 1074 := ⟨1074, rfl⟩
  have hbeyond : 2045 = 970 + places + 1 := by omega
  rw [hleading, Binary64.unitsPerOne_eq hplaces, Nat.cast_pow, Nat.cast_ofNat, hbeyond]
  exact hpowers 970 places

theorem nearestBits_lt_infinityBits_iff (number : Decimal) :
    number.nearestBits < Binary64.infinityBits ↔ number.exact < 2 ^ 1024 - 2 ^ 970 := by
  have hexact := number.exact_mul_unitsPerOne
  have hmiddle := middle_mul_unitsPerOne
  have hden : (0 : ℚ) < number.unitQuotient.2 := Nat.cast_pos.2 number.unitQuotient_snd_pos
  have hscale : 0 < (Binary64.unitsPerOne : ℚ) * 2 * number.unitQuotient.2 :=
    mul_pos (mul_pos Binary64.unitsPerOne_cast_pos two_pos) hden
  rw [number.nearestBits_eq,
    Binary64.nearestBits_lt_infinityBits_iff rfl number.unitQuotient_snd_pos,
    ← @Nat.cast_lt ℚ]
  simp only [Nat.cast_add, Nat.cast_mul, Nat.cast_pow, Nat.cast_ofNat]
  generalize (2 : ℚ) ^ 1024 - 2 ^ 970 = middle at *
  generalize (2 : ℚ) ^ 2045 = step at *
  have hbound : 2 * (2 * Binary64.leadingBit * (number.unitQuotient.2 * step)) =
      middle * (Binary64.unitsPerOne * 2 * number.unitQuotient.2) +
        number.unitQuotient.2 * step := by
    linear_combination (-number.unitQuotient.2 : ℚ) * hmiddle
  have hnumber : 2 * (number.unitQuotient.1 : ℚ) =
      number.exact * (Binary64.unitsPerOne * 2 * number.unitQuotient.2) := by
    linear_combination -2 * hexact
  rw [hbound, hnumber, add_lt_add_iff_right, mul_lt_mul_iff_of_pos_right hscale]

theorem nearestBits_le (number : Decimal) : number.nearestBits ≤ Binary64.infinityBits := by
  rw [number.nearestBits_eq]
  exact Nat.min_le_right _ _

/-- A decimal is read as a finite float exactly if its bits stay below those of infinity. -/
theorem isFinite_toFloat_iff_nearestBits (negative : Bool) (number : Decimal) :
    (number.toFloat negative).isFinite = true ↔ number.nearestBits < Binary64.infinityBits := by
  rw [← Binary64.magnitudeBits_ofSignBits negative number.nearestBits_le]
  exact ⟨Binary64.magnitudeBits_lt_of_isFinite, Binary64.isFinite_of_magnitudeBits_lt⟩

/-- The double of a number is finite exactly below the middle, whatever the sign. -/
theorem isFinite_toFloat_iff (negative : Bool) (number : Decimal) :
    (number.toFloat negative).isFinite = true ↔ number.exact < 2 ^ 1024 - 2 ^ 970 := by
  rw [isFinite_toFloat_iff_nearestBits, nearestBits_lt_infinityBits_iff]

theorem isFinite_neg_toFloat {number : Decimal} (h : (number.toFloat false).isFinite = true) :
    (-number.toFloat false).isFinite = true := by
  have hbits := (number.isFinite_toFloat_iff_nearestBits false).1 h
  rw [toFloat, Binary64.neg_ofSignBits hbits]
  exact (number.isFinite_toFloat_iff_nearestBits true).2 hbits

/-- What is not finite is infinity. -/
theorem toFloat_eq_infinity {negative : Bool} {number : Decimal}
    (h : (number.toFloat negative).isFinite = false) :
    number.toFloat negative = Binary64.infinity negative := by
  have hbits : number.nearestBits = Binary64.infinityBits := by
    refine Nat.le_antisymm number.nearestBits_le (Nat.le_of_not_lt fun hlt ↦ ?_)
    rw [(number.isFinite_toFloat_iff_nearestBits negative).2 hlt] at h
    cases h
  rw [toFloat, hbits, Binary64.infinity]

end Decimal

/-! ## Words instead of digits -/

section

open Float.Model Float.Model.UnpackedFloat

/-- Above the bits of infinity there are no numbers. -/
theorem Binary64.isNaN_of_infinityBits_lt {x : Float} (h : infinityBits < magnitudeBits x) :
    x.isNaN = true := by
  have hlt := toNat_toBits_lt x
  have hexponent : @unpackExponent .binary64 x.toBits.toBitVec = -1#11 := by
    apply BitVec.eq_of_toNat_eq
    rw [toNat_unpackExponent]
    change x.toBits.toNat / leadingBit % 2048 = 2047
    simp only [magnitudeBits, infinityBits, signBit, leadingBit] at *
    omega
  have hmantissa : (@unpackMantissa .binary64 x.toBits.toBitVec).toNat ≠ 0 := by
    rw [toNat_unpackMantissa]
    change x.toBits.toNat % leadingBit ≠ 0
    simp only [magnitudeBits, infinityBits, signBit, leadingBit] at *
    omega
  change (UnpackedFloat.unpack .binary64 x.toBits.toBitVec).isNaN = true
  have hsome : @unpackMantissa .binary64 x.toBits.toBitVec ≠ 0#52 :=
    fun hzero ↦ hmantissa (congrArg BitVec.toNat hzero)
  rw [(Unpacks.notANumber hexponent hsome).unpack_eq rfl rfl rfl]
  rfl

end

/-- What is not finite is shown as a word, and nothing else is. -/
theorem Decimal.showMagnitude_eq_word_iff (x : Float) :
    (showMagnitude x = "NaN" ∨ showMagnitude x = "inf") ↔ x.isFinite = false := by
  constructor
  · intro hword
    by_contra hfinite
    exact (showMagnitude_spec (Bool.eq_true_of_not_eq_false hfinite)).1.ne_word hword
  · intro hfinite
    unfold showMagnitude
    split
    · exact .inl rfl
    · next hnan =>
      have hle : ¬ Binary64.infinityBits < Binary64.magnitudeBits x :=
        fun hlt ↦ hnan (Binary64.isNaN_of_infinityBits_lt hlt)
      have hge : ¬ Binary64.magnitudeBits x < Binary64.infinityBits := fun hlt ↦ by
        rw [Binary64.isFinite_of_magnitudeBits_lt hlt] at hfinite
        cases hfinite
      rw [if_pos (Nat.le_antisymm (Nat.le_of_not_lt hle) (Nat.le_of_not_lt hge))]
      exact .inr rfl

theorem ParseTree.names_unplaced (tree : ParseTree) : tree.unplaced.names = tree.names := by
  induction tree <;> simp [unplaced, names, *]

theorem ParseTree.names_groupIf (needed : Bool) (tree : ParseTree) :
    (tree.groupIf needed).names = tree.names := by
  cases needed <;> rfl

/-- The text of a float holds no name exactly if the float is finite. -/
theorem ParseTree.names_worded_ofFloat_eq_nil_iff (x : Float) :
    (ofFloat x).worded.names = [] ↔ x.isFinite = true := by
  have hmagnitude : (number (Decimal.showMagnitude x) 0).worded.names = [] ↔
      x.isFinite = true := by
    rw [worded, ← Bool.not_eq_false, ← Decimal.showMagnitude_eq_word_iff]
    split
    · next hword => simp [names, hword]
    · next hword => simp [names, hword]
  unfold ofFloat
  split
  · exact hmagnitude
  · exact hmagnitude

mutual

/-- The text of an operand holds no name exactly if it lists no variable and all its literals are
finite. -/
theorem Operand.names_worded_surface_eq_nil_iff : ∀ operand : Operand,
    operand.surface.worded.names = [] ↔
      operand.variables = [] ∧ ∀ x ∈ operand.literals, x.isFinite = true
  | .literal value => by
    simpa [Operand.surface, Operand.variables, Operand.literals] using
      ParseTree.names_worded_ofFloat_eq_nil_iff value
  | .reference name => by
    simp [Operand.surface, Operand.variables, Operand.literals, ParseTree.worded, ParseTree.names]
  | .subexpression expr => expr.names_worded_surface_eq_nil_iff

/-- The text of an expression mentions no name exactly if the expression has no variables and all of
its literals are finite. -/
theorem Expr.names_worded_surface_eq_nil_iff : ∀ expr : Expr,
    expr.surface.worded.names = [] ↔
      expr.variables = [] ∧ ∀ x ∈ expr.literals, x.isFinite = true
  | .number value => by
    simpa [Expr.surface, Expr.variables, Expr.literals] using
      ParseTree.names_worded_ofFloat_eq_nil_iff value
  | .identifier name => by
    simp [Expr.surface, Expr.variables, Expr.literals, ParseTree.worded, ParseTree.names]
  | .call function argument => argument.names_worded_surface_eq_nil_iff
  | .factorial argument => by
    rw [Expr.surface, ParseTree.worded, ParseTree.worded_groupIf, ParseTree.names,
      ParseTree.names_groupIf]
    exact argument.names_worded_surface_eq_nil_iff
  | .root radicand index => by
    have hr := radicand.names_worded_surface_eq_nil_iff
    rw [Expr.surface]
    split
    · next hdefault =>
      obtain rfl := Operand.isDefaultIndex_iff.1 hdefault
      have hdegree : (2 : Float).isFinite = true := by decide
      simpa [ParseTree.worded, ParseTree.names, Expr.variables, Expr.literals, Operand.variables,
        Operand.literals, or_imp, forall_and, hdegree] using hr
    · have hi := index.names_worded_surface_eq_nil_iff
      simp only [ParseTree.worded, ParseTree.names, Expr.variables, Expr.literals,
        List.append_eq_nil_iff, List.forall_mem_append, hi, hr]
      tauto
  | .fraction numerator denominator => by
    have hn := numerator.names_worded_surface_eq_nil_iff
    have hd := denominator.names_worded_surface_eq_nil_iff
    simp only [Expr.surface, ParseTree.worded, ParseTree.names, Expr.variables, Expr.literals,
      List.append_eq_nil_iff, List.forall_mem_append, hn, hd]
    exact and_and_and_comm
  | .binary left operator right => by
    have hl := left.names_worded_surface_eq_nil_iff
    have hr := right.names_worded_surface_eq_nil_iff
    simp only [Expr.surface, ParseTree.worded, ParseTree.names, ParseTree.worded_groupIf,
      ParseTree.names_groupIf, Expr.variables, Expr.literals, List.append_eq_nil_iff,
      List.forall_mem_append, hl, hr]
    exact and_and_and_comm

end

/-- The text of an expression is read as a tree, and the tree mentions a name exactly if the
expression has a variable or a literal that is not finite. -/
theorem Expr.exists_derives_render {expr : Expr}
    (hnames : ∀ name ∈ expr.variables, Token.IsName name) :
    ∃ lexemes tree, Token.lex expr.render = .ok lexemes ∧ Derives .expression lexemes tree ∧
      (tree.names = [] ↔ expr.variables = [] ∧ ∀ x ∈ expr.literals, x.isFinite = true) := by
  obtain ⟨lexemes, hlex, tree, hderives, hplaced⟩ := ParseTree.exists_lex_text
    (expr.enterable_surface hnames).legible (ParseTree.wellGrouped_worded expr.wellGrouped_surface)
  rw [ParseTree.text_worded] at hlex
  refine ⟨lexemes, tree, hlex, hderives, ?_⟩
  rw [← tree.names_unplaced, hplaced, ParseTree.names_unplaced]
  exact expr.names_worded_surface_eq_nil_iff

/-- Every finite double reads back as it is written. -/
theorem compile_render_number {x : Float} (hfinite : x.isFinite = true) :
    (compile (Expr.number x).render).result = .ok (.number x) := by
  refine @compile_render_of_height_le (.number x) ?_ ?_ ?_
  · intro y hy
    rwa [List.mem_singleton.1 hy]
  · intro name hname
    cases hname
  · exact (ParseTree.height_ofFloat_le x).trans (by decide)

/-- Infinity reads back as a name. -/
theorem compile_render_infinity :
    (compile (Expr.number (Binary64.infinity false)).render).result = .ok (.identifier "inf") ∧
      (compile (Expr.number (-Binary64.infinity false)).render).result =
        .ok (Expr.identifier "inf").negate := by
  have hpositive : (Expr.number (Binary64.infinity false)).render = "inf" := by decide +kernel
  have hnegative : (Expr.number (-Binary64.infinity false)).render = "-inf" := by decide +kernel
  have hname : ParseTree.parse "inf" = .ok (.identifier "inf" 0) := by decide +kernel
  have hnegated : ParseTree.parse "-inf" = .ok (.negation (.identifier "inf" 1) 0) := by
    decide +kernel
  rw [hpositive, hnegative]
  exact ⟨compile_of_parse_ok hname rfl, compile_of_parse_ok hnegated rfl⟩

/-- Digits compile to the double nearest to the whole number that they stand for. -/
theorem compile_digits {digits : List Char} (h : Decimal.IsDigits digits) :
    (compile (String.ofList digits)).result =
      .ok (.number (Decimal.toFloat false ⟨Decimal.wholeOfDigits digits, 0⟩)) := by
  have hread : Decimal.readFloat? (String.ofList digits) =
      some (Decimal.toFloat false ⟨Decimal.wholeOfDigits digits, 0⟩) := by
    rw [Decimal.readFloat?, String.toList_ofList, (Decimal.IsNumeral.whole h).splitSign_eq]
    simp only [Decimal.ofText?_digits h]
  have hlegible : (ParseTree.number (String.ofList digits) 0).Legible := by
    change Decimal.IsNumeral (String.ofList digits).toList
    rw [String.toList_ofList]
    exact .whole h
  change (compile (ParseTree.number (String.ofList digits) 0).text).result = _
  exact compile_text_of_height_le hlegible trivial (.number hread) (Nat.le_add_left 1 127)

/-- What a token of digits stands for is the double nearest to it. -/
theorem Token.exists_readNumber_of_lex {source : String} {lexemes : List Lexeme}
    (hlex : lex source = .ok lexemes) {text : String} {position : Nat}
    (hmem : ⟨.number text, position⟩ ∈ lexemes) :
    ∃ number, Decimal.ofText? text.toList = some number ∧
      Expr.readNumber text position = .ok (number.toFloat false) := by
  have hspells : Spells text.toList (.number text) :=
    spells_of_lex hlex _ (List.mem_map_of_mem hmem)
  obtain ⟨number, htext, hread⟩ := Decimal.exists_ofText? (isNumber_of_spells hspells).1
  rw [String.ofList_toList] at hread
  exact ⟨number, htext, by rw [Expr.readNumber, hread]⟩

/-- A literal reads back as it is written, with either sign, if it is below the middle between the
greatest double and the next power of two. From there on it stands for infinity, which is written as
a word and reads back as a variable. So the text of an expression without variables mentions one
exactly if some literal of the expression is not finite. -/
theorem compile_render_literals (source : String) :
    (∀ lexemes text position, Token.lex source = .ok lexemes →
      ⟨.number text, position⟩ ∈ lexemes →
      ∃ (number : Decimal) (value : Float), Decimal.ofText? text.toList = some number ∧
        Expr.readNumber text position = .ok value ∧
        (value.isFinite = true ↔ number.exact < 2 ^ 1024 - 2 ^ 970) ∧
        (value.isFinite = true →
          (compile (Expr.number value).render).result = .ok (.number value) ∧
          (compile (Expr.number (-value)).render).result = .ok (.number (-value))) ∧
        (value.isFinite = false →
          (compile (Expr.number value).render).result = .ok (.identifier "inf") ∧
          (compile (Expr.number (-value)).render).result = .ok (Expr.identifier "inf").negate)) ∧
    ∀ expr : Expr, expr.variables = [] →
      ∃ lexemes tree, Token.lex expr.render = .ok lexemes ∧ Derives .expression lexemes tree ∧
        (tree.names = [] ↔ ∀ x ∈ expr.literals, x.isFinite = true) := by
  constructor
  · intro lexemes text position hlex hmem
    obtain ⟨number, htext, hread⟩ := Token.exists_readNumber_of_lex hlex hmem
    have hiff := number.isFinite_toFloat_iff false
    refine ⟨number, _, htext, hread, hiff, fun hfinite ↦ ?_, fun hinfinite ↦ ?_⟩
    · exact ⟨compile_render_number hfinite,
        compile_render_number (Decimal.isFinite_neg_toFloat hfinite)⟩
    · rw [Decimal.toFloat_eq_infinity hinfinite]
      exact compile_render_infinity
  · intro expr hvariables
    have hnames : ∀ name ∈ expr.variables, Token.IsName name := by simp [hvariables]
    obtain ⟨lexemes, tree, hlex, hderives, hiff⟩ := Expr.exists_derives_render hnames
    exact ⟨lexemes, tree, hlex, hderives, hiff.trans (and_iff_right hvariables)⟩

/-- A tenth is rounded. Beside it stands a literal that was too large. -/
theorem compile_render_literals_tenth :
    (∃ value, Expr.readNumber ".1" 0 = .ok value ∧
      (compile (Expr.number value).render).result = .ok (.number value) ∧
      (compile (Expr.number (-value)).render).result = .ok (.number (-value))) ∧
    let expr : Expr := .fraction (.literal 0.1) (.literal (Binary64.infinity false))
    ∃ lexemes tree, Token.lex expr.render = .ok lexemes ∧ Derives .expression lexemes tree ∧
      tree.names ≠ [] := by
  obtain ⟨hliterals, htexts⟩ := compile_render_literals ".1"
  constructor
  · have hlex : Token.lex ".1" = .ok [⟨.number ".1", 0⟩] := by decide +kernel
    have hmem : (⟨.number ".1", 0⟩ : Lexeme) ∈ [⟨.number ".1", 0⟩] := List.mem_cons_self
    obtain ⟨number, htext, hvalue⟩ := Token.exists_readNumber_of_lex hlex hmem
    have htenth : Decimal.ofText? ".1".toList = some ⟨1, -1⟩ := by decide
    obtain rfl : ⟨1, -1⟩ = number := Option.some.inj (htenth.symm.trans htext)
    have hfinite : (Decimal.toFloat false ⟨1, -1⟩).isFinite = true :=
      (Decimal.isFinite_toFloat_iff_nearestBits false _).2 (by decide +kernel)
    obtain ⟨_, value, -, hread, -, hback, -⟩ := hliterals _ _ _ hlex hmem
    obtain rfl : Decimal.toFloat false ⟨1, -1⟩ = value :=
      Except.ok.inj (hvalue.symm.trans hread)
    exact ⟨_, hread, hback hfinite⟩
  · intro expr
    obtain ⟨lexemes, tree, hlex, hderives, hiff⟩ := htexts expr rfl
    refine ⟨lexemes, tree, hlex, hderives, fun hnone ↦ ?_⟩
    have hmem : Binary64.infinity false ∈ expr.literals :=
      List.mem_cons_of_mem _ List.mem_cons_self
    exact absurd (hiff.1 hnone _ hmem) (by decide)

theorem Decimal.exact_power_of_ten (zeros : Nat) : exact ⟨10 ^ zeros, 0⟩ = 10 ^ zeros := by
  simp [exact]

/-- Powers of ten with so many zeros are beyond the middle. -/
theorem Decimal.isFinite_power_of_ten {zeros : Nat} (h : 309 ≤ zeros) :
    (toFloat false ⟨10 ^ zeros, 0⟩).isFinite = false := by
  have hpowers (base : ℚ) (power count : Nat) :
      base ^ (power * count + 1) = (base ^ power) ^ count * base := by
    rw [← pow_mul, ← pow_succ]
  have hlarge : (2 : ℚ) ^ 1024 ≤ 10 ^ 309 := by
    calc (2 : ℚ) ^ 1024 = (2 ^ 93) ^ 11 * 2 := hpowers 2 93 11
      _ ≤ (10 ^ 28) ^ 11 * 10 :=
        mul_le_mul (pow_le_pow_left₀ (by norm_num) (by norm_num) 11) (by norm_num) (by norm_num)
          (by positivity)
      _ = 10 ^ 309 := (hpowers 10 28 11).symm
  have hmiddle : (2 : ℚ) ^ 1024 - 2 ^ 970 ≤ 2 ^ 1024 := sub_le_self _ (by positivity)
  rw [← Bool.not_eq_true, isFinite_toFloat_iff, not_lt, exact_power_of_ten]
  exact (hmiddle.trans hlarge).trans (pow_le_pow_right₀ (by norm_num) h)

/-- A one with at least 309 zeros is infinity. -/
theorem compile_power_of_ten {zeros : Nat} (h : 309 ≤ zeros) :
    (compile (String.ofList ('1' :: List.replicate zeros '0'))).result =
      .ok (.number (Binary64.infinity false)) := by
  have hdigits : Decimal.IsDigits ('1' :: List.replicate zeros '0') := by
    refine ⟨List.cons_ne_nil _ _, fun c hc ↦ ?_⟩
    rcases List.mem_cons.1 hc with rfl | hzero
    · rfl
    · exact Decimal.isDigit_of_mem_replicate hzero
  have hwhole : Decimal.wholeOfDigits ('1' :: List.replicate zeros '0') = 1 * 10 ^ zeros :=
    Decimal.wholeOfDigits_append_zeros ⟨1, 0⟩ zeros
  rw [compile_digits hdigits, hwhole, Nat.one_mul,
    Decimal.toFloat_eq_infinity (Decimal.isFinite_power_of_ten h)]

/-- A one with 309 zeros: an expression without variables whose text is a variable. -/
theorem compile_render_huge_literal :
    ∃ expr, (compile (String.ofList ('1' :: List.replicate 309 '0'))).result = .ok expr ∧
      expr.variables = [] ∧ (compile expr.render).result = .ok (.identifier "inf") :=
  ⟨_, compile_power_of_ten (Nat.le_refl 309), rfl, compile_render_infinity.1⟩

end Formula
