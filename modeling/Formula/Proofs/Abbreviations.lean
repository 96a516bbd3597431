import Formula.Expr.Evaluate
import Formula.Expr.Variables

/-!
# Fractions, roots and units of angles as abbreviations

A fraction is a division and a root is a power in another notation, and a unit of angles is a factor
at each function that reads an angle or gives one. Writing any of them out, everywhere in an
expression, changes neither what it comes to nor the variable that is missing if it has no value.

Whatever is written out, the argument is the same: a rewriting of single constructs that keeps the
value of each, given the values of its operands, keeps the value of every expression.
-/

namespace Formula

mutual

def Operand.rewrite (step : Expr → Expr) : Operand → Operand
  | .literal value => .literal value
  | .reference name => .reference name
  | .subexpression expr => .subexpression (expr.rewrite step)

/-- The expression with every construct in it rewritten, operands before the construct itself. -/
def Expr.rewrite (step : Expr → Expr) : Expr → Expr
  | .number value => step (.number value)
  | .identifier name => step (.identifier name)
  | .call function argument => step (.call function (argument.rewrite step))
  | .factorial argument => step (.factorial (argument.rewrite step))
  | .root radicand index => step (.root (radicand.rewrite step) (index.rewrite step))
  | .fraction numerator denominator =>
    step (.fraction (numerator.rewrite step) (denominator.rewrite step))
  | .binary left operator right =>
    step (.binary (left.rewrite step) operator (right.rewrite step))

end

/-- What a construct comes to in a context if its operands come to these results. -/
def Expr.valueFrom (context : Context) (operandValue : Operand → Except EvaluationError Float) :
    Expr → Except EvaluationError Float
  | .number value => .ok value
  | .identifier name => context.resolve name
  | .call function argument => function.apply context.angleUnit <$> operandValue argument
  | .factorial argument => Binary64.factorial <$> operandValue argument
  | .root radicand index => do
    return Formula.nthRoot (← operandValue radicand) (← operandValue index)
  | .fraction numerator denominator => do
    return (← operandValue numerator) / (← operandValue denominator)
  | .binary left operator right => do
    return operator.apply (← operandValue left) (← operandValue right)

theorem Expr.value_eq_valueFrom (context : Context) (expr : Expr) :
    expr.value context = expr.valueFrom context (Operand.value context) := by
  cases expr <;> simp only [valueFrom, value_number, value_identifier, value_call, value_factorial,
    value_root, value_fraction, value_binary]

/-- A rewriting of single constructs keeps what they come to, given what their operands come to. The
two contexts give names the same meaning and may differ in the unit of their angles. -/
structure Expr.KeepsValues (context other : Context) (step : Expr → Expr) : Prop where
  names (name : String) : other.resolve name = context.resolve name
  constructs (expr : Expr) :
    (step expr).value other = expr.valueFrom context (Operand.value other)

mutual

/-- What keeps the values of expressions keeps those of operands. -/
theorem Operand.value_rewrite {context other : Context} {step : Expr → Expr}
    (h : Expr.KeepsValues context other step) : ∀ operand : Operand,
    (operand.rewrite step).value other = operand.value context
  | .literal _ => rfl
  | .reference name => h.names name
  | .subexpression expr => expr.value_rewrite h

/-- What holds of one construct holds everywhere. -/
theorem Expr.value_rewrite {context other : Context} {step : Expr → Expr}
    (h : Expr.KeepsValues context other step) : ∀ expr : Expr,
    (expr.rewrite step).value other = expr.value context
  | .number _ => h.constructs _
  | .identifier name => by
    rw [Expr.rewrite, h.constructs, Expr.valueFrom, Expr.value_identifier]
  | .call function argument => by
    rw [Expr.rewrite, h.constructs, Expr.valueFrom, argument.value_rewrite h, Expr.value_call]
  | .factorial argument => by
    rw [Expr.rewrite, h.constructs, Expr.valueFrom, argument.value_rewrite h, Expr.value_factorial]
  | .root radicand index => by
    rw [Expr.rewrite, h.constructs, Expr.valueFrom, radicand.value_rewrite h, index.value_rewrite h,
      Expr.value_root]
  | .fraction numerator denominator => by
    rw [Expr.rewrite, h.constructs, Expr.valueFrom, numerator.value_rewrite h,
      denominator.value_rewrite h, Expr.value_fraction]
  | .binary left operator right => by
    rw [Expr.rewrite, h.constructs, Expr.valueFrom, left.value_rewrite h, right.value_rewrite h,
      Expr.value_binary]

end

mutual

theorem Operand.variables_rewrite {step : Expr → Expr}
    (h : ∀ expr, (step expr).variables = expr.variables) : ∀ operand : Operand,
    (operand.rewrite step).variables = operand.variables
  | .literal _ => rfl
  | .reference _ => rfl
  | .subexpression expr => expr.variables_rewrite h

theorem Expr.variables_rewrite {step : Expr → Expr}
    (h : ∀ expr, (step expr).variables = expr.variables) : ∀ expr : Expr,
    (expr.rewrite step).variables = expr.variables
  | .number _ => h _
  | .identifier _ => h _
  | .call _ argument => by
    rw [Expr.rewrite, h, Expr.variables, Expr.variables, argument.variables_rewrite h]
  | .factorial argument => by
    rw [Expr.rewrite, h, Expr.variables, Expr.variables, argument.variables_rewrite h]
  | .root radicand index => by
    rw [Expr.rewrite, h, Expr.variables, Expr.variables, radicand.variables_rewrite h,
      index.variables_rewrite h]
  | .fraction numerator denominator => by
    rw [Expr.rewrite, h, Expr.variables, Expr.variables, numerator.variables_rewrite h,
      denominator.variables_rewrite h]
  | .binary left _ right => by
    rw [Expr.rewrite, h, Expr.variables, Expr.variables, left.variables_rewrite h,
      right.variables_rewrite h]

end

/-- A fraction as a division, a root as a power, and anything else as it is. -/
def Expr.spellOut : Expr → Expr
  | .fraction numerator denominator => .binary numerator .divide denominator
  | .root radicand index =>
    .binary radicand .power (.subexpression (.binary (.literal 1) .divide index))
  | expr => expr

def Expr.spelledOut (expr : Expr) : Expr :=
  expr.rewrite spellOut

mutual

def Operand.IsSpelledOut : Operand → Prop
  | .literal _ => True
  | .reference _ => True
  | .subexpression expr => expr.IsSpelledOut

/-- Whether there is no fraction and no root in the expression. -/
def Expr.IsSpelledOut : Expr → Prop
  | .number _ => True
  | .identifier _ => True
  | .call _ argument => argument.IsSpelledOut
  | .factorial argument => argument.IsSpelledOut
  | .root _ _ => False
  | .fraction _ _ => False
  | .binary left _ right => left.IsSpelledOut ∧ right.IsSpelledOut

end

/-- A fraction and a root come to what the division and the power come to. -/
theorem Expr.keepsValues_spellOut (context : Context) : KeepsValues context context spellOut where
  names _ := rfl
  constructs expr := by
    rw [← value_eq_valueFrom]
    cases expr with
    | fraction numerator denominator =>
      rw [spellOut, value_binary, value_fraction]
      rfl
    | root radicand index =>
      -- the 1 always has a value, so it fails where the index does
      rw [spellOut, value_binary, value_root, Operand.value_subexpression, value_binary,
        Operand.value_literal]
      cases radicand.value context with
      | error error => rfl
      | ok x => cases index.value context <;> rfl
    | _ => rfl

theorem Expr.variables_spellOut (expr : Expr) : expr.spellOut.variables = expr.variables := by
  cases expr <;> rfl

mutual

theorem Operand.isSpelledOut_rewrite : ∀ operand : Operand,
    (operand.rewrite Expr.spellOut).IsSpelledOut
  | .literal _ => trivial
  | .reference _ => trivial
  | .subexpression expr => expr.isSpelledOut_rewrite

/-- Where every part has been spelled out there is nothing left to spell out. -/
theorem Expr.isSpelledOut_rewrite : ∀ expr : Expr, (expr.rewrite Expr.spellOut).IsSpelledOut
  | .number _ => trivial
  | .identifier _ => trivial
  | .call _ argument => argument.isSpelledOut_rewrite
  | .factorial argument => argument.isSpelledOut_rewrite
  | .root radicand index =>
    ⟨radicand.isSpelledOut_rewrite, trivial, index.isSpelledOut_rewrite⟩
  | .fraction numerator denominator =>
    ⟨numerator.isSpelledOut_rewrite, denominator.isSpelledOut_rewrite⟩
  | .binary left _ right => ⟨left.isSpelledOut_rewrite, right.isSpelledOut_rewrite⟩

end

/-- Fractions and roots are abbreviations. An expression can be written without any of them, with
the same value or the same missing variable in every context, and with the same variables in the
order in which they are looked up. -/
theorem Expr.fractions_and_roots_are_abbreviations (expr : Expr) :
    expr.spelledOut.IsSpelledOut ∧
    (∀ context : Context, expr.spelledOut.value context = expr.value context) ∧
    expr.spelledOut.variables = expr.variables := by
  refine ⟨expr.isSpelledOut_rewrite, fun context ↦ ?_, ?_⟩
  · exact expr.value_rewrite (keepsValues_spellOut context)
  · exact expr.variables_rewrite variables_spellOut

/-! ## Units of angles -/

theorem Context.resolve_pi (context : Context) : context.resolve "pi" = .ok pi := rfl

namespace AngleUnit

/-- An operand that is an angle in this unit, with its conversion to radians written out. -/
def writeToRadians : AngleUnit → Operand → Operand
  | radians, angle => angle
  | degrees, angle => .subexpression (.binary angle .multiply (.literal (pi / 180)))
  | gradians, angle =>
    .subexpression (.binary (.subexpression (.binary angle .divide (.literal 200))) .multiply
      (.reference "pi"))

/-- An expression that is an angle in radians, with its conversion to this unit written out. -/
def writeOfRadians : AngleUnit → Expr → Expr
  | radians, angle => angle
  | degrees, angle => .binary (.subexpression angle) .multiply (.literal (180 / pi))
  | gradians, angle =>
    .binary (.subexpression (.binary (.subexpression angle) .divide (.reference "pi"))) .multiply
      (.literal 200)

variable (unit : AngleUnit) (context : Context)

/-- Writing the conversion of an angle comes to converting what the angle comes to. -/
theorem value_writeToRadians (angle : Operand) :
    (unit.writeToRadians angle).value context = unit.toRadians <$> angle.value context := by
  cases unit with
  | radians => exact (id_map (angle.value context)).symm
  | degrees =>
    rw [writeToRadians, Operand.value_subexpression, Expr.value_binary, Operand.value_literal]
    cases angle.value context <;> rfl
  | gradians =>
    rw [writeToRadians, Operand.value_subexpression, Expr.value_binary, Operand.value_subexpression,
      Expr.value_binary, Operand.value_literal, Operand.value_reference, context.resolve_pi]
    cases angle.value context <;> rfl

theorem value_writeOfRadians (angle : Expr) :
    (unit.writeOfRadians angle).value context = unit.ofRadians <$> angle.value context := by
  cases unit with
  | radians => exact (id_map (angle.value context)).symm
  | degrees =>
    rw [writeOfRadians, Expr.value_binary, Operand.value_subexpression, Operand.value_literal]
    cases angle.value context <;> rfl
  | gradians =>
    rw [writeOfRadians, Expr.value_binary, Operand.value_subexpression, Expr.value_binary,
      Operand.value_subexpression, Operand.value_reference, context.resolve_pi,
      Operand.value_literal]
    cases angle.value context <;> rfl

end AngleUnit

namespace Function

def readsAngle : Function → Bool
  | sin | cos | tan | csc | cot => true
  | _ => false

def givesAngle : Function → Bool
  | arcsin | arccos | arctan => true
  | _ => false

variable {function : Function} (unit : AngleUnit) (x : Float)

/-- A function that is given an angle in a unit converts it first. -/
theorem apply_of_readsAngle (h : function.readsAngle) :
    function.apply unit x = function.apply .radians (unit.toRadians x) := by
  cases function <;> first | rfl | cases h

/-- A function that gives an angle in a unit converts it last. -/
theorem apply_of_givesAngle (h : function.givesAngle) :
    function.apply unit x = unit.ofRadians (function.apply .radians x) := by
  cases function <;> first | rfl | cases h

/-- All other functions take no notice of the unit. -/
theorem apply_of_no_angle (hreads : ¬function.readsAngle) (hgives : ¬function.givesAngle) :
    function.apply unit x = function.apply .radians x := by
  cases function <;> first | rfl | exact absurd rfl hreads | exact absurd rfl hgives

end Function

/-- A call with the conversions between the unit and radians written out: of the argument if that is
an angle, and of the result if that is one. Anything else is left as it is. -/
def Expr.convert (unit : AngleUnit) : Expr → Expr
  | .call function argument =>
    if function.readsAngle then .call function (unit.writeToRadians argument)
    else if function.givesAngle then unit.writeOfRadians (.call function argument)
    else .call function argument
  | expr => expr

/-- The expression with all conversions between the unit and radians written out. -/
def Expr.inRadians (unit : AngleUnit) (expr : Expr) : Expr :=
  expr.rewrite (convert unit)

/-- With its conversion written out a call comes to the same in radians. -/
theorem Expr.keepsValues_convert (unit : AngleUnit) (context : Context) :
    KeepsValues (context.withAngleUnit unit) (context.withAngleUnit .radians) (convert unit) where
  names _ := rfl
  constructs expr := by
    cases expr with
    | call function argument =>
      let inner := argument.value (context.withAngleUnit .radians)
      change _ = function.apply unit <$> inner
      by_cases hreads : function.readsAngle
      · have hcall : function.apply unit = function.apply .radians ∘ unit.toRadians :=
          funext fun x ↦ Function.apply_of_readsAngle unit x hreads
        rw [convert, if_pos hreads, value_call, AngleUnit.value_writeToRadians, hcall, comp_map]
        rfl
      · by_cases hgives : function.givesAngle
        · have hcall : function.apply unit = unit.ofRadians ∘ function.apply .radians :=
            funext fun x ↦ Function.apply_of_givesAngle unit x hgives
          rw [convert, if_neg hreads, if_pos hgives, AngleUnit.value_writeOfRadians, value_call,
            hcall, comp_map]
          rfl
        · have hcall : function.apply unit = function.apply .radians :=
            funext fun x ↦ Function.apply_of_no_angle unit x hreads hgives
          rw [convert, if_neg hreads, if_neg hgives, value_call, hcall]
          rfl
    | _ => exact value_eq_valueFrom _ _

/-- Units of angles are abbreviations. What an expression comes to with angles in a unit, be it a
value or a missing variable, is what it comes to in radians with all conversions written out. -/
theorem Expr.angle_units_are_abbreviations (unit : AngleUnit) (expr : Expr) (context : Context) :
    expr.value (context.withAngleUnit unit) =
      (expr.inRadians unit).value (context.withAngleUnit .radians) :=
  (expr.value_rewrite (keepsValues_convert unit context)).symm

/-- An angle inside an angle, and a function that takes none between them. -/
example (x : Operand) :
    (Expr.call .cot (.subexpression (.call .log (.subexpression (.call .arcsin x))))).inRadians
        .degrees =
      .call .cot (.subexpression (.binary
        (.subexpression (.call .log (.subexpression (.binary
          (.subexpression (.call .arcsin (x.rewrite (Expr.convert .degrees)))) .multiply
            (.literal (180 / pi))))))
        .multiply (.literal (pi / 180)))) := rfl

end Formula
