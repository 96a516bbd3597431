import Formula.Expr.Evaluate

/-!
# Substituting expressions for variables

A variable can be given a value in the context, or an expression that has this value can be written
in its place. An evaluation comes to the same either way, be it a value or a missing variable. The
expression may mention the variable itself: there it has the value it had before.
-/

namespace Formula

mutual

def Operand.substitute (replacements : String → Option Expr) : Operand → Operand
  | .literal value => .literal value
  | .reference name =>
    match replacements name with
    | some expr => .subexpression expr
    | none => .reference name
  | .subexpression expr => .subexpression (expr.substitute replacements)

/-- The expression with an expression in the place of every reference to a name that has one. What
is written there is not gone through again. -/
def Expr.substitute (replacements : String → Option Expr) : Expr → Expr
  | .number value => .number value
  | .identifier name => (replacements name).getD (.identifier name)
  | .call function argument => .call function (argument.substitute replacements)
  | .factorial argument => .factorial (argument.substitute replacements)
  | .root radicand index =>
    .root (radicand.substitute replacements) (index.substitute replacements)
  | .fraction numerator denominator =>
    .fraction (numerator.substitute replacements) (denominator.substitute replacements)
  | .binary left operator right =>
    .binary (left.substitute replacements) operator (right.substitute replacements)

end

/-- One name has an expression to be written in its place. -/
def Expr.inPlaceOf (name : String) (replacement : Expr) : String → Option Expr :=
  fun other ↦ if other = name then some replacement else none

/-- A variable in an identifier and as a bare operand, and a replacement that mentions it. -/
example (y : Expr) :
    (Expr.binary (.subexpression (.identifier "x")) .add (.reference "x")).substitute
        (Expr.inPlaceOf "x" (.fraction (.reference "x") (.subexpression y))) =
      .binary (.subexpression (.fraction (.reference "x") (.subexpression y))) .add
        (.subexpression (.fraction (.reference "x") (.subexpression y))) := rfl

namespace Context

/-- In the other context each name means what the expression in its place comes to in this one, and
a name that is left alone means the same. -/
structure Defines (context : Context) (replacements : String → Option Expr) (other : Context) :
    Prop where
  unit : other.angleUnit = context.angleUnit
  replaced {name : String} {expr : Expr} (h : replacements name = some expr) :
    other.resolve name = expr.value context
  kept {name : String} (h : replacements name = none) : other.resolve name = context.resolve name

theorem resolve_insert_self {name : String} (hname : isConstant name = false) (context : Context)
    (value : Float) : (context.insert name value).resolve name = .ok value := by
  have hnone : constant? name = none := by simpa [isConstant] using hname
  rw [resolve, hnone, get?_insert_self]
  rfl

/-- A binding leaves all other names alone. -/
theorem resolve_insert_of_ne {name other : String} (hne : other ≠ name) (context : Context)
    (value : Float) : (context.insert name value).resolve other = context.resolve other := by
  rw [resolve, resolve, get?_insert, if_neg (Ne.symm hne)]

/-- A value written for a variable defines it as any expression that has this value. -/
theorem defines_insert {name : String} (hname : isConstant name = false) {context : Context}
    {replacement : Expr} {value : Float} (hvalue : replacement.value context = .ok value) :
    context.Defines (Expr.inPlaceOf name replacement) (context.insert name value) where
  unit := angleUnit_insert context name value
  replaced := by
    intro other expr h
    obtain ⟨rfl, rfl⟩ : other = name ∧ replacement = expr := by simpa [Expr.inPlaceOf] using h
    rw [resolve_insert_self hname, hvalue]
  kept := by
    intro other h
    have hne : other ≠ name := by simpa [Expr.inPlaceOf] using h
    exact resolve_insert_of_ne hne context value

end Context

section

variable {context other : Context} {replacements : String → Option Expr}
  (h : context.Defines replacements other)

include h

mutual

/-- Replacing names in an operand changes its value as binding them does. -/
theorem Operand.value_substitute : ∀ operand : Operand,
    (operand.substitute replacements).value context = operand.value other
  | .literal _ => rfl
  | .reference name => by
    rw [Operand.substitute, Operand.value_reference]
    cases hname : replacements name with
    | some expr => rw [h.replaced hname, Operand.value_subexpression]
    | none => rw [h.kept hname, Operand.value_reference]
  | .subexpression expr => expr.value_substitute

/-- An expression with its variables replaced comes to what it comes to where the variables mean
what replaces them. -/
theorem Expr.value_substitute : ∀ expr : Expr,
    (expr.substitute replacements).value context = expr.value other
  | .number _ => rfl
  | .identifier name => by
    rw [Expr.substitute, Expr.value_identifier]
    cases hname : replacements name with
    | some expr => rw [h.replaced hname, Option.getD_some]
    | none => rw [h.kept hname, Option.getD_none, Expr.value_identifier]
  | .call function argument => by
    rw [Expr.substitute, Expr.value_call, Expr.value_call, argument.value_substitute, h.unit]
  | .factorial argument => by
    rw [Expr.substitute, Expr.value_factorial, Expr.value_factorial, argument.value_substitute]
  | .root radicand index => by
    rw [Expr.substitute, Expr.value_root, Expr.value_root, radicand.value_substitute,
      index.value_substitute]
  | .fraction numerator denominator => by
    rw [Expr.substitute, Expr.value_fraction, Expr.value_fraction, numerator.value_substitute,
      denominator.value_substitute]
  | .binary left operator right => by
    rw [Expr.substitute, Expr.value_binary, Expr.value_binary, left.value_substitute,
      right.value_substitute]

end

end

/-- Substituting agrees with binding. Whether an expression is written in the place of a variable
that is no constant or the variable is given the value of that expression, any expression comes to
the same value or lacks the same variable; and so it does if the value itself is written as a
number. -/
theorem Expr.substitution_agrees_with_binding {name : String} (hname : isConstant name = false)
    (expr : Expr) (context : Context) :
    (∀ (replacement : Expr) (value : Float), replacement.value context = .ok value →
      (expr.substitute (inPlaceOf name replacement)).value context =
        expr.value (context.insert name value)) ∧
    ∀ value : Float, (expr.substitute (inPlaceOf name (.number value))).value context =
      expr.value (context.insert name value) := by
  have hsame (replacement : Expr) (value : Float) (hvalue : replacement.value context = .ok value) :
      (expr.substitute (inPlaceOf name replacement)).value context =
        expr.value (context.insert name value) :=
    expr.value_substitute (Context.defines_insert hname hvalue)
  exact ⟨hsame, fun value ↦ hsame (.number value) value rfl⟩

/-- A variable doubled: the replacement mentions it, and a name without a value stays missing. -/
theorem Expr.substitution_agrees_with_binding_doubled :
    let context := Context.empty.insert "x" 1.5
    let doubled : Expr := .binary (.reference "x") .add (.reference "x")
    let expr : Expr := .root (.reference "x") (.subexpression (.identifier "n"))
    isConstant "x" = false ∧ doubled.value context = .ok (1.5 + 1.5) ∧
      (expr.substitute (inPlaceOf "x" doubled)).value context =
        expr.value (context.insert "x" (1.5 + 1.5)) := by
  intro context doubled expr
  have hname : isConstant "x" = false := by decide
  have hvalue : doubled.value context = .ok (1.5 + 1.5) := by
    rw [value_binary, Operand.value_reference, Context.resolve_insert_self hname]
    rfl
  exact ⟨hname, hvalue, (expr.substitution_agrees_with_binding hname context).1 _ _ hvalue⟩

end Formula
