import Formula.Expr
import Formula.ParseTree
import Formula.Decimal.Layout

/-!
# Writing expressions

An expression is shown by quoting it as a parse tree and writing that tree out. The quoted tree
groups an operand only where it would otherwise be read differently: under an operator that binds
tighter, on the side where a chain of equal operators does not group by itself, and a negative
number under a power or a factorial.
-/

namespace Formula

/-- A double as it is written: a negative one is the negation of its magnitude. -/
def ParseTree.ofFloat (x : Float) : ParseTree :=
  let magnitude := ParseTree.number (Decimal.showMagnitude x) 0
  if Binary64.isNegative x then .negation magnitude 0 else magnitude

theorem ParseTree.text_ofFloat (x : Float) : (ParseTree.ofFloat x).text = Decimal.showFloat x := by
  unfold ParseTree.ofFloat Decimal.showFloat
  split <;> rfl

/-- The tree in parentheses if `needed` says so. -/
def ParseTree.groupIf (needed : Bool) (tree : ParseTree) : ParseTree :=
  if needed then .group tree else tree

namespace Operand

/-- Whether the operand is a number that is written with a minus. -/
def isNegativeNumber : Operand → Bool
  | literal value => Binary64.isNegative value
  | subexpression (.number value) => Binary64.isNegative value
  | _ => false

/-- The operator at the top of the operand, if it is an infix operation. -/
def operator? : Operand → Option Operator
  | subexpression (.binary _ operator _) => some operator
  | _ => none

/-- Whether the operand is grouped on one side of an infix operator. -/
def isGroupedBeside (operator : Operator) (side : Side) (operand : Operand) : Bool :=
  match operand.operator? with
  | some inner =>
    inner.precedence < operator.precedence ||
      inner.precedence = operator.precedence && side ≠ operator.groupingSide
  | none => operator = .power && side = .left && operand.isNegativeNumber

/-- Whether the operand is grouped before a factorial. -/
def isGroupedBeforeFactorial (operand : Operand) : Bool :=
  operand.operator?.isSome || operand.isNegativeNumber

/-- Whether the operand is an index that need not be written. -/
def isDefaultIndex : Operand → Bool
  | literal value => value == Expr.defaultIndex
  | _ => false

end Operand

mutual

/-- The operand quoted as a parse tree; the tree stands in no source, so its positions are 0. -/
def Operand.surface : Operand → ParseTree
  | .literal value => .ofFloat value
  | .reference name => .identifier name 0
  | .subexpression expr => expr.surface

/-- The expression quoted as a parse tree. -/
def Expr.surface : Expr → ParseTree
  | .number value => .ofFloat value
  | .identifier name => .identifier name 0
  | .call function argument => .call function.keyword argument.surface 0
  | .factorial argument =>
    .factorial (argument.surface.groupIf argument.isGroupedBeforeFactorial) 0
  | .root radicand index =>
    if index.isDefaultIndex then .squareRoot radicand.surface 0
    else .root index.surface radicand.surface 0
  | .fraction numerator denominator => .fraction numerator.surface denominator.surface 0
  | .binary left operator right =>
    .binary (left.surface.groupIf (left.isGroupedBeside operator .left)) (.ofOperator operator)
      (right.surface.groupIf (right.isGroupedBeside operator .right)) 0

end

/-- The expression as it is shown. -/
def Expr.render (expr : Expr) : String :=
  expr.surface.text

end Formula
