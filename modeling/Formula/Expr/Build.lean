import Formula.Expr.Shape
import Formula.ParseTree.Grammar
import Formula.Decimal.Numeral

/-!
# Building expressions

Gives every construct of a parse tree its meaning, children first. A minus before a number becomes
part of the number; before anything else it is a multiplication by -1.
-/

namespace Formula.Expr

/-- The double that a literal stands for. -/
def readNumber (text : String) (position : Nat) : Except BuildError Float :=
  match Decimal.readFloat? text with
  | some value => .ok value
  | none => .error (.invalidNumber text position)

def negate : Expr → Expr
  | number value => number (-value)
  | operand => binary (.subexpression (number (-1))) .multiply (.subexpression operand)

/-- The expression that each construct becomes. -/
def builder : ParseTree.Algebra (Except BuildError) Expr where
  number text position := (readNumber text position).map .number
  identifier name _ := .ok (.identifier name)
  fraction numerator denominator _ :=
    .ok (.fraction (.subexpression numerator) (.subexpression denominator))
  call keyword argument position :=
    match Function.ofKeyword? keyword with
    | some function => .ok (.call function (.subexpression argument))
    | none => .error (.unknownFunction keyword position)
  root index radicand _ := .ok (nthRoot (.subexpression radicand) (index.map .subexpression))
  binary left operator right position :=
    match operator.operator? with
    | some meaning => .ok (.binary (.subexpression left) meaning (.subexpression right))
    | none => .error (.unknownOperator ⟨operator, position⟩)
  negation operand _ := .ok operand.negate
  factorial operand _ := .ok (.factorial (.subexpression operand))

def ofParseTree? (tree : ParseTree) : Except BuildError Expr :=
  tree.foldM builder

section

variable (position : Nat)

@[simp] theorem ofParseTree?_number (text : String) :
    ofParseTree? (.number text position) = (readNumber text position).map .number := rfl

@[simp] theorem ofParseTree?_identifier (name : String) :
    ofParseTree? (.identifier name position) = .ok (.identifier name) := rfl

@[simp] theorem ofParseTree?_group (inner : ParseTree) :
    ofParseTree? (.group inner) = ofParseTree? inner := rfl

@[simp] theorem ofParseTree?_fraction (numerator denominator : ParseTree) :
    ofParseTree? (.fraction numerator denominator position) = do
      let n ← ofParseTree? numerator
      let d ← ofParseTree? denominator
      return .fraction (.subexpression n) (.subexpression d) := rfl

@[simp] theorem ofParseTree?_call (keyword : String) (argument : ParseTree) :
    ofParseTree? (.call keyword argument position) = (do
      let a ← ofParseTree? argument
      match Function.ofKeyword? keyword with
      | some function => return .call function (.subexpression a)
      | none => .error (.unknownFunction keyword position)) := rfl

@[simp] theorem ofParseTree?_squareRoot (radicand : ParseTree) :
    ofParseTree? (.squareRoot radicand position) = do
      let r ← ofParseTree? radicand
      return .root (.subexpression r) (.literal defaultIndex) := rfl

@[simp] theorem ofParseTree?_root (index radicand : ParseTree) :
    ofParseTree? (.root index radicand position) = do
      let i ← ofParseTree? index
      let r ← ofParseTree? radicand
      return .root (.subexpression r) (.subexpression i) := rfl

@[simp] theorem ofParseTree?_binary (left right : ParseTree) (operator : Token) :
    ofParseTree? (.binary left operator right position) = (do
      let l ← ofParseTree? left
      let r ← ofParseTree? right
      match operator.operator? with
      | some meaning => return .binary (.subexpression l) meaning (.subexpression r)
      | none => .error (.unknownOperator ⟨operator, position⟩)) := rfl

@[simp] theorem ofParseTree?_negation (operand : ParseTree) :
    ofParseTree? (.negation operand position) = do return (← ofParseTree? operand).negate := rfl

@[simp] theorem ofParseTree?_factorial (operand : ParseTree) :
    ofParseTree? (.factorial operand position) = do
      return .factorial (.subexpression (← ofParseTree? operand)) := rfl

end

end Formula.Expr
