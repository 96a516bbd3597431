import Formula.Operator

/-!
# Tokens

The words and symbols of the expression language. Numbers and identifiers keep their spelling;
the keywords have synonyms, of which one is shown.
-/

namespace Formula

inductive Token where
  | number (text : String)
  | frac
  | root
  | identifier (name : String)
  | plus
  | minus
  | star
  | slash
  | percent
  | caret
  | bang
  | leftParen
  | rightParen
  | leftBracket
  | rightBracket
  | comma
deriving DecidableEq, Repr

/-- A token together with the byte offset at which it starts in the source. -/
structure Lexeme where
  token : Token
  position : Nat
deriving DecidableEq, Repr

namespace Token

/-- How the token is shown. -/
def text : Token → String
  | number text => text
  | frac => "frac"
  | root => "root"
  | identifier name => name
  | plus => "+"
  | minus => "-"
  | star => "*"
  | slash => "/"
  | percent => "%"
  | caret => "^"
  | bang => "!"
  | leftParen => "("
  | rightParen => ")"
  | leftBracket => "["
  | rightBracket => "]"
  | comma => ","

/-- The infix operator that the token stands for between two operands. -/
def operator? : Token → Option Operator
  | plus => some .add
  | minus => some .subtract
  | star => some .multiply
  | slash => some .divide
  | percent => some .modulus
  | caret => some .power
  | _ => none

def ofOperator : Operator → Token
  | .add => plus
  | .subtract => minus
  | .multiply => star
  | .divide => slash
  | .modulus => percent
  | .power => caret

@[simp] theorem operator?_ofOperator (operator : Operator) :
    (ofOperator operator).operator? = some operator := by
  cases operator <;> rfl

/-- Whether the token binds two operands like a sum. -/
def isAdditive : Token → Bool
  | plus | minus => true
  | _ => false

/-- Whether the token binds two operands like a product. -/
def isMultiplicative : Token → Bool
  | star | slash | percent => true
  | _ => false

end Token

end Formula
