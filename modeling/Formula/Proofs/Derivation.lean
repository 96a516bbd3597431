import Formula.ParseTree

/-!
# Derivations

The grammar of expressions as a relation between lexemes and trees, apart from any way of reading
them. A tree keeps the groups and the operators, and every construct the position of its own
lexeme; the positions of delimiters are free.
-/

namespace Formula

/-- What a stretch of lexemes can be, from the loosest to the tightest. -/
inductive Category where
  | expression
  | product
  | unary
  | power
  | factorial
  | primary
deriving DecidableEq, Repr

/-- A stretch of lexemes that is one thing of a category, and its tree. -/
inductive Derives : Category → List Lexeme → ParseTree → Prop where
  | sum {left right : List Lexeme} {l r : ParseTree} {operator : Token} {position : Nat}
      (hleft : Derives .expression left l) (hoperator : operator.isAdditive)
      (hright : Derives .product right r) :
      Derives .expression (left ++ ⟨operator, position⟩ :: right) (.binary l operator r position)
  | ofProduct {lexemes : List Lexeme} {tree : ParseTree} (h : Derives .product lexemes tree) :
      Derives .expression lexemes tree
  | product {left right : List Lexeme} {l r : ParseTree} {operator : Token} {position : Nat}
      (hleft : Derives .product left l) (hoperator : operator.isMultiplicative)
      (hright : Derives .unary right r) :
      Derives .product (left ++ ⟨operator, position⟩ :: right) (.binary l operator r position)
  | ofUnary {lexemes : List Lexeme} {tree : ParseTree} (h : Derives .unary lexemes tree) :
      Derives .product lexemes tree
  | negation {operand : List Lexeme} {tree : ParseTree} {position : Nat}
      (hoperand : Derives .unary operand tree) :
      Derives .unary (⟨.minus, position⟩ :: operand) (.negation tree position)
  | ofPower {lexemes : List Lexeme} {tree : ParseTree} (h : Derives .power lexemes tree) :
      Derives .unary lexemes tree
  | power {base exponent : List Lexeme} {b e : ParseTree} {position : Nat}
      (hbase : Derives .factorial base b) (hexponent : Derives .unary exponent e) :
      Derives .power (base ++ ⟨.caret, position⟩ :: exponent) (.binary b .caret e position)
  | ofFactorial {lexemes : List Lexeme} {tree : ParseTree} (h : Derives .factorial lexemes tree) :
      Derives .power lexemes tree
  | factorial {operand : List Lexeme} {tree : ParseTree} {position : Nat}
      (hoperand : Derives .factorial operand tree) :
      Derives .factorial (operand ++ [⟨.bang, position⟩]) (.factorial tree position)
  | ofPrimary {lexemes : List Lexeme} {tree : ParseTree} (h : Derives .primary lexemes tree) :
      Derives .factorial lexemes tree
  | number {text : String} {position : Nat} :
      Derives .primary [⟨.number text, position⟩] (.number text position)
  | identifier {name : String} {position : Nat} :
      Derives .primary [⟨.identifier name, position⟩] (.identifier name position)
  | call {keyword : String} {argument : List Lexeme} {tree : ParseTree}
      {position opening closing : Nat} (hargument : Derives .expression argument tree) :
      Derives .primary
        (⟨.identifier keyword, position⟩ :: ⟨.leftParen, opening⟩ ::
          (argument ++ [⟨.rightParen, closing⟩]))
        (.call keyword tree position)
  | group {inner : List Lexeme} {tree : ParseTree} {opening closing : Nat}
      (hinner : Derives .expression inner tree) :
      Derives .primary (⟨.leftParen, opening⟩ :: (inner ++ [⟨.rightParen, closing⟩])) (.group tree)
  | fraction {numerator denominator : List Lexeme} {n d : ParseTree}
      {position opening comma closing : Nat} (hnumerator : Derives .expression numerator n)
      (hdenominator : Derives .expression denominator d) :
      Derives .primary
        (⟨.frac, position⟩ :: ⟨.leftParen, opening⟩ ::
          (numerator ++ ⟨.comma, comma⟩ :: (denominator ++ [⟨.rightParen, closing⟩])))
        (.fraction n d position)
  | curriedFraction {numerator denominator : List Lexeme} {n d : ParseTree}
      {position opening closing opening' closing' : Nat}
      (hnumerator : Derives .expression numerator n)
      (hdenominator : Derives .expression denominator d) :
      Derives .primary
        (⟨.frac, position⟩ :: ⟨.leftParen, opening⟩ ::
          (numerator ++ ⟨.rightParen, closing⟩ :: ⟨.leftParen, opening'⟩ ::
            (denominator ++ [⟨.rightParen, closing'⟩])))
        (.fraction n d position)
  | squareRoot {radicand : List Lexeme} {r : ParseTree} {position opening closing : Nat}
      (hradicand : Derives .expression radicand r) :
      Derives .primary
        (⟨.root, position⟩ :: ⟨.leftParen, opening⟩ ::
          (radicand ++ [⟨.rightParen, closing⟩]))
        (.squareRoot r position)
  | root {index radicand : List Lexeme} {i r : ParseTree}
      {position opening closing opening' closing' : Nat} (hindex : Derives .expression index i)
      (hradicand : Derives .expression radicand r) :
      Derives .primary
        (⟨.root, position⟩ :: ⟨.leftBracket, opening⟩ ::
          (index ++ ⟨.rightBracket, closing⟩ :: ⟨.leftParen, opening'⟩ ::
            (radicand ++ [⟨.rightParen, closing'⟩])))
        (.root i r position)

theorem ParseTree.height_pos (tree : ParseTree) : 0 < tree.height := by
  cases tree <;> simp [ParseTree.height]

/-- Whether a text of the category can start with the token. -/
def Category.starts (category : Category) : Token → Bool
  | .number _ | .identifier _ | .leftParen | .frac | .root => true
  | .minus => category = .expression || category = .product || category = .unary
  | _ => false

/-- How loosely a token ties what follows it to what stands before it. -/
def Token.looseness : Token → Nat
  | leftParen => 0
  | bang => 1
  | caret => 2
  | star | slash | percent => 3
  | plus | minus => 4
  | _ => 5

def Category.looseness : Category → Nat
  | primary => 0
  | factorial => 1
  | power | unary => 2
  | product => 3
  | expression => 4

/-- A text of the category that these lexemes follow does not go on with them. -/
def Category.Stops (category : Category) : List Lexeme → Prop
  | [] => True
  | next :: _ => category.looseness < next.token.looseness

/-- What stops a loose category stops a tighter one too. -/
theorem Category.Stops.mono {loose tight : Category} {rest : List Lexeme} (h : loose.Stops rest)
    (hle : tight.looseness ≤ loose.looseness) : tight.Stops rest := by
  cases rest with
  | nil => trivial
  | cons next rest => exact Nat.lt_of_le_of_lt hle h

theorem Token.looseness_of_isAdditive {token : Token} (h : token.isAdditive) :
    token.looseness = 4 := by
  cases token <;> simp_all [isAdditive, looseness]

theorem Token.looseness_of_isMultiplicative {token : Token} (h : token.isMultiplicative) :
    token.looseness = 3 := by
  cases token <;> simp_all [isMultiplicative, looseness]

/-- Every construct has a first lexeme, and that one may start its category. -/
theorem Derives.exists_cons {category : Category} {lexemes : List Lexeme} {tree : ParseTree}
    (h : Derives category lexemes tree) :
    ∃ first others, lexemes = first :: others ∧ category.starts first.token := by
  induction h with
  | sum _ _ _ ihleft _ | product _ _ _ ihleft _ | power _ _ ihleft _ | factorial _ ihleft =>
    obtain ⟨first, others, rfl, hfirst⟩ := ihleft
    exact ⟨first, _, rfl, by simp_all [Category.starts]⟩
  | ofProduct _ ih | ofUnary _ ih | ofPower _ ih | ofFactorial _ ih | ofPrimary _ ih =>
    obtain ⟨first, others, rfl, hfirst⟩ := ih
    refine ⟨first, others, rfl, ?_⟩
    cases htoken : first.token <;> simp_all [Category.starts]
  | negation => exact ⟨_, _, rfl, rfl⟩
  | number | identifier | call | group | fraction | curriedFraction | squareRoot | root =>
    exact ⟨_, _, rfl, rfl⟩

end Formula
