import Formula.Token

/-!
# Parse trees

A parse tree records what was written: numbers as text, functions as keywords, operators as
tokens and the parentheses that group. It can be measured, shown and folded; a fold gives each
construct its meaning, children before parents.
-/

namespace Formula

/-- One case per construct of the language; a position is the byte offset of the construct's own
literal, name, keyword or operator. -/
inductive ParseTree where
  | number (text : String) (position : Nat)
  | identifier (name : String) (position : Nat)
  | fraction (numerator denominator : ParseTree) (position : Nat)
  | call (keyword : String) (argument : ParseTree) (position : Nat)
  | squareRoot (radicand : ParseTree) (position : Nat)
  | root (index radicand : ParseTree) (position : Nat)
  | binary (left : ParseTree) (operator : Token) (right : ParseTree) (position : Nat)
  | negation (operand : ParseTree) (position : Nat)
  | factorial (operand : ParseTree) (position : Nat)
  | group (inner : ParseTree)
deriving DecidableEq, Repr

namespace ParseTree

/-- The number of constructs on the longest path down to a leaf. -/
def height : ParseTree → Nat
  | number _ _ => 1
  | identifier _ _ => 1
  | fraction numerator denominator _ => max numerator.height denominator.height + 1
  | call _ argument _ => argument.height + 1
  | squareRoot radicand _ => radicand.height + 1
  | root index radicand _ => max index.height radicand.height + 1
  | binary left _ right _ => max left.height right.height + 1
  | negation operand _ => operand.height + 1
  | factorial operand _ => operand.height + 1
  | group inner => inner.height + 1

/-- The tree written out, with one space around each infix operator and after a comma. -/
def text : ParseTree → String
  | number text _ => text
  | identifier name _ => name
  | fraction numerator denominator _ =>
    "frac(" ++ numerator.text ++ ", " ++ denominator.text ++ ")"
  | call keyword argument _ => keyword ++ "(" ++ argument.text ++ ")"
  | squareRoot radicand _ => "sqrt(" ++ radicand.text ++ ")"
  | root index radicand _ => "root[" ++ index.text ++ "](" ++ radicand.text ++ ")"
  | binary left operator right _ => left.text ++ " " ++ operator.text ++ " " ++ right.text
  | negation operand _ => "-" ++ operand.text
  | factorial operand _ => operand.text ++ "!"
  | group inner => "(" ++ inner.text ++ ")"

universe u v

/-- What each construct is turned into, given what its children were turned into. -/
structure Algebra (m : Type u → Type v) (α : Type u) where
  number : String → Nat → m α
  identifier : String → Nat → m α
  fraction : α → α → Nat → m α
  call : String → α → Nat → m α
  /-- The index is absent where none is written. -/
  root : Option α → α → Nat → m α
  binary : α → Token → α → Nat → m α
  negation : α → Nat → m α
  factorial : α → Nat → m α

variable {m : Type u → Type v} [Monad m] {α : Type u}

/-- Visits every construct once, children from left to right before their parent. A group is
whatever is inside it. -/
def foldM (algebra : Algebra m α) : ParseTree → m α
  | number text position => algebra.number text position
  | identifier name position => algebra.identifier name position
  | fraction numerator denominator position => do
    let n ← numerator.foldM algebra
    let d ← denominator.foldM algebra
    algebra.fraction n d position
  | call keyword argument position => do
    let a ← argument.foldM algebra
    algebra.call keyword a position
  | squareRoot radicand position => do
    let r ← radicand.foldM algebra
    algebra.root none r position
  | root index radicand position => do
    let i ← index.foldM algebra
    let r ← radicand.foldM algebra
    algebra.root (some i) r position
  | binary left operator right position => do
    let l ← left.foldM algebra
    let r ← right.foldM algebra
    algebra.binary l operator r position
  | negation operand position => do
    let x ← operand.foldM algebra
    algebra.negation x position
  | factorial operand position => do
    let x ← operand.foldM algebra
    algebra.factorial x position
  | group inner => inner.foldM algebra

end ParseTree

end Formula
