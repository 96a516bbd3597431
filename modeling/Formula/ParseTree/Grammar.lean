import Formula.ParseTree.Primary

/-!
# The grammar of expressions

```text
expression := product (("+" | "-") product)*
product    := unary (("*" | "/" | "%") unary)*
unary      := "-" unary | power
power      := factorial ("^" unary)?
factorial  := primary "!"*
primary    := NUMBER | IDENTIFIER | IDENTIFIER "(" expression ")" | "(" expression ")"
            | FRAC "(" expression "," expression ")" | FRAC "(" expression ")" "(" expression ")"
            | ROOT ("[" expression "]")? "(" expression ")"
```

Each rule is built from the rules it uses and gives trees up to a limit of height. The nested ones
are given a bounded number of levels, so a hostile text cannot nest the reading deeper than the
trees that are accepted.
-/

namespace Formula

namespace Rule

/-- Wraps a tree in as many factorials as follow it. -/
def factorials (limit : Nat) (operand : ParseTree) : List Lexeme → Reading
  | ⟨.bang, position⟩ :: rest => do
    let tree ← (ParseTree.factorial operand position).bounded limit position
    factorials limit tree rest
  | rest => .ok (operand, rest)

theorem factorials_length_le {limit : Nat} {operand tree : ParseTree}
    {lexemes rest : List Lexeme} (h : factorials limit operand lexemes = .ok (tree, rest)) :
    rest.length ≤ lexemes.length := by
  fun_induction factorials limit operand lexemes with
  | case1 operand position after ih =>
    obtain ⟨wrapped, _, h⟩ := bind_eq_ok_iff.1 h
    exact Nat.le_succ_of_le (ih wrapped h)
  | case2 =>
    cases h
    exact Nat.le_refl _

def factorial (limit : Nat) (primary : Rule) : Rule where
  read lexemes := do
    let (operand, rest) ← primary.read lexemes
    factorials limit operand rest
  length_lt h := by
    obtain ⟨_, hoperand, h⟩ := bind_eq_ok_iff.1 h
    exact Nat.lt_of_le_of_lt (factorials_length_le h) (primary.length_lt hoperand)

/-- A power, if an exponent follows the base, and otherwise the base by itself. -/
def afterBase (limit : Nat) (exponent : Rule) (base : ParseTree) : List Lexeme → Reading
  | ⟨.caret, position⟩ :: rest => do
    let (right, rest) ← exponent.read rest
    let tree ← (ParseTree.binary base .caret right position).bounded limit position
    return (tree, rest)
  | rest => .ok (base, rest)

theorem afterBase_length_le {limit : Nat} {exponent : Rule} {base tree : ParseTree}
    {lexemes rest : List Lexeme}
    (h : afterBase limit exponent base lexemes = .ok (tree, rest)) :
    rest.length ≤ lexemes.length := by
  unfold afterBase at h
  split at h
  · obtain ⟨_, hright, -⟩ := exists_of_wrapped (.binary base .caret · _) h
    exact Nat.le_succ_of_le (Nat.le_of_lt (exponent.length_lt hright))
  · cases h
    exact Nat.le_refl _

def power (limit : Nat) (base exponent : Rule) : Rule where
  read lexemes := do
    let (tree, rest) ← base.read lexemes
    afterBase limit exponent tree rest
  length_lt h := by
    obtain ⟨_, hbase, h⟩ := bind_eq_ok_iff.1 h
    exact Nat.lt_of_le_of_lt (afterBase_length_le h) (base.length_lt hbase)

/-- A negation of what `operand` reads, or else what `power` reads. -/
def negation (limit : Nat) (operand power : Rule) : Rule where
  read
    | ⟨.minus, position⟩ :: rest => do
      let (inner, rest) ← operand.read rest
      let tree ← (ParseTree.negation inner position).bounded limit position
      return (tree, rest)
    | lexemes => power.read lexemes
  length_lt h := by
    split at h
    · obtain ⟨_, hinner, -⟩ := exists_of_wrapped (.negation · _) h
      exact Nat.lt_succ_of_lt (operand.length_lt hinner)
    · exact power.length_lt h

/-- Sums of products of what `unary` reads. -/
def expression (limit : Nat) (unary : Rule) : Rule :=
  (unary.chain limit Token.isMultiplicative).chain limit Token.isAdditive

/-- The unary rule with room for a number of nested levels. A minus, an exponent and whatever is
enclosed in a primary stand one level deeper. -/
def unary (limit : Nat) : Nat → Rule
  | 0 => tooDeep
  | room + 1 =>
    let deeper := unary limit room
    negation limit deeper
      (power limit (factorial limit (primary limit (expression limit deeper))) deeper)

end Rule

namespace ParseTree

/-- The tree of lexemes that form exactly one expression, if it is not higher than `limit`. -/
def ofLexemesWithin (limit : Nat) (lexemes : List Lexeme) : Except ParseError ParseTree := do
  let (tree, rest) ← (Rule.expression limit (Rule.unary limit (limit + 1))).read lexemes
  match rest with
  | [] => return tree
  | found :: _ => .error (.trailing found)

/-- The tree of a text's lexemes, which must form exactly one expression. -/
def ofLexemes (lexemes : List Lexeme) : Except ParseError ParseTree :=
  ofLexemesWithin maxHeight lexemes

def parse (source : String) : Except ParseError ParseTree := do
  let lexemes ← (Token.lex source).mapError .lexical
  ofLexemes lexemes

end ParseTree

end Formula
