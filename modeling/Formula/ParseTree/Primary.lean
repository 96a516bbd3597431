import Formula.ParseTree.Rule

/-!
# Primaries

The constructs that show where they end: numbers, names, calls, groups, fractions and roots. What
they enclose is read by a rule that is given to them.
-/

namespace Formula.Rule

/-- An expression between two delimiters; the tree is the one inside. -/
def enclosed (opening closing : Token) (expression : Rule) : Rule where
  read lexemes := do
    let rest ← expect opening lexemes
    let (inner, rest) ← expression.read rest
    let rest ← expect closing rest
    return (inner, rest)
  length_lt h := by
    obtain ⟨_, hopening, h⟩ := bind_eq_ok_iff.1 h
    obtain ⟨_, hinner, h⟩ := bind_eq_ok_iff.1 h
    obtain ⟨_, hclosing, h⟩ := bind_eq_ok_iff.1 h
    cases h
    have hshorter := expression.length_lt hinner
    rw [expect_length hclosing] at hshorter
    rw [expect_length hopening]
    exact Nat.lt_succ_of_lt (Nat.lt_of_succ_lt hshorter)

def parenthesized (expression : Rule) : Rule :=
  enclosed .leftParen .rightParen expression

/-- The denominator after a numerator: past a comma, or in parentheses of its own. -/
def denominator (expression : Rule) : Rule where
  read
    | [] => .error .unexpectedEnd
    | ⟨.comma, _⟩ :: rest => do
      let (tree, rest) ← expression.read rest
      let rest ← expect .rightParen rest
      return (tree, rest)
    | ⟨.rightParen, _⟩ :: rest => expression.parenthesized.read rest
    | found :: _ => .error (.expected .comma found)
  length_lt h := by
    split at h
    · simp at h
    · obtain ⟨_, htree, h⟩ := bind_eq_ok_iff.1 h
      obtain ⟨_, hclosing, h⟩ := bind_eq_ok_iff.1 h
      cases h
      have := expression.length_lt htree
      have := expect_length hclosing
      simp only [List.length_cons]
      omega
    · have := expression.parenthesized.length_lt h
      simp only [List.length_cons]
      omega
    · simp at h

/-! ## What follows a keyword -/

/-- A call, if an argument follows the name, and otherwise the name by itself. -/
def afterIdentifier (limit : Nat) (expression : Rule) (name : String) (position : Nat) :
    List Lexeme → Reading
  | ⟨.leftParen, opening⟩ :: rest => do
    let (argument, rest) ← expression.parenthesized.read (⟨.leftParen, opening⟩ :: rest)
    let tree ← (ParseTree.call name argument position).bounded limit position
    return (tree, rest)
  | rest => .ok (.identifier name position, rest)

def afterFrac (limit : Nat) (expression : Rule) (position : Nat) (lexemes : List Lexeme) :
    Reading := do
  let rest ← expect .leftParen lexemes
  let (numerator, rest) ← expression.read rest
  let (denominator, rest) ← expression.denominator.read rest
  let tree ← (ParseTree.fraction numerator denominator position).bounded limit position
  return (tree, rest)

def afterRoot (limit : Nat) (expression : Rule) (position : Nat) : List Lexeme → Reading
  | ⟨.leftBracket, opening⟩ :: rest => do
    let (index, rest) ←
      (expression.enclosed .leftBracket .rightBracket).read (⟨.leftBracket, opening⟩ :: rest)
    let (radicand, rest) ← expression.parenthesized.read rest
    let tree ← (ParseTree.root index radicand position).bounded limit position
    return (tree, rest)
  | rest => do
    let (radicand, rest) ← expression.parenthesized.read rest
    let tree ← (ParseTree.squareRoot radicand position).bounded limit position
    return (tree, rest)

theorem afterIdentifier_length_le {limit : Nat} {expression : Rule} {name : String}
    {position : Nat} {lexemes rest : List Lexeme} {tree : ParseTree}
    (h : afterIdentifier limit expression name position lexemes = .ok (tree, rest)) :
    rest.length ≤ lexemes.length := by
  unfold afterIdentifier at h
  split at h
  · obtain ⟨_, hargument, -⟩ := exists_of_wrapped (.call name · position) h
    exact Nat.le_of_lt (expression.parenthesized.length_lt hargument)
  · cases h
    exact Nat.le_refl _

theorem afterFrac_length_le {limit : Nat} {expression : Rule} {position : Nat}
    {lexemes rest : List Lexeme} {tree : ParseTree}
    (h : afterFrac limit expression position lexemes = .ok (tree, rest)) :
    rest.length ≤ lexemes.length := by
  obtain ⟨_, hopening, h⟩ := bind_eq_ok_iff.1 h
  obtain ⟨⟨numerator, _⟩, hnumerator, h⟩ := bind_eq_ok_iff.1 h
  obtain ⟨_, hdenominator, -⟩ := exists_of_wrapped (.fraction numerator · position) h
  have := expect_length hopening
  have := expression.length_lt hnumerator
  have := expression.denominator.length_lt hdenominator
  omega

theorem afterRoot_length_le {limit : Nat} {expression : Rule} {position : Nat}
    {lexemes rest : List Lexeme} {tree : ParseTree}
    (h : afterRoot limit expression position lexemes = .ok (tree, rest)) :
    rest.length ≤ lexemes.length := by
  unfold afterRoot at h
  split at h
  · obtain ⟨⟨index, _⟩, hindex, h⟩ := bind_eq_ok_iff.1 h
    obtain ⟨_, hradicand, -⟩ := exists_of_wrapped (.root index · position) h
    have := (expression.enclosed .leftBracket .rightBracket).length_lt hindex
    have := expression.parenthesized.length_lt hradicand
    omega
  · obtain ⟨_, hradicand, -⟩ := exists_of_wrapped (.squareRoot · position) h
    exact Nat.le_of_lt (expression.parenthesized.length_lt hradicand)

def primary (limit : Nat) (expression : Rule) : Rule where
  read
    | [] => .error .unexpectedEnd
    | ⟨.number text, position⟩ :: rest => .ok (.number text position, rest)
    | ⟨.identifier name, position⟩ :: rest => afterIdentifier limit expression name position rest
    | ⟨.leftParen, position⟩ :: rest => do
      let (inner, rest) ← expression.parenthesized.read (⟨.leftParen, position⟩ :: rest)
      let tree ← (ParseTree.group inner).bounded limit position
      return (tree, rest)
    | ⟨.frac, position⟩ :: rest => afterFrac limit expression position rest
    | ⟨.root, position⟩ :: rest => afterRoot limit expression position rest
    | found :: _ => .error (.unexpected found)
  length_lt h := by
    split at h
    · simp at h
    · cases h
      simp
    · exact Nat.lt_succ_of_le (afterIdentifier_length_le h)
    · obtain ⟨_, hinner, -⟩ := exists_of_wrapped .group h
      exact expression.parenthesized.length_lt hinner
    · exact Nat.lt_succ_of_le (afterFrac_length_le h)
    · exact Nat.lt_succ_of_le (afterRoot_length_le h)
    · simp at h

end Formula.Rule
