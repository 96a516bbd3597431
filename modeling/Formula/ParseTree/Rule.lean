import Formula.ParseTree
import Formula.Token.Lexer

/-!
# Grammar rules

A rule reads a tree off the front of the lexemes and returns the lexemes after it. Every rule
takes at least one lexeme, and this is part of its type: a chain of operands ends because each
operand leaves fewer lexemes than it found.
-/

namespace Formula

/-- Why a text is not an expression. -/
inductive ParseError where
  | lexical (error : LexicalError)
  | unexpected (found : Lexeme)
  | unexpectedEnd
  | expected (wanted : Token) (found : Lexeme)
  | trailing (found : Lexeme)
  | tooDeep (position : Nat)
deriving DecidableEq, Repr

namespace ParseError

def message : ParseError → String
  | lexical error => s!"Error at position {error.position}: Unexpected token: {error.character}."
  | unexpected found =>
    s!"Error at position {found.position}: Unexpected token: {found.token.text}."
  | unexpectedEnd => "Unexpected end of input."
  | expected wanted found =>
    s!"Error at position {found.position}: Expected '{wanted.text}' but found {found.token.text}."
  | trailing found =>
    s!"Error at position {found.position}: Extra tokens after expression. Check your input: " ++
      found.token.text
  | tooDeep position => s!"Error at position {position}: Expression is nested too deeply."

end ParseError

/-- A tree and the lexemes after it. -/
abbrev Reading := Except ParseError (ParseTree × List Lexeme)

theorem bind_eq_ok_iff {ε α β : Type} {x : Except ε α} {f : α → Except ε β} {b : β} :
    x >>= f = .ok b ↔ ∃ a, x = .ok a ∧ f a = .ok b := by
  cases x <;> simp [bind, Except.bind]

/-- The greatest height of a tree that is accepted. -/
def ParseTree.maxHeight : Nat := 128

/-- The tree itself, unless it is higher than `limit`; the error then stands at `position`. -/
def ParseTree.bounded (limit position : Nat) (tree : ParseTree) : Except ParseError ParseTree :=
  if limit < tree.height then .error (.tooDeep position) else .ok tree

theorem ParseTree.bounded_eq_ok_iff {limit position : Nat} {tree result : ParseTree} :
    tree.bounded limit position = .ok result ↔ tree.height ≤ limit ∧ tree = result := by
  by_cases h : limit < tree.height
  · simp [bounded, h, Nat.not_le.2 h]
  · simp [bounded, h, Nat.le_of_not_lt h]

/-- The lexemes after the token `wanted`, which must come next. -/
def expect (wanted : Token) : List Lexeme → Except ParseError (List Lexeme)
  | [] => .error .unexpectedEnd
  | found :: rest => if found.token = wanted then .ok rest else .error (.expected wanted found)

theorem expect_eq_ok_iff {wanted : Token} {lexemes rest : List Lexeme} :
    expect wanted lexemes = .ok rest ↔ ∃ position, lexemes = ⟨wanted, position⟩ :: rest := by
  cases lexemes with
  | nil => simp [expect]
  | cons found after =>
    obtain ⟨token, position⟩ := found
    by_cases h : token = wanted <;> simp [expect, h]

theorem expect_cons (wanted : Token) (position : Nat) (rest : List Lexeme) :
    expect wanted (⟨wanted, position⟩ :: rest) = .ok rest :=
  if_pos rfl

theorem expect_length {wanted : Token} {lexemes rest : List Lexeme}
    (h : expect wanted lexemes = .ok rest) : lexemes.length = rest.length + 1 := by
  obtain ⟨position, rfl⟩ := expect_eq_ok_iff.1 h
  rfl

/-- Reads a tree off the front of the lexemes and takes at least one of them. -/
structure Rule where
  read : List Lexeme → Reading
  length_lt {lexemes rest : List Lexeme} {tree : ParseTree} :
    read lexemes = .ok (tree, rest) → rest.length < lexemes.length

namespace Rule

/-- A tree that a rule reads, wraps in one more construct and then bounds. -/
theorem exists_of_wrapped (wrap : ParseTree → ParseTree) {rule : Rule} {limit position : Nat}
    {lexemes rest : List Lexeme} {tree : ParseTree}
    (h : (do
      let (inner, rest) ← rule.read lexemes
      let tree ← (wrap inner).bounded limit position
      return (tree, rest)) = .ok (tree, rest)) :
    ∃ inner, rule.read lexemes = .ok (inner, rest) ∧ tree = wrap inner ∧ tree.height ≤ limit := by
  obtain ⟨⟨inner, after⟩, hread, hwrap⟩ := bind_eq_ok_iff.1 h
  obtain ⟨wrapped, hbounded, hdone⟩ := bind_eq_ok_iff.1 hwrap
  obtain ⟨hheight, rfl⟩ := ParseTree.bounded_eq_ok_iff.1 hbounded
  cases hdone
  exact ⟨inner, hread, rfl, hheight⟩

/-- Accepts nothing: the next lexeme is nested too deeply. -/
def tooDeep : Rule where
  read lexemes := .error (.tooDeep ((lexemes.head?.map Lexeme.position).getD 0))
  length_lt h := by simp at h

/-- Extends a tree, from the left, by as many infix operators and right operands as follow. -/
def extend (limit : Nat) (binds : Token → Bool) (operand : Rule) (left : ParseTree)
    (lexemes : List Lexeme) : Reading :=
  match lexemes with
  | [] => .ok (left, [])
  | operator :: rest =>
    if binds operator.token then
      match h : operand.read rest with
      | .error error => .error error
      | .ok (right, after) =>
        have : after.length < rest.length := operand.length_lt h
        match (ParseTree.binary left operator.token right operator.position).bounded
            limit operator.position with
        | .error error => .error error
        | .ok tree => extend limit binds operand tree after
    else .ok (left, operator :: rest)
termination_by lexemes.length
decreasing_by
  simp only [List.length_cons]
  omega

theorem extend_cons (limit : Nat) (binds : Token → Bool) (operand : Rule) (left : ParseTree)
    (operator : Lexeme) (rest : List Lexeme) :
    extend limit binds operand left (operator :: rest) =
      if binds operator.token then do
        let (right, after) ← operand.read rest
        let tree ← (ParseTree.binary left operator.token right operator.position).bounded limit
          operator.position
        extend limit binds operand tree after
      else .ok (left, operator :: rest) := by
  rw [extend]
  split
  · split
    · next hread => simp [hread, bind, Except.bind]
    · next hread =>
      simp only [hread, bind, Except.bind]
      split <;> simp [*]
  · rfl

theorem extend_length_le {limit : Nat} {binds : Token → Bool} {operand : Rule}
    {left tree : ParseTree} {lexemes rest : List Lexeme}
    (h : extend limit binds operand left lexemes = .ok (tree, rest)) :
    rest.length ≤ lexemes.length := by
  fun_induction extend limit binds operand left lexemes with
  | case1 => simp_all
  | case2 => simp at h
  | case3 => simp at h
  | case4 left operator rest _ right after _ hlt _ _ ih =>
    have := ih h
    simp only [List.length_cons]
    omega
  | case5 => simp_all

/-- One or more operands joined by operators that group from the left. -/
def chain (limit : Nat) (binds : Token → Bool) (operand : Rule) : Rule where
  read lexemes := do
    let (left, rest) ← operand.read lexemes
    extend limit binds operand left rest
  length_lt h := by
    obtain ⟨⟨left, after⟩, hleft, hextend⟩ := bind_eq_ok_iff.1 h
    exact Nat.lt_of_le_of_lt (extend_length_le hextend) (operand.length_lt hleft)

end Rule

end Formula
