import Formula.Compile
import Formula.Proofs.RoundTrip

/-!
# Positions are for errors only

Moving the lexemes of a text to other positions moves the positions in its tree, and the position in
its error if there is one, and changes nothing else: every rule takes the same lexemes and refuses
the same one, and the same expression is built. Where the lexemes have run out a nesting that is too
deep is reported at 0, so 0 has to stay where it is.
-/

namespace Formula

section

variable (move : Nat → Nat)

def Lexeme.relocate (lexeme : Lexeme) : Lexeme :=
  ⟨lexeme.token, move lexeme.position⟩

def LexicalError.relocate (error : LexicalError) : LexicalError :=
  ⟨error.character, move error.position⟩

def ParseTree.relocate : ParseTree → ParseTree
  | number text position => .number text (move position)
  | identifier name position => .identifier name (move position)
  | fraction numerator denominator position =>
    .fraction numerator.relocate denominator.relocate (move position)
  | call keyword argument position => .call keyword argument.relocate (move position)
  | squareRoot radicand position => .squareRoot radicand.relocate (move position)
  | root index radicand position => .root index.relocate radicand.relocate (move position)
  | binary left operator right position =>
    .binary left.relocate operator right.relocate (move position)
  | negation operand position => .negation operand.relocate (move position)
  | factorial operand position => .factorial operand.relocate (move position)
  | group inner => .group inner.relocate

def ParseError.relocate : ParseError → ParseError
  | lexical error => .lexical (error.relocate move)
  | unexpected found => .unexpected (found.relocate move)
  | unexpectedEnd => .unexpectedEnd
  | expected wanted found => .expected wanted (found.relocate move)
  | trailing found => .trailing (found.relocate move)
  | tooDeep position => .tooDeep (move position)

def BuildError.relocate : BuildError → BuildError
  | unknownFunction keyword position => .unknownFunction keyword (move position)
  | unknownOperator found => .unknownOperator (found.relocate move)
  | invalidNumber text position => .invalidNumber text (move position)
  | malformedNumber held => .malformedNumber held
  | malformedIdentifier held => .malformedIdentifier held

def Error.relocate : Error → Error
  | parse error => .parse (error.relocate move)
  | build error => .build (error.relocate move)
  | evaluation error => .evaluation error

@[simp] theorem ParseTree.height_relocate (tree : ParseTree) :
    (tree.relocate move).height = tree.height := by
  induction tree <;> simp [relocate, height, *]

@[simp] theorem Lexeme.map_token_relocate (lexemes : List Lexeme) :
    (lexemes.map (Lexeme.relocate move)).map Lexeme.token = lexemes.map Lexeme.token := by
  rw [List.map_map]
  rfl

end

def mapBoth {ε ε' α α' : Type} (onError : ε → ε') (onValue : α → α') : Except ε α → Except ε' α'
  | .ok value => .ok (onValue value)
  | .error error => .error (onError error)

/-- A computation that goes on with changed values does so from its first step on. -/
theorem mapBoth_bind {ε ε' α α' β β' : Type} {onError : ε → ε'} {onFirst : α → α'}
    {onSecond : β → β'} {first : Except ε α} {next : α → Except ε β} {next' : α' → Except ε' β'}
    (h : ∀ value, first = .ok value →
      next' (onFirst value) = mapBoth onError onSecond (next value)) :
    mapBoth onError onFirst first >>= next' = mapBoth onError onSecond (first >>= next) := by
  cases first with
  | ok value => exact h value rfl
  | error error => rfl

theorem mapError_eq_mapBoth {ε ε' α : Type} (onError : ε → ε') (result : Except ε α) :
    result.mapError onError = mapBoth onError id result := by
  cases result <;> rfl

namespace Rule

variable (move : Nat → Nat)

/-- What a rule reads of lexemes that are moved. -/
def relocateReading : Reading → Reading :=
  mapBoth (ParseError.relocate move) (Prod.map (ParseTree.relocate move)
    (List.map (Lexeme.relocate move)))

/-- The second function reads of moved lexemes what the first one reads, moved. -/
def Moves (read moved : List Lexeme → Reading) : Prop :=
  ∀ lexemes, moved (lexemes.map (Lexeme.relocate move)) = relocateReading move (read lexemes)

/-- The rule has no position of its own, so what it reads moves with the lexemes. -/
abbrev Movable (rule : Rule) : Prop :=
  Moves move rule.read rule.read

variable {move}

theorem movable_tooDeep (hzero : move 0 = 0) : Movable move tooDeep := by
  intro lexemes
  cases lexemes with
  | nil => exact congrArg (Except.error ∘ ParseError.tooDeep) hzero.symm
  | cons lexeme rest => rfl

/-- Whether a token is the expected one does not depend on where it stands. -/
theorem expect_relocate (wanted : Token) (lexemes : List Lexeme) :
    expect wanted (lexemes.map (Lexeme.relocate move)) =
      mapBoth (ParseError.relocate move) (List.map (Lexeme.relocate move))
        (expect wanted lexemes) := by
  cases lexemes with
  | nil => rfl
  | cons found rest =>
    by_cases h : found.token = wanted
    · simp only [List.map_cons, expect, Lexeme.relocate, if_pos h, mapBoth]
    · simp only [List.map_cons, expect, Lexeme.relocate, if_neg h, mapBoth, ParseError.relocate]

/-- A tree is too high at every place or at none. -/
theorem bounded_relocate (limit position : Nat) (tree : ParseTree) :
    (tree.relocate move).bounded limit (move position) =
      mapBoth (ParseError.relocate move) (ParseTree.relocate move)
        (tree.bounded limit position) := by
  by_cases h : limit < tree.height
  · simp only [ParseTree.bounded, ParseTree.height_relocate, if_pos h, mapBoth, ParseError.relocate]
  · simp only [ParseTree.bounded, ParseTree.height_relocate, if_neg h, mapBoth]

/-- What is read becomes part of one more construct. -/
theorem Moves.wrapped {read moved : List Lexeme → Reading} (h : Moves move read moved)
    (limit position : Nat) (wrap wrap' : ParseTree → ParseTree)
    (hwrap : ∀ tree, wrap' (tree.relocate move) = (wrap tree).relocate move) :
    Moves move
      (fun lexemes ↦ do
        let (inner, rest) ← read lexemes
        let tree ← (wrap inner).bounded limit position
        return (tree, rest))
      (fun lexemes ↦ do
        let (inner, rest) ← moved lexemes
        let tree ← (wrap' inner).bounded limit (move position)
        return (tree, rest)) := by
  intro lexemes
  dsimp only
  rw [h lexemes]
  refine mapBoth_bind fun reading _ ↦ ?_
  obtain ⟨inner, rest⟩ := reading
  dsimp only [Prod.map]
  rw [hwrap, bounded_relocate]
  exact mapBoth_bind fun tree _ ↦ rfl

section

variable {expression : Rule} (h : Movable move expression)

include h

theorem movable_enclosed (opening closing : Token) :
    Movable move (enclosed opening closing expression) := by
  intro lexemes
  simp only [enclosed, expect_relocate]
  refine mapBoth_bind fun rest _ ↦ ?_
  rw [h rest]
  refine mapBoth_bind fun reading _ ↦ ?_
  obtain ⟨inner, rest⟩ := reading
  dsimp only [Prod.map]
  rw [expect_relocate]
  exact mapBoth_bind fun rest _ ↦ rfl

theorem movable_denominator : Movable move (denominator expression) := by
  intro lexemes
  match lexemes with
  | [] => rfl
  | ⟨token, position⟩ :: rest =>
    cases token with
    | comma =>
      change (do
        let (tree, rest) ← expression.read (rest.map (Lexeme.relocate move))
        let rest ← expect .rightParen rest
        return (tree, rest)) = _
      rw [h rest]
      refine mapBoth_bind fun reading _ ↦ ?_
      obtain ⟨tree, rest⟩ := reading
      dsimp only [Prod.map]
      rw [expect_relocate]
      exact mapBoth_bind fun rest _ ↦ rfl
    | rightParen => exact movable_enclosed h .leftParen .rightParen rest
    | _ => rfl

variable (limit position : Nat)

theorem moves_afterIdentifier (name : String) :
    Moves move (afterIdentifier limit expression name position)
      (afterIdentifier limit expression name (move position)) := by
  intro lexemes
  have hcall := (movable_enclosed h .leftParen .rightParen).wrapped limit position
    (.call name · position) (.call name · (move position)) fun _ ↦ rfl
  match lexemes with
  | [] => rfl
  | ⟨token, opening⟩ :: rest =>
    cases token with
    | leftParen => exact hcall (⟨.leftParen, opening⟩ :: rest)
    | _ => rfl

theorem moves_afterFrac :
    Moves move (afterFrac limit expression position)
      (afterFrac limit expression (move position)) := by
  intro lexemes
  unfold afterFrac
  rw [expect_relocate]
  refine mapBoth_bind fun rest _ ↦ ?_
  rw [h rest]
  refine mapBoth_bind fun reading _ ↦ ?_
  obtain ⟨numerator, rest⟩ := reading
  exact (movable_denominator h).wrapped limit position (.fraction numerator · position)
    (.fraction (numerator.relocate move) · (move position)) (fun _ ↦ rfl) rest

theorem moves_afterRoot :
    Moves move (afterRoot limit expression position)
      (afterRoot limit expression (move position)) := by
  intro lexemes
  have hradicand := movable_enclosed h .leftParen .rightParen
  have hsquare := hradicand.wrapped limit position (.squareRoot · position)
    (.squareRoot · (move position)) fun _ ↦ rfl
  match lexemes with
  | [] => exact hsquare []
  | ⟨token, opening⟩ :: rest =>
    have hself := hsquare (⟨token, opening⟩ :: rest)
    cases token with
    | leftBracket =>
      have hindex := movable_enclosed h .leftBracket .rightBracket (⟨.leftBracket, opening⟩ :: rest)
      rw [List.map_cons] at hindex ⊢
      unfold afterRoot
      dsimp only [Lexeme.relocate] at hindex ⊢
      rw [hindex]
      refine mapBoth_bind fun reading _ ↦ ?_
      obtain ⟨index, rest⟩ := reading
      exact hradicand.wrapped limit position (.root index · position)
        (.root (index.relocate move) · (move position)) (fun _ ↦ rfl) rest
    | _ => exact hself

omit position

/-- A primary expression is read alike at all places. -/
theorem movable_primary : Movable move (primary limit expression) := by
  intro lexemes
  match lexemes with
  | [] => rfl
  | ⟨token, position⟩ :: rest =>
    cases token with
    | identifier name => exact moves_afterIdentifier h limit position name rest
    | leftParen =>
      exact (movable_enclosed h .leftParen .rightParen).wrapped limit position
        .group .group (fun _ ↦ rfl) (⟨.leftParen, position⟩ :: rest)
    | frac => exact moves_afterFrac h limit position rest
    | root => exact moves_afterRoot h limit position rest
    | _ => rfl

end

section

variable (limit : Nat)

theorem moves_factorials (operand : ParseTree) :
    Moves move (factorials limit operand) (factorials limit (operand.relocate move)) := by
  intro lexemes
  induction lexemes generalizing operand with
  | nil => rfl
  | cons next rest ih =>
    obtain ⟨token, position⟩ := next
    cases token with
    | bang =>
      change (do
        let tree ← ((ParseTree.factorial operand position).relocate move).bounded limit
          (move position)
        factorials limit tree (rest.map (Lexeme.relocate move))) = _
      rw [bounded_relocate]
      exact mapBoth_bind fun tree _ ↦ ih tree
    | _ => rfl

theorem movable_factorial {primary : Rule} (h : Movable move primary) :
    Movable move (factorial limit primary) := by
  intro lexemes
  simp only [factorial, h lexemes]
  exact mapBoth_bind fun reading _ ↦ moves_factorials limit reading.1 reading.2

theorem moves_extend (binds : Token → Bool) {operand : Rule} (h : Movable move operand)
    (left : ParseTree) :
    Moves move (extend limit binds operand left)
      (extend limit binds operand (left.relocate move)) := by
  intro lexemes
  induction hlength : lexemes.length using Nat.strong_induction_on
    generalizing left lexemes with
  | _ length ih =>
    cases lexemes with
    | nil =>
      rw [List.map_nil, extend, extend]
      rfl
    | cons operator rest =>
      rw [List.map_cons, extend_cons, extend_cons]
      cases hbinds : binds operator.token with
      | false => simp [Lexeme.relocate, hbinds, relocateReading, mapBoth]
      | true =>
        simp only [Lexeme.relocate, hbinds, if_true]
        rw [h rest]
        refine mapBoth_bind fun reading hright ↦ ?_
        obtain ⟨right, after⟩ := reading
        have hshorter : after.length < length := by
          have := operand.length_lt hright
          simp at hlength
          omega
        let wrapped := ParseTree.binary left operator.token right operator.position
        change (do
          let tree ← (wrapped.relocate move).bounded limit (move operator.position)
          extend limit binds operand tree (after.map (Lexeme.relocate move))) = _
        rw [bounded_relocate]
        exact mapBoth_bind fun tree _ ↦ ih after.length hshorter tree after rfl

theorem movable_chain (binds : Token → Bool) {operand : Rule} (h : Movable move operand) :
    Movable move (operand.chain limit binds) := by
  intro lexemes
  simp only [chain, h lexemes]
  exact mapBoth_bind fun reading _ ↦ moves_extend limit binds h reading.1 reading.2

theorem movable_expression {unary : Rule} (h : Movable move unary) :
    Movable move (expression limit unary) :=
  movable_chain limit _ (movable_chain limit _ h)

theorem moves_afterBase {exponent : Rule} (h : Movable move exponent) (base : ParseTree) :
    Moves move (afterBase limit exponent base)
      (afterBase limit exponent (base.relocate move)) := by
  intro lexemes
  match lexemes with
  | [] => rfl
  | ⟨token, position⟩ :: rest =>
    cases token with
    | caret =>
      exact h.wrapped limit position (.binary base .caret · position)
        (.binary (base.relocate move) .caret · (move position)) (fun _ ↦ rfl) rest
    | _ => rfl

theorem movable_power {base exponent : Rule} (hbase : Movable move base)
    (hexponent : Movable move exponent) : Movable move (power limit base exponent) := by
  intro lexemes
  simp only [power, hbase lexemes]
  exact mapBoth_bind fun reading _ ↦ moves_afterBase limit hexponent reading.1 reading.2

theorem movable_negation {operand power : Rule} (hoperand : Movable move operand)
    (hpower : Movable move power) : Movable move (negation limit operand power) := by
  intro lexemes
  match lexemes with
  | [] => exact hpower []
  | ⟨token, position⟩ :: rest =>
    have hself := hpower (⟨token, position⟩ :: rest)
    cases token with
    | minus =>
      exact hoperand.wrapped limit position (.negation · position)
        (.negation · (move position)) (fun _ ↦ rfl) rest
    | _ => exact hself

theorem movable_unary (hzero : move 0 = 0) (room : Nat) : Movable move (unary limit room) := by
  induction room with
  | zero => exact movable_tooDeep hzero
  | succ room ih =>
    have hprimary := movable_primary (movable_expression limit ih) limit
    exact movable_negation limit ih (movable_power limit (movable_factorial limit hprimary) ih)

end

end Rule

/-- Moving the lexemes moves the tree or the error, and nothing else. -/
theorem ParseTree.ofLexemesWithin_relocate {move : Nat → Nat} (hzero : move 0 = 0) (limit : Nat)
    (lexemes : List Lexeme) :
    ofLexemesWithin limit (lexemes.map (Lexeme.relocate move)) =
      mapBoth (ParseError.relocate move) (relocate move) (ofLexemesWithin limit lexemes) := by
  have hunary := Rule.movable_unary limit hzero (limit + 1)
  unfold ofLexemesWithin
  rw [Rule.movable_expression limit hunary lexemes]
  refine mapBoth_bind fun reading _ ↦ ?_
  obtain ⟨tree, rest⟩ := reading
  cases rest <;> rfl

theorem Expr.readNumber_relocate (move : Nat → Nat) (text : String) (position : Nat) :
    readNumber text (move position) =
      mapBoth (BuildError.relocate move) id (readNumber text position) := by
  unfold readNumber
  cases Decimal.readFloat? text <;> rfl

/-- Building uses positions for errors only. -/
theorem Expr.ofParseTree?_relocate (move : Nat → Nat) (tree : ParseTree) :
    ofParseTree? (tree.relocate move) =
      mapBoth (BuildError.relocate move) id (ofParseTree? tree) := by
  induction tree with
  | number text position =>
    rw [ParseTree.relocate, ofParseTree?_number, ofParseTree?_number, readNumber_relocate]
    cases readNumber text position <;> rfl
  | identifier name position => rfl
  | fraction numerator denominator position ihn ihd =>
    rw [ParseTree.relocate, ofParseTree?_fraction, ofParseTree?_fraction, ihn, ihd]
    exact mapBoth_bind fun n _ ↦ mapBoth_bind fun d _ ↦ rfl
  | call keyword argument position ih =>
    rw [ParseTree.relocate, ofParseTree?_call, ofParseTree?_call, ih]
    refine mapBoth_bind fun a _ ↦ ?_
    cases Function.ofKeyword? keyword <;> rfl
  | squareRoot radicand position ih =>
    rw [ParseTree.relocate, ofParseTree?_squareRoot, ofParseTree?_squareRoot, ih]
    exact mapBoth_bind fun r _ ↦ rfl
  | root index radicand position ihi ihr =>
    rw [ParseTree.relocate, ofParseTree?_root, ofParseTree?_root, ihi, ihr]
    exact mapBoth_bind fun i _ ↦ mapBoth_bind fun r _ ↦ rfl
  | binary left operator right position ihl ihr =>
    rw [ParseTree.relocate, ofParseTree?_binary, ofParseTree?_binary, ihl, ihr]
    refine mapBoth_bind fun l _ ↦ mapBoth_bind fun r _ ↦ ?_
    cases operator.operator? <;> rfl
  | negation operand position ih =>
    rw [ParseTree.relocate, ofParseTree?_negation, ofParseTree?_negation, ih]
    exact mapBoth_bind fun x _ ↦ rfl
  | factorial operand position ih =>
    rw [ParseTree.relocate, ofParseTree?_factorial, ofParseTree?_factorial, ih]
    exact mapBoth_bind fun x _ ↦ rfl
  | group inner ih => exact ih

/-- A text with the lexemes of another one, moved, compiles to the same expression, or fails with
the same error, moved. -/
theorem compile_relocate {move : Nat → Nat} (hzero : move 0 = 0) {source other : String}
    {lexemes : List Lexeme} (hsource : Token.lex source = .ok lexemes)
    (hother : Token.lex other = .ok (lexemes.map (Lexeme.relocate move))) :
    (compile other).result = (compile source).result.mapError (Error.relocate move) := by
  have hparse : ParseTree.ofLexemes (lexemes.map (Lexeme.relocate move)) =
      mapBoth (ParseError.relocate move) (ParseTree.relocate move) (ParseTree.ofLexemes lexemes) :=
    ParseTree.ofLexemesWithin_relocate hzero ParseTree.maxHeight lexemes
  rw [mapError_eq_mapBoth, result_compile, result_compile, hsource, hother]
  change (do
    let tree ← (ParseTree.ofLexemes (lexemes.map (Lexeme.relocate move))).mapError Error.parse
    (Expr.ofParseTree? tree).mapError Error.build) = mapBoth _ id (do
      let tree ← (ParseTree.ofLexemes lexemes).mapError Error.parse
      (Expr.ofParseTree? tree).mapError Error.build)
  rw [hparse]
  cases ParseTree.ofLexemes lexemes with
  | error error => rfl
  | ok tree =>
    change (Expr.ofParseTree? (tree.relocate move)).mapError Error.build =
      mapBoth _ id ((Expr.ofParseTree? tree).mapError Error.build)
    rw [Expr.ofParseTree?_relocate]
    cases Expr.ofParseTree? tree <;> rfl

end Formula
