import Formula.ParseTree.Grammar
import Formula.Proofs.Derivation

/-!
# What the rules find

Whatever the lexemes derive, the rule of the category finds it, provided that nothing follows which
would carry it on. The only other outcome is that the nesting is too deep, and then the tree is
indeed too high: a tree within the limit needs no more levels than it is high. The proof follows the
derivation, for any number of levels and any lexemes after it.
-/

namespace Formula

open Rule

/-- The result is the expected one, or else it is too deep, and `high` is the reason. -/
def YieldsUnless {α : Type} (high : Prop) (result expected : Except ParseError α) : Prop :=
  result = expected ∨ high ∧ ∃ position, result = .error (.tooDeep position)

namespace YieldsUnless

variable {α β : Type} {high : Prop}

theorem of_eq {result expected : Except ParseError α} (h : result = expected) :
    YieldsUnless high result expected :=
  .inl h

theorem mono {low : Prop} {result expected : Except ParseError α}
    (h : YieldsUnless low result expected) (himp : low → high) :
    YieldsUnless high result expected :=
  h.imp_right (And.imp_left himp)

theorem trans {first second third : Except ParseError α} (hfirst : YieldsUnless high first second)
    (hsecond : YieldsUnless high second third) : YieldsUnless high first third := by
  rcases hfirst with rfl | htooDeep
  · exact hsecond
  · exact .inr htooDeep

/-- Two readings one after the other are too deep if one of them is. -/
theorem bind {first : Except ParseError α} {value : α} {next : α → Except ParseError β}
    {expected : Except ParseError β} (hfirst : YieldsUnless high first (.ok value))
    (hnext : YieldsUnless high (next value) expected) :
    YieldsUnless high (first >>= next) expected := by
  rcases hfirst with hfirst | ⟨hhigh, position, hfirst⟩
  · rw [hfirst]
    exact hnext
  · rw [hfirst]
    exact .inr ⟨hhigh, position, rfl⟩

/-- A construct that is complete apart from the check of its height. -/
theorem bounded {limit room position : Nat} {tree : ParseTree}
    {next : ParseTree → Except ParseError α} {expected : Except ParseError α}
    (hnext : next tree = expected) :
    YieldsUnless (min limit room < tree.height) (tree.bounded limit position >>= next)
      expected := by
  refine bind ?_ (of_eq hnext)
  by_cases h : limit < tree.height
  · exact .inr ⟨Nat.lt_of_le_of_lt (Nat.min_le_left limit room) h, position, if_pos h⟩
  · exact of_eq (if_neg h)

end YieldsUnless

namespace Category

/-- The rule that reads a category inside `room` levels; what a power or a primary contains stands
one level deeper. -/
def rule (limit room : Nat) : Category → Rule
  | expression => Rule.expression limit (Rule.unary limit room)
  | product => (Rule.unary limit room).chain limit Token.isMultiplicative
  | unary => Rule.unary limit room
  | power =>
    Rule.power limit
      (Rule.factorial limit
        (Rule.primary limit (Rule.expression limit (Rule.unary limit (room - 1)))))
      (Rule.unary limit (room - 1))
  | factorial =>
    Rule.factorial limit (Rule.primary limit (Rule.expression limit (Rule.unary limit (room - 1))))
  | primary => Rule.primary limit (Rule.expression limit (Rule.unary limit (room - 1)))

/-- The category that the repetition of a category repeats; without a repetition the category
itself. -/
def repeated : Category → Category
  | expression => product
  | product => unary
  | factorial => primary
  | category => category

/-- What the rule of a category goes on with after a tree: its repetition, if it has one. -/
def resume (limit room : Nat) (category : Category) (tree : ParseTree) (rest : List Lexeme) :
    Reading :=
  match category with
  | expression => extend limit Token.isAdditive (product.rule limit room) tree rest
  | product => extend limit Token.isMultiplicative (unary.rule limit room) tree rest
  | factorial => factorials limit tree rest
  | _ => .ok (tree, rest)

end Category

variable {limit room : Nat}

/-- A chain ends in front of a token that does not bind. -/
theorem extend_of_not_binds {binds : Token → Bool} {operand : Rule} {tree : ParseTree}
    {rest : List Lexeme} (h : ∀ next ∈ rest.head?, binds next.token = false) :
    extend limit binds operand tree rest = .ok (tree, rest) := by
  cases rest with
  | nil => rw [extend]
  | cons next rest => rw [extend_cons, if_neg (by simpa using h)]

theorem factorials_of_ne_bang {tree : ParseTree} {rest : List Lexeme}
    (h : ∀ next ∈ rest.head?, next.token ≠ .bang) :
    factorials limit tree rest = .ok (tree, rest) := by
  unfold factorials
  split
  · simp at h
  · rfl

/-- A repetition ends in front of lexemes that the category stops at. -/
theorem Category.resume_of_stops {category : Category} {tree : ParseTree} {rest : List Lexeme}
    (h : category.Stops rest) : category.resume limit room tree rest = .ok (tree, rest) := by
  cases rest with
  | nil => cases category <;> simp [resume, extend, factorials]
  | cons next rest =>
    cases category with
    | expression =>
      refine extend_of_not_binds fun lexeme hlexeme ↦ ?_
      obtain rfl : next = lexeme := by simpa using hlexeme
      exact Bool.eq_false_iff.2 fun hbinds ↦
        absurd h (by simp [Stops, Token.looseness_of_isAdditive hbinds, looseness])
    | product =>
      refine extend_of_not_binds fun lexeme hlexeme ↦ ?_
      obtain rfl : next = lexeme := by simpa using hlexeme
      exact Bool.eq_false_iff.2 fun hbinds ↦
        absurd h (by simp [Stops, Token.looseness_of_isMultiplicative hbinds, looseness])
    | factorial =>
      refine factorials_of_ne_bang fun lexeme hlexeme ↦ ?_
      obtain rfl : next = lexeme := by simpa using hlexeme
      rintro hbang
      exact absurd h (by simp [Stops, hbang, Token.looseness, looseness])
    | unary | power | primary => rfl

theorem Category.looseness_repeated_le (category : Category) :
    category.repeated.looseness ≤ category.looseness := by
  cases category <;> simp [repeated, looseness]

/-! ## One construct at a time -/

/-- In any number of levels, the rule of the category finds the tree and goes on from there, unless
the tree is higher than the limit or the levels. -/
def Finds (limit : Nat) (category : Category) (taken : List Lexeme) (tree : ParseTree) : Prop :=
  ∀ room rest, category.repeated.Stops rest →
    YieldsUnless (min limit room < tree.height) ((category.rule limit room).read (taken ++ rest))
      (category.resume limit room tree rest)

namespace Finds

/-- A rule gives the tree itself where the category stops. -/
theorem read {category : Category} {taken rest : List Lexeme} {tree : ParseTree}
    (h : Finds limit category taken tree) (room : Nat) (hrest : category.Stops rest) :
    YieldsUnless (min limit room < tree.height) ((category.rule limit room).read (taken ++ rest))
      (.ok (tree, rest)) := by
  have hread := h room rest (hrest.mono category.looseness_repeated_le)
  rwa [Category.resume_of_stops hrest] at hread

/-- One operand starts a chain of them. -/
theorem ofOperand {category operand : Category} {taken : List Lexeme} {tree : ParseTree}
    {binds : Token → Bool} (hrepeated : category.repeated = operand)
    (hrule : ∀ room, category.rule limit room = (operand.rule limit room).chain limit binds)
    (hresume : ∀ room rest, category.resume limit room tree rest =
      extend limit binds (operand.rule limit room) tree rest)
    (h : Finds limit operand taken tree) : Finds limit category taken tree := by
  intro room rest hrest
  rw [hrule, hresume]
  exact (h.read room (hrepeated ▸ hrest)).bind (.of_eq rfl)

/-- One more operand continues a chain of them. -/
theorem join {category operand : Category} {left right : List Lexeme} {l r : ParseTree}
    {operator : Token} {position : Nat} {binds : Token → Bool}
    (hrepeated : category.repeated = operand)
    (hresume : ∀ room tree rest, category.resume limit room tree rest =
      extend limit binds (operand.rule limit room) tree rest)
    (hbinds : binds operator) (hlooseness : operand.looseness < operator.looseness)
    (hleft : Finds limit category left l) (hright : Finds limit operand right r) :
    Finds limit category (left ++ ⟨operator, position⟩ :: right)
      (.binary l operator r position) := by
  intro room rest hrest
  have hheight : (ParseTree.binary l operator r position).height = max l.height r.height + 1 := rfl
  have hbefore := hleft room (⟨operator, position⟩ :: (right ++ rest)) (hrepeated ▸ hlooseness)
  have hafter := hright.read room (hrepeated ▸ hrest)
  rw [List.append_assoc, List.cons_append]
  refine (hbefore.mono (by omega)).trans ?_
  rw [hresume, hresume, extend_cons, if_pos hbinds]
  exact (hafter.mono (by omega)).bind (.bounded rfl)

theorem factorial {operand : List Lexeme} {tree : ParseTree} {position : Nat}
    (h : Finds limit .factorial operand tree) :
    Finds limit .factorial (operand ++ [⟨.bang, position⟩]) (.factorial tree position) := by
  intro room rest hrest
  have hheight : (ParseTree.factorial tree position).height = tree.height + 1 := rfl
  have hbefore := h room (⟨.bang, position⟩ :: rest) (Nat.zero_lt_one)
  rw [List.append_assoc, List.singleton_append]
  refine (hbefore.mono (by omega)).trans ?_
  exact .bounded rfl

theorem ofPrimary {taken : List Lexeme} {tree : ParseTree} (h : Finds limit .primary taken tree) :
    Finds limit .factorial taken tree := by
  intro room rest hrest
  exact (h.read room hrest).bind (.of_eq rfl)

/-- A base without an exponent is a power. -/
theorem ofFactorial {taken : List Lexeme} {tree : ParseTree}
    (h : Finds limit .factorial taken tree) : Finds limit .power taken tree := by
  intro room rest hrest
  have hread := h.read room (hrest.mono (by decide))
  refine hread.bind (.of_eq ?_)
  cases rest with
  | nil => rfl
  | cons next rest =>
    have hnext : next.token ≠ .caret := fun hcaret ↦ by
      simp [Category.Stops, Category.repeated, hcaret, Category.looseness, Token.looseness] at hrest
    simp only [afterBase]
    split
    · simp_all
    · rfl

theorem unary_deeper {taken rest : List Lexeme} {tree : ParseTree}
    (h : Finds limit .unary taken tree) (room : Nat) (hrest : Category.unary.Stops rest) :
    YieldsUnless (min limit room < tree.height + 1)
      ((Rule.unary limit (room - 1)).read (taken ++ rest)) (.ok (tree, rest)) :=
  (h.read (room - 1) hrest).mono (by omega)

/-- The exponent of a power stands one level deeper than the power. -/
theorem power {base exponent : List Lexeme} {b e : ParseTree} {position : Nat}
    (hbase : Finds limit .factorial base b) (hexponent : Finds limit .unary exponent e) :
    Finds limit .power (base ++ ⟨.caret, position⟩ :: exponent) (.binary b .caret e position) := by
  intro room rest hrest
  have hheight : (ParseTree.binary b .caret e position).height = max b.height e.height + 1 := rfl
  have hcaret : Category.factorial.Stops (⟨.caret, position⟩ :: (exponent ++ rest)) :=
    Nat.one_lt_two
  have hbefore := hbase.read room hcaret
  have hafter := hexponent.unary_deeper room hrest
  rw [List.append_assoc, List.cons_append]
  refine (hbefore.mono (by omega)).bind ?_
  exact (hafter.mono (by omega)).bind (.bounded rfl)

/-- The operand of a minus stands one level deeper than the minus. -/
theorem negation {operand : List Lexeme} {tree : ParseTree} {position : Nat}
    (h : Finds limit .unary operand tree) :
    Finds limit .unary (⟨.minus, position⟩ :: operand) (.negation tree position) := by
  intro room rest hrest
  have hheight : (ParseTree.negation tree position).height = tree.height + 1 := rfl
  cases room with
  | zero => exact .inr ⟨by omega, _, rfl⟩
  | succ room =>
    have hinside := h.unary_deeper (room + 1) hrest
    exact (hinside.mono (by omega)).bind (.bounded rfl)

/-- A power that starts with no minus is read as the unary expression that it is. -/
theorem ofPower {taken : List Lexeme} {tree : ParseTree} (hderives : Derives .power taken tree)
    (h : Finds limit .power taken tree) : Finds limit .unary taken tree := by
  intro room rest hrest
  cases room with
  | zero => exact .inr ⟨by have := tree.height_pos; omega, _, rfl⟩
  | succ room =>
    obtain ⟨first, others, rfl, hfirst⟩ := hderives.exists_cons
    have hread := h.read (room + 1) hrest
    obtain ⟨token, position⟩ := first
    refine (YieldsUnless.of_eq ?_).trans hread
    cases token <;> first | rfl | simp [Category.starts] at hfirst

theorem expression_deeper {inner : List Lexeme} {tree : ParseTree}
    (h : Finds limit .expression inner tree) (closing : Token) (hclosing : closing.looseness = 5)
    (room last : Nat) (rest : List Lexeme) :
    YieldsUnless (min limit room < tree.height + 1)
      ((Rule.expression limit (Rule.unary limit (room - 1))).read
        (inner ++ ⟨closing, last⟩ :: rest))
      (.ok (tree, ⟨closing, last⟩ :: rest)) := by
  have hstops : Category.expression.Stops (⟨closing, last⟩ :: rest) := by
    simp [Category.Stops, Category.looseness, hclosing]
  exact (h.read (room - 1) hstops).mono (by omega)

/-- What stands between delimiters stands one level deeper than they do. -/
theorem enclosed {inner : List Lexeme} {tree : ParseTree}
    (h : Finds limit .expression inner tree) (opening closing : Token)
    (hclosing : closing.looseness = 5) (room first last : Nat) (rest : List Lexeme) :
    YieldsUnless (min limit room < tree.height + 1)
      ((Rule.enclosed opening closing (Rule.expression limit (Rule.unary limit (room - 1)))).read
        (⟨opening, first⟩ :: (inner ++ ⟨closing, last⟩ :: rest)))
      (.ok (tree, rest)) :=
  .bind (.of_eq (expect_cons opening first _))
    ((h.expression_deeper closing hclosing room last rest).bind
      (.bind (.of_eq (expect_cons closing last rest)) (.of_eq rfl)))

theorem parenthesized {inner : List Lexeme} {tree : ParseTree}
    (h : Finds limit .expression inner tree) (room first last : Nat) (rest : List Lexeme) :
    YieldsUnless (min limit room < tree.height + 1)
      ((Rule.expression limit (Rule.unary limit (room - 1))).parenthesized.read
        (⟨.leftParen, first⟩ :: (inner ++ ⟨.rightParen, last⟩ :: rest)))
      (.ok (tree, rest)) :=
  h.enclosed .leftParen .rightParen rfl room first last rest

theorem number {text : String} {position : Nat} :
    Finds limit .primary [⟨.number text, position⟩] (.number text position) :=
  fun _ _ _ ↦ .of_eq rfl

/-- A name that no parenthesis follows is not a call. -/
theorem identifier {name : String} {position : Nat} :
    Finds limit .primary [⟨.identifier name, position⟩] (.identifier name position) := by
  intro room rest hrest
  refine .of_eq ?_
  cases rest with
  | nil => rfl
  | cons next rest =>
    have hnext : next.token ≠ .leftParen := fun hparen ↦ by
      simp [Category.Stops, Category.repeated, hparen, Category.looseness, Token.looseness] at hrest
    obtain ⟨token, position⟩ := next
    cases token <;> first | rfl | simp at hnext

/-- A construct around what stands in parentheses, if that is all that the rule for primaries reads
behind the lexemes in front of them. -/
theorem aroundParentheses {inner : List Lexeme} {tree : ParseTree} {opening closing : Nat}
    (h : Finds limit .expression inner tree) (before : List Lexeme) (wrap : ParseTree → ParseTree)
    (position : Nat) (hheight : (wrap tree).height = tree.height + 1)
    (hread : ∀ expression rest,
      (Rule.primary limit expression).read (before ++ ⟨.leftParen, opening⟩ :: rest) = (do
        let (inner, rest) ← expression.parenthesized.read (⟨.leftParen, opening⟩ :: rest)
        let tree ← (wrap inner).bounded limit position
        return (tree, rest))) :
    Finds limit .primary (before ++ ⟨.leftParen, opening⟩ :: (inner ++ [⟨.rightParen, closing⟩]))
      (wrap tree) := by
  intro room rest hrest
  have hinner := h.parenthesized room opening closing rest
  rw [List.append_assoc, List.cons_append, List.append_assoc, List.singleton_append]
  change YieldsUnless _ ((Rule.primary limit _).read _) _
  rw [hread]
  exact (hinner.mono (by omega)).bind (.bounded rfl)

theorem call {keyword : String} {argument : List Lexeme} {tree : ParseTree}
    {position opening closing : Nat} (h : Finds limit .expression argument tree) :
    Finds limit .primary
      (⟨.identifier keyword, position⟩ :: ⟨.leftParen, opening⟩ ::
        (argument ++ [⟨.rightParen, closing⟩]))
      (.call keyword tree position) :=
  h.aroundParentheses [⟨.identifier keyword, position⟩] (.call keyword · position) position rfl
    fun _ _ ↦ rfl

theorem group {inner : List Lexeme} {tree : ParseTree} {opening closing : Nat}
    (h : Finds limit .expression inner tree) :
    Finds limit .primary (⟨.leftParen, opening⟩ :: (inner ++ [⟨.rightParen, closing⟩]))
      (.group tree) :=
  h.aroundParentheses [] .group opening rfl fun _ _ ↦ rfl

theorem squareRoot {radicand : List Lexeme} {r : ParseTree} {position opening closing : Nat}
    (h : Finds limit .expression radicand r) :
    Finds limit .primary
      (⟨.root, position⟩ :: ⟨.leftParen, opening⟩ :: (radicand ++ [⟨.rightParen, closing⟩]))
      (.squareRoot r position) :=
  h.aroundParentheses [⟨.root, position⟩] (.squareRoot · position) position rfl fun _ _ ↦ rfl

/-- A root with an index reads the brackets first. -/
theorem root {index radicand : List Lexeme} {i r : ParseTree}
    {position opening closing opening' closing' : Nat} (hindex : Finds limit .expression index i)
    (hradicand : Finds limit .expression radicand r) :
    Finds limit .primary
      (⟨.root, position⟩ :: ⟨.leftBracket, opening⟩ ::
        (index ++ ⟨.rightBracket, closing⟩ :: ⟨.leftParen, opening'⟩ ::
          (radicand ++ [⟨.rightParen, closing'⟩])))
      (.root i r position) := by
  intro room rest hrest
  have hheight : (ParseTree.root i r position).height = max i.height r.height + 1 := rfl
  have hafter := hradicand.parenthesized room opening' closing' rest
  have hbefore := hindex.enclosed .leftBracket .rightBracket rfl room opening closing
    (⟨.leftParen, opening'⟩ :: (radicand ++ ⟨.rightParen, closing'⟩ :: rest))
  simp only [List.cons_append, List.append_assoc, List.nil_append]
  refine (hbefore.mono (by omega)).bind ((hafter.mono (by omega)).bind ?_)
  exact .bounded rfl

/-- What both forms of a fraction share: the numerator and the check at the end. -/
theorem fraction_of_denominator {numerator tail : List Lexeme} {n d : ParseTree}
    {position opening : Nat} {delimiter : Token} {delimiterPosition : Nat}
    (hnumerator : Finds limit .expression numerator n) (hdelimiter : delimiter.looseness = 5)
    (hdenominator : ∀ room rest, YieldsUnless (min limit room < d.height + 1)
      ((Rule.expression limit (Rule.unary limit (room - 1))).denominator.read
        (⟨delimiter, delimiterPosition⟩ :: (tail ++ rest)))
      (.ok (d, rest))) :
    Finds limit .primary
      (⟨.frac, position⟩ :: ⟨.leftParen, opening⟩ ::
        (numerator ++ ⟨delimiter, delimiterPosition⟩ :: tail))
      (.fraction n d position) := by
  intro room rest hrest
  have hheight : (ParseTree.fraction n d position).height = max n.height d.height + 1 := rfl
  have hbefore :=
    hnumerator.expression_deeper delimiter hdelimiter room delimiterPosition (tail ++ rest)
  have hafter := hdenominator room rest
  simp only [List.cons_append, List.append_assoc]
  refine .bind (.of_eq (expect_cons .leftParen opening _)) ?_
  refine (hbefore.mono (by omega)).bind ((hafter.mono (by omega)).bind ?_)
  exact .bounded rfl

theorem fraction {numerator denominator : List Lexeme} {n d : ParseTree}
    {position opening comma closing : Nat} (hnumerator : Finds limit .expression numerator n)
    (hdenominator : Finds limit .expression denominator d) :
    Finds limit .primary
      (⟨.frac, position⟩ :: ⟨.leftParen, opening⟩ ::
        (numerator ++ ⟨.comma, comma⟩ :: (denominator ++ [⟨.rightParen, closing⟩])))
      (.fraction n d position) := by
  refine hnumerator.fraction_of_denominator rfl fun room rest ↦ ?_
  have hinside := hdenominator.expression_deeper .rightParen rfl room closing rest
  rw [List.append_assoc, List.singleton_append]
  exact hinside.bind (.bind (.of_eq (expect_cons .rightParen closing rest)) (.of_eq rfl))

theorem curriedFraction {numerator denominator : List Lexeme} {n d : ParseTree}
    {position opening closing opening' closing' : Nat}
    (hnumerator : Finds limit .expression numerator n)
    (hdenominator : Finds limit .expression denominator d) :
    Finds limit .primary
      (⟨.frac, position⟩ :: ⟨.leftParen, opening⟩ ::
        (numerator ++ ⟨.rightParen, closing⟩ :: ⟨.leftParen, opening'⟩ ::
          (denominator ++ [⟨.rightParen, closing'⟩])))
      (.fraction n d position) := by
  refine hnumerator.fraction_of_denominator rfl fun room rest ↦ ?_
  rw [List.cons_append, List.append_assoc, List.singleton_append]
  exact hdenominator.parenthesized room opening' closing' rest

end Finds

/-- Every tree that is derived is found, unless it is too high. -/
theorem Derives.finds {category : Category} {taken : List Lexeme} {tree : ParseTree}
    (h : Derives category taken tree) (limit : Nat) : Finds limit category taken tree := by
  induction h with
  | sum _ hoperator _ ihleft ihright =>
    refine Finds.join rfl (fun _ _ _ ↦ rfl) hoperator ?_ ihleft ihright
    rw [Token.looseness_of_isAdditive hoperator]
    decide
  | ofProduct _ ih => exact .ofOperand rfl (fun _ ↦ rfl) (fun _ _ ↦ rfl) ih
  | product _ hoperator _ ihleft ihright =>
    refine Finds.join rfl (fun _ _ _ ↦ rfl) hoperator ?_ ihleft ihright
    rw [Token.looseness_of_isMultiplicative hoperator]
    decide
  | ofUnary _ ih => exact .ofOperand rfl (fun _ ↦ rfl) (fun _ _ ↦ rfl) ih
  | negation _ ih => exact ih.negation
  | ofPower hpower ih => exact .ofPower hpower ih
  | power _ _ ihbase ihexponent => exact ihbase.power ihexponent
  | ofFactorial _ ih => exact ih.ofFactorial
  | factorial _ ih => exact ih.factorial
  | ofPrimary _ ih => exact ih.ofPrimary
  | number => exact .number
  | identifier => exact .identifier
  | call _ ih => exact ih.call
  | group _ ih => exact ih.group
  | fraction _ _ ihnumerator ihdenominator => exact ihnumerator.fraction ihdenominator
  | curriedFraction _ _ ihnumerator ihdenominator =>
    exact ihnumerator.curriedFraction ihdenominator
  | squareRoot _ ih => exact ih.squareRoot
  | root _ _ ihindex ihradicand => exact ihindex.root ihradicand

end Formula
