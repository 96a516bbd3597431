import Formula.ParseTree.Grammar
import Formula.Proofs.Derivation

/-!
# What the rules accept

Every rule gives a tree only for lexemes that derive it, and no tree is higher than the limit. The
rules are taken one by one, each under the assumption that the rules it uses are sound; the nested
ones then follow by induction on their levels.
-/

namespace Formula.Rule

/-- What the rule takes off the front derives the tree, which is not too high. -/
def Sound (limit : Nat) (category : Category) (rule : Rule) : Prop :=
  ∀ ⦃lexemes rest : List Lexeme⦄ ⦃tree : ParseTree⦄, rule.read lexemes = .ok (tree, rest) →
    ∃ taken, lexemes = taken ++ rest ∧ Derives category taken tree ∧ tree.height ≤ limit

variable {limit : Nat}

theorem sound_tooDeep (category : Category) : Sound limit category tooDeep := by
  intro lexemes rest tree h
  cases h

/-- Each round of a chain derives one operand more. -/
theorem derives_of_extend {repeated category : Category} {binds : Token → Bool} {operand : Rule}
    (hoperand : Sound limit repeated operand)
    (hjoin : ∀ {left right : List Lexeme} {l r : ParseTree} {operator : Token} {position : Nat},
      Derives category left l → binds operator → Derives repeated right r →
        Derives category (left ++ ⟨operator, position⟩ :: right) (.binary l operator r position))
    {before lexemes rest : List Lexeme} {left tree : ParseTree}
    (hleft : Derives category before left) (hheight : left.height ≤ limit)
    (h : extend limit binds operand left lexemes = .ok (tree, rest)) :
    ∃ taken, lexemes = taken ++ rest ∧ Derives category (before ++ taken) tree ∧
      tree.height ≤ limit := by
  fun_induction extend limit binds operand left lexemes generalizing before with
  | case1 left =>
    cases h
    exact ⟨[], rfl, by simpa using hleft, hheight⟩
  | case2 => cases h
  | case3 => cases h
  | case4 left operator after hbinds right remaining hright _ wrapped hbounded ih =>
    obtain ⟨hlimit, rfl⟩ := ParseTree.bounded_eq_ok_iff.1 hbounded
    obtain ⟨taken, rfl, hderives, -⟩ := hoperand hright
    obtain ⟨more, rfl, hmore, htree⟩ := ih (hjoin hleft hbinds hderives) hlimit h
    exact ⟨operator :: taken ++ more, by simp, by simpa using hmore, htree⟩
  | case5 left =>
    cases h
    exact ⟨[], rfl, by simpa using hleft, hheight⟩

/-- A chain derives what its operands and its operators derive together. -/
theorem sound_chain {repeated category : Category} {binds : Token → Bool} {operand : Rule}
    (hoperand : Sound limit repeated operand)
    (hone : ∀ {lexemes : List Lexeme} {tree : ParseTree},
      Derives repeated lexemes tree → Derives category lexemes tree)
    (hjoin : ∀ {left right : List Lexeme} {l r : ParseTree} {operator : Token} {position : Nat},
      Derives category left l → binds operator → Derives repeated right r →
        Derives category (left ++ ⟨operator, position⟩ :: right) (.binary l operator r position)) :
    Sound limit category (operand.chain limit binds) := by
  intro lexemes rest tree h
  obtain ⟨⟨first, after⟩, hfirst, hextend⟩ := bind_eq_ok_iff.1 h
  obtain ⟨taken, rfl, hderives, hheight⟩ := hoperand hfirst
  obtain ⟨more, rfl, hmore, htree⟩ := derives_of_extend hoperand hjoin (hone hderives) hheight
    hextend
  exact ⟨taken ++ more, by simp, hmore, htree⟩

theorem sound_product {unary : Rule} (hunary : Sound limit .unary unary) :
    Sound limit .product (unary.chain limit Token.isMultiplicative) :=
  sound_chain hunary .ofUnary .product

theorem sound_expression {unary : Rule} (hunary : Sound limit .unary unary) :
    Sound limit .expression (expression limit unary) :=
  sound_chain (sound_product hunary) .ofProduct .sum

/-- Each bang sign derives one factorial more. -/
theorem derives_of_factorials {before lexemes rest : List Lexeme} {operand tree : ParseTree}
    (hoperand : Derives .factorial before operand) (hheight : operand.height ≤ limit)
    (h : factorials limit operand lexemes = .ok (tree, rest)) :
    ∃ taken, lexemes = taken ++ rest ∧ Derives .factorial (before ++ taken) tree ∧
      tree.height ≤ limit := by
  fun_induction factorials limit operand lexemes generalizing before with
  | case1 operand position after ih =>
    obtain ⟨wrapped, hbounded, h⟩ := bind_eq_ok_iff.1 h
    obtain ⟨hlimit, rfl⟩ := ParseTree.bounded_eq_ok_iff.1 hbounded
    obtain ⟨more, rfl, hmore, htree⟩ := ih _ (.factorial hoperand) hlimit h
    exact ⟨⟨.bang, position⟩ :: more, by simp, by simpa using hmore, htree⟩
  | case2 =>
    cases h
    exact ⟨[], rfl, by simpa using hoperand, hheight⟩

theorem sound_factorial {primary : Rule} (hprimary : Sound limit .primary primary) :
    Sound limit .factorial (factorial limit primary) := by
  intro lexemes rest tree h
  obtain ⟨⟨operand, after⟩, hread, hafter⟩ := bind_eq_ok_iff.1 h
  obtain ⟨taken, rfl, hderives, hheight⟩ := hprimary hread
  obtain ⟨more, rfl, hmore, htree⟩ := derives_of_factorials (.ofPrimary hderives) hheight hafter
  exact ⟨taken ++ more, by simp, hmore, htree⟩

theorem sound_power {base exponent : Rule} (hbase : Sound limit .factorial base)
    (hexponent : Sound limit .unary exponent) : Sound limit .power (power limit base exponent) := by
  intro lexemes rest tree h
  obtain ⟨⟨left, after⟩, hread, hafter⟩ := bind_eq_ok_iff.1 h
  obtain ⟨taken, rfl, hderives, hheight⟩ := hbase hread
  simp only [afterBase] at hafter
  split at hafter
  · obtain ⟨right, hright, rfl, hlimit⟩ := exists_of_wrapped (.binary left .caret · _) hafter
    obtain ⟨more, rfl, hmore, -⟩ := hexponent hright
    exact ⟨_, by simp, .power hderives hmore, hlimit⟩
  · cases hafter
    exact ⟨taken, rfl, .ofFactorial hderives, hheight⟩

theorem sound_negation {operand power : Rule} (hoperand : Sound limit .unary operand)
    (hpower : Sound limit .power power) : Sound limit .unary (negation limit operand power) := by
  intro lexemes rest tree h
  simp only [negation] at h
  split at h
  · obtain ⟨inner, hinner, rfl, hlimit⟩ := exists_of_wrapped (.negation · _) h
    obtain ⟨taken, rfl, hderives, -⟩ := hoperand hinner
    exact ⟨_, by simp, .negation hderives, hlimit⟩
  · obtain ⟨taken, rfl, hderives, hheight⟩ := hpower h
    exact ⟨taken, rfl, .ofPower hderives, hheight⟩

theorem exists_of_enclosed {opening closing : Token} {expression : Rule}
    (hexpression : Sound limit .expression expression) {lexemes rest : List Lexeme}
    {tree : ParseTree} (h : (enclosed opening closing expression).read lexemes = .ok (tree, rest)) :
    ∃ first inner last, lexemes = ⟨opening, first⟩ :: inner ++ ⟨closing, last⟩ :: rest ∧
      Derives .expression inner tree := by
  obtain ⟨after, hopening, hinside⟩ := bind_eq_ok_iff.1 h
  obtain ⟨first, rfl⟩ := expect_eq_ok_iff.1 hopening
  obtain ⟨⟨inner, remaining⟩, hread, hclose⟩ := bind_eq_ok_iff.1 hinside
  obtain ⟨taken, rfl, hderives, -⟩ := hexpression hread
  obtain ⟨_, hclosing, hdone⟩ := bind_eq_ok_iff.1 hclose
  obtain ⟨last, rfl⟩ := expect_eq_ok_iff.1 hclosing
  cases hdone
  exact ⟨first, taken, last, rfl, hderives⟩

theorem exists_of_denominator {expression : Rule}
    (hexpression : Sound limit .expression expression) {lexemes rest : List Lexeme}
    {tree : ParseTree} (h : (denominator expression).read lexemes = .ok (tree, rest)) :
    ∃ inner last, Derives .expression inner tree ∧
      ((∃ comma, lexemes = ⟨.comma, comma⟩ :: inner ++ ⟨.rightParen, last⟩ :: rest) ∨
        ∃ closing opening, lexemes = ⟨.rightParen, closing⟩ :: ⟨.leftParen, opening⟩ :: inner ++
          ⟨.rightParen, last⟩ :: rest) := by
  simp only [denominator] at h
  split at h
  · cases h
  · obtain ⟨⟨inner, remaining⟩, hread, hclose⟩ := bind_eq_ok_iff.1 h
    obtain ⟨taken, rfl, hderives, -⟩ := hexpression hread
    obtain ⟨_, hclosing, hdone⟩ := bind_eq_ok_iff.1 hclose
    obtain ⟨last, rfl⟩ := expect_eq_ok_iff.1 hclosing
    cases hdone
    exact ⟨taken, last, hderives, .inl ⟨_, rfl⟩⟩
  · obtain ⟨opening, inner, last, rfl, hderives⟩ := exists_of_enclosed hexpression h
    exact ⟨inner, last, hderives, .inr ⟨_, opening, rfl⟩⟩
  · cases h

theorem derives_of_afterIdentifier {expression : Rule} {name : String} {position : Nat}
    (hlimit : 1 ≤ limit) (hexpression : Sound limit .expression expression)
    {lexemes rest : List Lexeme} {tree : ParseTree}
    (h : afterIdentifier limit expression name position lexemes = .ok (tree, rest)) :
    ∃ taken, lexemes = taken ++ rest ∧
      Derives .primary (⟨.identifier name, position⟩ :: taken) tree ∧ tree.height ≤ limit := by
  unfold afterIdentifier at h
  split at h
  · obtain ⟨argument, hargument, rfl, hheight⟩ := exists_of_wrapped (.call name · position) h
    obtain ⟨first, inner, last, hlexemes, hderives⟩ := exists_of_enclosed hexpression hargument
    exact ⟨⟨.leftParen, first⟩ :: (inner ++ [⟨.rightParen, last⟩]), by simpa using hlexemes,
      .call hderives, hheight⟩
  · cases h
    exact ⟨[], rfl, .identifier, hlimit⟩

theorem derives_of_afterFrac {expression : Rule} {position : Nat}
    (hexpression : Sound limit .expression expression)
    {lexemes rest : List Lexeme} {tree : ParseTree}
    (h : afterFrac limit expression position lexemes = .ok (tree, rest)) :
    ∃ taken, lexemes = taken ++ rest ∧
      Derives .primary (⟨.frac, position⟩ :: taken) tree ∧ tree.height ≤ limit := by
  obtain ⟨after, hopening, hinside⟩ := bind_eq_ok_iff.1 h
  obtain ⟨opening, rfl⟩ := expect_eq_ok_iff.1 hopening
  obtain ⟨⟨n, _⟩, hnumerator, hafter⟩ := bind_eq_ok_iff.1 hinside
  obtain ⟨numerator, rfl, hn, -⟩ := hexpression hnumerator
  obtain ⟨d, hdenominator, rfl, hheight⟩ := exists_of_wrapped (.fraction n · position) hafter
  obtain ⟨inner, last, hd, ⟨comma, rfl⟩ | ⟨closing, opening', rfl⟩⟩ :=
    exists_of_denominator hexpression hdenominator
  · exact ⟨⟨.leftParen, opening⟩ ::
      (numerator ++ ⟨.comma, comma⟩ :: (inner ++ [⟨.rightParen, last⟩])),
      by simp, .fraction hn hd, hheight⟩
  · exact ⟨⟨.leftParen, opening⟩ :: (numerator ++ ⟨.rightParen, closing⟩ ::
      ⟨.leftParen, opening'⟩ :: (inner ++ [⟨.rightParen, last⟩])),
      by simp, .curriedFraction hn hd, hheight⟩

theorem derives_of_afterRoot {expression : Rule} {position : Nat}
    (hexpression : Sound limit .expression expression)
    {lexemes rest : List Lexeme} {tree : ParseTree}
    (h : afterRoot limit expression position lexemes = .ok (tree, rest)) :
    ∃ taken, lexemes = taken ++ rest ∧
      Derives .primary (⟨.root, position⟩ :: taken) tree ∧ tree.height ≤ limit := by
  unfold afterRoot at h
  split at h
  · obtain ⟨⟨i, _⟩, hindex, hafter⟩ := bind_eq_ok_iff.1 h
    obtain ⟨r, hradicand, rfl, hheight⟩ := exists_of_wrapped (.root i · position) hafter
    obtain ⟨opening, index, closing, hlexemes, hi⟩ := exists_of_enclosed hexpression hindex
    obtain ⟨opening', radicand, closing', rfl, hr⟩ := exists_of_enclosed hexpression hradicand
    exact ⟨⟨.leftBracket, opening⟩ :: (index ++ ⟨.rightBracket, closing⟩ ::
      ⟨.leftParen, opening'⟩ :: (radicand ++ [⟨.rightParen, closing'⟩])),
      by simpa using hlexemes, .root hi hr, hheight⟩
  · obtain ⟨r, hradicand, rfl, hheight⟩ := exists_of_wrapped (.squareRoot · position) h
    obtain ⟨opening, radicand, closing, rfl, hr⟩ := exists_of_enclosed hexpression hradicand
    exact ⟨⟨.leftParen, opening⟩ :: (radicand ++ [⟨.rightParen, closing⟩]), by simp,
      .squareRoot hr, hheight⟩

/-- Every form of a primary expression is derived by its own rule. -/
theorem sound_primary {expression : Rule} (hlimit : 1 ≤ limit)
    (hexpression : Sound limit .expression expression) :
    Sound limit .primary (primary limit expression) := by
  intro lexemes rest tree h
  simp only [primary] at h
  split at h
  · cases h
  · cases h
    exact ⟨_, rfl, .number, hlimit⟩
  · obtain ⟨taken, rfl, hderives, hheight⟩ := derives_of_afterIdentifier hlimit hexpression h
    exact ⟨_, rfl, hderives, hheight⟩
  · obtain ⟨inner, hinner, rfl, hheight⟩ := exists_of_wrapped .group h
    obtain ⟨opening, taken, closing, hlexemes, hderives⟩ := exists_of_enclosed hexpression hinner
    exact ⟨⟨.leftParen, opening⟩ :: (taken ++ [⟨.rightParen, closing⟩]), by simpa using hlexemes,
      .group hderives, hheight⟩
  · obtain ⟨taken, rfl, hderives, hheight⟩ := derives_of_afterFrac hexpression h
    exact ⟨_, rfl, hderives, hheight⟩
  · obtain ⟨taken, rfl, hderives, hheight⟩ := derives_of_afterRoot hexpression h
    exact ⟨_, rfl, hderives, hheight⟩
  · cases h

/-- At every level of nesting what is read is derived. -/
theorem sound_unary (hlimit : 1 ≤ limit) (room : Nat) :
    Sound limit .unary (unary limit room) := by
  induction room with
  | zero => exact sound_tooDeep _
  | succ room ih =>
    have hprimary := sound_primary hlimit (sound_expression ih)
    exact sound_negation ih (sound_power (sound_factorial hprimary) ih)

end Formula.Rule
