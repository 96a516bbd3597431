import Formula.Proofs.Quotation

/-!
# No superfluous parentheses

Every group that a rendered expression is written with is needed: without its two parentheses the
text does not compile, or it compiles to another expression. The proof counts. A text with a pair
less has a bracket less, and any tree that quotes an expression has at least the brackets that the
expression is rendered with, because where rendering puts a group the grammar asks for one. What the
freed operators and minuses regroup with does not matter.
-/

namespace Formula

namespace ParseTree

/-- A pair of parentheses in a text: what stands before, inside and behind it, and the tree that is
left when the group is opened. -/
structure Grouping where
  before : String
  inside : String
  behind : String
  freed : ParseTree

namespace Grouping

def text (pair : Grouping) : String :=
  pair.before ++ "(" ++ pair.inside ++ ")" ++ pair.behind

def textWithout (pair : Grouping) : String :=
  pair.before ++ pair.inside ++ pair.behind

def within (before behind : String) (whole : ParseTree → ParseTree) (pair : Grouping) : Grouping :=
  ⟨before ++ pair.before, pair.inside, pair.behind ++ behind, whole pair.freed⟩

section

variable (before behind : String) (whole : ParseTree → ParseTree) (pair : Grouping)

@[simp] theorem text_within :
    (pair.within before behind whole).text = before ++ (pair.text ++ behind) := by
  simp [within, text, String.append_assoc]

@[simp] theorem textWithout_within :
    (pair.within before behind whole).textWithout = before ++ (pair.textWithout ++ behind) := by
  simp [within, textWithout, String.append_assoc]

@[simp] theorem freed_within : (pair.within before behind whole).freed = whole pair.freed := rfl

end

end Grouping

/-- The groups of a tree, in the order of their opening parentheses. The brackets of calls,
fractions and roots are no groups. -/
def groupings : ParseTree → List Grouping
  | number _ _ => []
  | identifier _ _ => []
  | fraction numerator denominator position =>
    numerator.groupings.map (.within "frac(" (", " ++ denominator.text ++ ")")
      (.fraction · denominator position)) ++
    denominator.groupings.map (.within ("frac(" ++ numerator.text ++ ", ") ")"
      (.fraction numerator · position))
  | call keyword argument position =>
    argument.groupings.map (.within (keyword ++ "(") ")" (.call keyword · position))
  | squareRoot radicand position =>
    radicand.groupings.map (.within "sqrt(" ")" (.squareRoot · position))
  | root index radicand position =>
    index.groupings.map (.within "root[" ("](" ++ radicand.text ++ ")")
      (.root · radicand position)) ++
    radicand.groupings.map (.within ("root[" ++ index.text ++ "](") ")" (.root index · position))
  | binary left operator right position =>
    left.groupings.map (.within "" (" " ++ operator.text ++ " " ++ right.text)
      (.binary · operator right position)) ++
    right.groupings.map (.within (left.text ++ " " ++ operator.text ++ " ") ""
      (.binary left operator · position))
  | negation operand position => operand.groupings.map (.within "-" "" (.negation · position))
  | factorial operand position => operand.groupings.map (.within "" "!" (.factorial · position))
  | group inner => ⟨"", inner.text, "", inner⟩ :: inner.groupings.map (.within "(" ")" .group)

/-- Every pair of parentheses is one of the text, and without it the text of the freed tree
remains. -/
theorem text_of_mem_groupings {tree : ParseTree} : ∀ pair ∈ tree.groupings,
    pair.text = tree.text ∧ pair.freed.text = pair.textWithout := by
  induction tree <;>
    simp +contextual [groupings, text, or_imp, forall_and, String.append_assoc, *]
  simp [Grouping.text, Grouping.textWithout, String.append_assoc]

theorem numerals_of_mem_groupings {tree : ParseTree} : ∀ pair ∈ tree.groupings,
    pair.freed.numerals = tree.numerals := by
  induction tree <;> simp +contextual [groupings, numerals, or_imp, forall_and, *]

theorem legible_of_mem_groupings {tree : ParseTree} : ∀ pair ∈ tree.groupings,
    (pair.freed.Legible ↔ tree.Legible) := by
  induction tree <;> simp +contextual [groupings, Legible, or_imp, forall_and, *]

/-- A freed tree builds the same expression. -/
theorem ofParseTree?_of_mem_groupings {tree : ParseTree} : ∀ pair ∈ tree.groupings,
    Expr.ofParseTree? pair.freed = Expr.ofParseTree? tree := by
  induction tree <;> simp +contextual [groupings, or_imp, forall_and, *]

/-- How many round brackets are opened in a tree, a comma counting as one. -/
def brackets : ParseTree → Nat
  | number _ _ => 0
  | identifier _ _ => 0
  | fraction numerator denominator _ => numerator.brackets + denominator.brackets + 2
  | call _ argument _ => argument.brackets + 1
  | squareRoot radicand _ => radicand.brackets + 1
  | root index radicand _ => index.brackets + radicand.brackets + 1
  | binary left _ right _ => left.brackets + right.brackets
  | negation operand _ => operand.brackets
  | factorial operand _ => operand.brackets
  | group inner => inner.brackets + 1

/-- A freed tree has one pair less. -/
theorem brackets_of_mem_groupings {tree : ParseTree} : ∀ pair ∈ tree.groupings,
    pair.freed.brackets + 1 = tree.brackets := by
  induction tree <;>
    simp only [groupings, brackets, List.forall_mem_append, List.forall_mem_map,
      List.forall_mem_cons, Grouping.freed_within] <;>
    grind

theorem brackets_groupIf (needed : Bool) (tree : ParseTree) :
    (tree.groupIf needed).brackets = tree.brackets + needed.toNat := by
  cases needed <;> rfl

theorem brackets_ofFloat (x : Float) : (ofFloat x).brackets = 0 := by
  unfold ofFloat
  split <;> rfl

def isGroup : ParseTree → Bool
  | group _ => true
  | _ => false

end ParseTree

/-! ## Where a group is needed -/

namespace Operator

/-- Where grouping is asked for, the operand is too loose to stand alone. -/
theorem operandCategory_rank_lt {inner operator : Operator} {side : Side}
    (h : (inner.precedence < operator.precedence ||
      inner.precedence = operator.precedence && side ≠ operator.groupingSide) = true) :
    (operator.operandCategory side).rank < inner.category.rank := by
  revert h
  cases inner <;> cases operator <;> cases side <;> decide

end Operator

namespace Quotes

variable {tree : ParseTree} {expr : Expr}

/-- An operand that is grouped beside an operator is read as one only if it is a group. -/
theorem isGroup_beside (h : Quotes tree expr) {operator : Operator} {side : Side}
    (hfits : tree.Fits (operator.operandCategory side))
    (hgrouped : (Operand.subexpression expr).isGroupedBeside operator side) :
    tree.isGroup := by
  cases h with
  | group => rfl
  | @binary _ _ _ _ infixed _ _ _ hoperator _ =>
    have hlt : (operator.operandCategory side).rank < infixed.category.rank :=
      Operator.operandCategory_rank_lt hgrouped
    rw [ParseTree.Fits, ParseTree.category, hoperator] at hfits
    exact absurd hlt (Nat.not_lt_of_le hfits)
  | negation =>
    simp only [Operand.isGroupedBeside, Operand.operator?, Bool.and_eq_true,
      decide_eq_true_eq] at hgrouped
    obtain ⟨⟨rfl, rfl⟩, -⟩ := hgrouped
    have hle : Category.unary.rank ≤ Category.factorial.rank := hfits
    exact absurd hle (by decide)
  | number _ hpositive =>
    simp [Operand.isGroupedBeside, Operand.operator?, Operand.isNegativeNumber, hpositive]
      at hgrouped
  | _ => simp [Operand.isGroupedBeside, Operand.operator?, Operand.isNegativeNumber] at hgrouped

/-- An operand that is grouped before a factorial is read as one only if it is a group. -/
theorem isGroup_beforeFactorial (h : Quotes tree expr) (hfits : tree.Fits .factorial)
    (hgrouped : (Operand.subexpression expr).isGroupedBeforeFactorial) : tree.isGroup := by
  cases h with
  | group => rfl
  | @binary _ _ _ _ infixed _ _ _ hoperator _ =>
    rw [ParseTree.Fits, ParseTree.category, hoperator] at hfits
    exact absurd hfits (by cases infixed <;> decide)
  | negation =>
    have hle : Category.unary.rank ≤ Category.factorial.rank := hfits
    exact absurd hle (by decide)
  | number _ hpositive =>
    simp [Operand.isGroupedBeforeFactorial, Operand.operator?, Operand.isNegativeNumber,
      hpositive] at hgrouped
  | _ =>
    simp [Operand.isGroupedBeforeFactorial, Operand.operator?, Operand.isNegativeNumber]
      at hgrouped

/-- A tree that quotes an expression has as many pairs as the spelling opens. -/
theorem brackets_eq (h : Quotes tree expr) : tree.brackets = tree.spelling.count .leftParen := by
  unfold ParseTree.spelling
  induction h with
  | @binary _ _ _ _ infixed _ _ _ hoperator _ ihl ihr =>
    have hne : Token.ofOperator infixed ≠ .leftParen := by cases infixed <;> simp [Token.ofOperator]
    rw [Token.eq_ofOperator hoperator]
    simp [ParseTree.brackets, ParseTree.tokens, ihl, ihr, hne]
  | fraction _ _ ihn ihd =>
    simp only [ParseTree.brackets, ParseTree.tokens, ihn, ihd]
    simp [Token.curried]
    omega
  | root _ _ ihi ihr =>
    simp only [ParseTree.brackets, ParseTree.tokens, ihi, ihr]
    simp [Token.curried]
    omega
  | _ => simp [ParseTree.brackets, ParseTree.tokens, Token.curried, *]

/-- A well-grouped tree has no fewer brackets than what it quotes is rendered with. If it is a group
itself it has one more. -/
theorem brackets_surface_le (h : Quotes tree expr) (hgrouped : tree.WellGrouped) :
    expr.surface.brackets + tree.isGroup.toNat ≤ tree.brackets := by
  have hoperand {inner : ParseTree} {x : Expr} {needed : Bool}
      (hle : x.surface.brackets + inner.isGroup.toNat ≤ inner.brackets)
      (hneeded : needed → inner.isGroup) :
      (x.surface.groupIf needed).brackets ≤ inner.brackets := by
    rw [ParseTree.brackets_groupIf]
    exact (Nat.add_le_add_left (Bool.toNat_le_toNat hneeded) _).trans hle
  induction h with
  | number => exact Nat.le_of_eq (ParseTree.brackets_ofFloat _)
  | negation => exact (Nat.le_of_eq (ParseTree.brackets_ofFloat _)).trans (Nat.zero_le _)
  | identifier => exact Nat.le_refl _
  | fraction _ _ ihn ihd =>
    have hn := ihn hgrouped.1
    have hd := ihd hgrouped.2
    simp only [Expr.surface, Operand.surface, ParseTree.brackets, ParseTree.isGroup,
      Bool.toNat_false]
    omega
  | call _ ih =>
    have ha := ih hgrouped
    simp only [Expr.surface, Operand.surface, ParseTree.brackets, ParseTree.isGroup,
      Bool.toNat_false]
    omega
  | @squareRoot _ _ r _ ih =>
    have hr := ih hgrouped
    have hsurface : (Expr.root (.subexpression r) (.literal Expr.defaultIndex)).surface =
        .squareRoot r.surface 0 := by
      rw [Expr.surface, if_pos Operand.isDefaultIndex_literal, Operand.surface]
    rw [hsurface]
    simp only [ParseTree.brackets, ParseTree.isGroup, Bool.toNat_false]
    omega
  | root _ _ ihi ihr =>
    have hi := ihi hgrouped.1
    have hr := ihr hgrouped.2
    simp only [Expr.surface, Operand.surface, Operand.isDefaultIndex, ParseTree.brackets,
      ParseTree.isGroup, Bool.toNat_false, Bool.false_eq_true, if_false]
    omega
  | binary hl hoperator hr ihl ihr =>
    obtain ⟨⟨infixed, rfl, hfitsLeft, hfitsRight⟩, hleft, hright⟩ := hgrouped
    cases (Token.operator?_ofOperator infixed).symm.trans hoperator
    have hboth := Nat.add_le_add (hoperand (ihl hleft) (hl.isGroup_beside hfitsLeft))
      (hoperand (ihr hright) (hr.isGroup_beside hfitsRight))
    exact hboth
  | factorial hx ih =>
    have hx' := hoperand (ih hgrouped.2) (hx.isGroup_beforeFactorial hgrouped.1)
    exact hx'
  | group _ ih => exact Nat.succ_le_succ ((Nat.le_add_right _ _).trans (ih hgrouped))

end Quotes

theorem ParseTree.numerals_groupIf (needed : Bool) (tree : ParseTree) :
    (tree.groupIf needed).numerals = tree.numerals := by
  cases needed <;> rfl

theorem ParseTree.numerals_ofFloat (x : Float) :
    (ofFloat x).numerals = [Decimal.showMagnitude x] := by
  unfold ofFloat
  split <;> rfl

mutual

/-- The numerals of a text are the literals as they are written. -/
theorem Operand.numerals_surface : ∀ operand : Operand,
    operand.surface.numerals = operand.written.map Decimal.showMagnitude
  | .literal x => ParseTree.numerals_ofFloat x
  | .reference _ => rfl
  | .subexpression expr => expr.numerals_surface

/-- An expression is rendered with the magnitudes of its literals. -/
theorem Expr.numerals_surface : ∀ expr : Expr,
    expr.surface.numerals = expr.written.map Decimal.showMagnitude
  | .number x => ParseTree.numerals_ofFloat x
  | .identifier _ => rfl
  | .call _ argument => argument.numerals_surface
  | .factorial argument => by
    rw [Expr.surface, ParseTree.numerals, ParseTree.numerals_groupIf, argument.numerals_surface,
      Expr.written]
  | .root radicand index => by
    rw [Expr.surface, Expr.written]
    split
    · exact radicand.numerals_surface
    · rw [ParseTree.numerals, index.numerals_surface, radicand.numerals_surface, List.map_append]
  | .fraction numerator denominator => by
    rw [Expr.surface, ParseTree.numerals, numerator.numerals_surface,
      denominator.numerals_surface, Expr.written, List.map_append]
  | .binary left operator right => by
    rw [Expr.surface, ParseTree.numerals, ParseTree.numerals_groupIf, ParseTree.numerals_groupIf,
      left.numerals_surface, right.numerals_surface, Expr.written, List.map_append]

end

/-- Built of a source, a tree quotes what it is built to if its numbers are all the literals. -/
theorem Built.quotes_of_lex {tree : ParseTree} {expr : Expr} (h : Built tree expr) {source : String}
    {lexemes : List Lexeme} (hlex : Token.lex source = .ok lexemes)
    (hspelling : (lexemes.map Lexeme.token).flatMap Token.curried = tree.spelling)
    (hlength : tree.numerals.length = expr.written.length) : Quotes tree expr := by
  refine h.quotes ?_ hlength
  rw [h.numerals_eq, ← hspelling, Token.filterMap_numeral?_curried]
  exact Token.unsigned_of_lex hlex

section

variable {expr : Expr} {pair : ParseTree.Grouping} (hpair : pair ∈ expr.surface.groupings)
  (hnormal : expr.normal = expr) (hfinite : ∀ x ∈ expr.literals, x.isFinite)

include hpair hnormal hfinite

/-- Opening a group changes nothing of what is built. -/
theorem built_freed : Built pair.freed expr := by
  have hsurface := expr.built_surface hfinite
  rw [hnormal] at hsurface
  rw [← Built.iff, ParseTree.ofParseTree?_of_mem_groupings pair hpair]
  exact hsurface.ofParseTree?_eq

/-- A text without one of its pairs does not compile to an expression that differs in no more than
the signs of its zeros. -/
theorem not_decidedBy_of_compile (hnames : ∀ name ∈ expr.variables, Token.IsName name)
    {again : Expr} (hcompile : (compile pair.textWithout).result = .ok again) :
    ¬ DecidedBy again.written expr.written (again = expr) := by
  intro hdecided
  obtain ⟨lexemes, hlex, tree, hparse, hbuilt⟩ := compile_eq_ok_iff.1 hcompile
  have hderives := (ParseTree.derives_of_ofLexemesWithin (by decide) hparse).1
  -- The lexemes are the tokens of the freed tree, so the tree that is parsed is spelled like it.
  have htokens : lexemes.map Lexeme.token = pair.freed.tokens := by
    have hlegible : pair.freed.Legible :=
      (ParseTree.legible_of_mem_groupings pair hpair).2 (expr.legible_surface hfinite hnames)
    obtain ⟨others, hothers, htokens⟩ := (pair.freed.reads_text hlegible).lex
    rw [(ParseTree.text_of_mem_groupings pair hpair).2, hlex] at hothers
    cases hothers
    exact htokens
  have hspelling : pair.freed.spelling = tree.spelling := by
    rw [← hderives.spelling_eq, htokens, ParseTree.spelling]
  -- It has as many numbers as the expression, so that it quotes what is built of it.
  have hlength : pair.freed.numerals.length = expr.written.length := by
    rw [ParseTree.numerals_of_mem_groupings pair hpair, expr.numerals_surface, List.length_map]
  have hfreed := built_freed hpair hnormal hfinite
  have hquotesFreed : Quotes pair.freed expr :=
    hfreed.quotes_of_lex hlex (by rw [htokens, ParseTree.spelling]) hlength
  have hquotes : Quotes tree again := by
    refine hbuilt.quotes_of_lex hlex hderives.spelling_eq ?_
    rw [hbuilt.numerals_eq, ← hspelling, ← hfreed.numerals_eq, hlength, hdecided.length_eq]
  -- Then it has the same literals in the same order, and a bracket too few.
  have hscan : (⟨true, 0, [] ++ again.written⟩ : Scan) = ⟨true, 0, [] ++ expr.written⟩ := by
    rw [← hquotes.foldl_eq, ← hquotesFreed.foldl_eq, hspelling]
  obtain rfl : again = expr := hdecided.of_eq (by simpa using hscan)
  have hle := hquotes.brackets_surface_le hderives.wellGrouped.1
  have hless := ParseTree.brackets_of_mem_groupings pair hpair
  rw [hquotes.brackets_eq, ← hspelling, ← hquotesFreed.brackets_eq] at hle
  omega

end

/-- Rendering writes no superfluous parentheses. Each group of an expression that was compiled, with
finite literals, is a pair of parentheses in its text, and if the text without this pair compiles at
all then it is to an expression that is neither the same nor equal. -/
theorem compile_textWithout_ne {source : String} {expr : Expr}
    (hcompile : (compile source).result = .ok expr) (hfinite : ∀ x ∈ expr.literals, x.isFinite) :
    ∀ pair ∈ expr.surface.groupings, pair.text = expr.render ∧
      ∀ again, (compile pair.textWithout).result = .ok again →
        again ≠ expr ∧ (again == expr) = false := by
  intro pair hpair
  refine ⟨(ParseTree.text_of_mem_groupings pair hpair).1, fun again hagain ↦ ?_⟩
  have hnot := not_decidedBy_of_compile hpair (normal_of_compile hcompile) hfinite
    (isName_of_compile hcompile) hagain
  constructor
  · rintro rfl
    exact hnot ⟨rfl, fun _ ↦ rfl⟩
  · rw [← Bool.not_eq_true]
    intro hequal
    exact hnot (Expr.decidedBy_written hequal)

/-- A power under a power: of two pairs the text keeps one, without which the other power would be
the exponent. -/
theorem compile_textWithout_ne_power :
    let tower : Expr := .binary
      (.subexpression (.binary (.subexpression (.identifier "a")) .power
        (.subexpression (.identifier "b"))))
      .power (.subexpression (.identifier "c"))
    (compile "((a^b))^c").result = .ok tower ∧ "(a ^ b) ^ c" = tower.render ∧
      ∀ again, (compile "a ^ b ^ c").result = .ok again →
        again ≠ tower ∧ (again == tower) = false := by
  intro tower
  have hparse : ParseTree.parse "((a^b))^c" =
      .ok (.binary
        (.group (.group (.binary (.identifier "a" 2) .caret (.identifier "b" 4) 3))) .caret
        (.identifier "c" 8) 7) := by decide +kernel
  have hcompile : (compile "((a^b))^c").result = .ok tower := compile_of_parse_ok hparse rfl
  have hfinite : ∀ x ∈ tower.literals, x.isFinite := List.forall_mem_nil _
  let freed : ParseTree := .binary
    (.binary (.identifier "a" 0) .caret (.identifier "b" 0) 0) .caret (.identifier "c" 0) 0
  have hpair : ⟨"", "a ^ b", " ^ c", freed⟩ ∈ tower.surface.groupings := List.mem_cons_self
  exact ⟨hcompile, compile_textWithout_ne hcompile hfinite _ hpair⟩

end Formula
