import Formula.Proofs.Derivation
import Formula.Proofs.Lexing

/-!
# Trees with enough groups

A tree can be written without changing what it is if each operand binds tightly enough for its
place. Its tokens then derive it, with the positions that they happen to have, and no other trees
are derived.
-/

namespace Formula

/-- The number of categories that are tighter. -/
def Category.rank : Category → Nat
  | primary => 0
  | factorial => 1
  | power => 2
  | unary => 3
  | product => 4
  | expression => 5

def Category.looser : Category → Category
  | primary => factorial
  | factorial => power
  | power => unary
  | unary => product
  | product => expression
  | expression => expression

/-- Every construct belongs to the next looser category, too. -/
theorem Derives.looser {category : Category} {lexemes : List Lexeme} {tree : ParseTree}
    (h : Derives category lexemes tree) : Derives category.looser lexemes tree := by
  cases category with
  | primary => exact .ofPrimary h
  | factorial => exact .ofFactorial h
  | power => exact .ofPower h
  | unary => exact .ofUnary h
  | product => exact .ofProduct h
  | expression => exact h

theorem Category.repeat_looser {tight loose : Category} (h : tight.rank ≤ loose.rank) :
    Nat.repeat looser (loose.rank - tight.rank) tight = loose := by
  cases tight <;> cases loose <;> first | rfl | exact absurd h (by decide)

/-- What is one thing of a category is also one of every looser category. -/
theorem Derives.loosen {tight loose : Category} {lexemes : List Lexeme} {tree : ParseTree}
    (h : Derives tight lexemes tree) (hle : tight.rank ≤ loose.rank) :
    Derives loose lexemes tree := by
  rw [← Category.repeat_looser hle]
  generalize loose.rank - tight.rank = steps
  induction steps with
  | zero => exact h
  | succ steps ih => exact ih.looser

namespace Operator

def category : Operator → Category
  | add | subtract => .expression
  | multiply | divide | modulus => .product
  | power => .power

/-- What can stand on each side of the operator. -/
def operandCategory : Operator → Side → Category
  | add, .left | subtract, .left => .expression
  | add, .right | subtract, .right => .product
  | multiply, .left | divide, .left | modulus, .left => .product
  | multiply, .right | divide, .right | modulus, .right => .unary
  | power, .left => .factorial
  | power, .right => .unary

end Operator

/-- An operator joins operands of the categories on its two sides. -/
theorem Derives.binary (operator : Operator) {left right : List Lexeme} {l r : ParseTree}
    {position : Nat} (hleft : Derives (operator.operandCategory .left) left l)
    (hright : Derives (operator.operandCategory .right) right r) :
    Derives operator.category (left ++ ⟨.ofOperator operator, position⟩ :: right)
      (.binary l (.ofOperator operator) r position) := by
  cases operator with
  | add | subtract => exact .sum hleft rfl hright
  | multiply | divide | modulus => exact .product hleft rfl hright
  | power => exact .power hleft hright

namespace ParseTree

def unplaced : ParseTree → ParseTree
  | number text _ => .number text 0
  | identifier name _ => .identifier name 0
  | fraction numerator denominator _ => .fraction numerator.unplaced denominator.unplaced 0
  | call keyword argument _ => .call keyword argument.unplaced 0
  | squareRoot radicand _ => .squareRoot radicand.unplaced 0
  | root index radicand _ => .root index.unplaced radicand.unplaced 0
  | binary left operator right _ => .binary left.unplaced operator right.unplaced 0
  | negation operand _ => .negation operand.unplaced 0
  | factorial operand _ => .factorial operand.unplaced 0
  | group inner => .group inner.unplaced

def category : ParseTree → Category
  | binary _ operator _ _ => (operator.operator?.map Operator.category).getD .expression
  | negation _ _ => .unary
  | factorial _ _ => .factorial
  | _ => .primary

/-- Whether the tree binds tightly enough to stand where the category is asked for. -/
def Fits (tree : ParseTree) (category : Category) : Prop :=
  tree.category.rank ≤ category.rank

/-- Whether every operand in the tree fits where it stands. -/
def WellGrouped : ParseTree → Prop
  | number _ _ => True
  | identifier _ _ => True
  | fraction numerator denominator _ => numerator.WellGrouped ∧ denominator.WellGrouped
  | call _ argument _ => argument.WellGrouped
  | squareRoot radicand _ => radicand.WellGrouped
  | root index radicand _ => index.WellGrouped ∧ radicand.WellGrouped
  | binary left operator right _ =>
    (∃ infixed, operator = .ofOperator infixed ∧ left.Fits (infixed.operandCategory .left) ∧
      right.Fits (infixed.operandCategory .right)) ∧
    left.WellGrouped ∧ right.WellGrouped
  | negation operand _ => operand.Fits .unary ∧ operand.WellGrouped
  | factorial operand _ => operand.Fits .factorial ∧ operand.WellGrouped
  | group inner => inner.WellGrouped

theorem fits_expression (tree : ParseTree) : tree.Fits .expression := by
  unfold Fits
  cases tree.category <;> decide

end ParseTree

theorem exists_of_tokens_cons {lexemes : List Lexeme} {token : Token} {tokens : List Token}
    (h : lexemes.map Lexeme.token = token :: tokens) :
    ∃ position others, lexemes = ⟨token, position⟩ :: others ∧
      others.map Lexeme.token = tokens := by
  obtain ⟨⟨_, position⟩, others, rfl, rfl, hothers⟩ := List.map_eq_cons_iff.1 h
  exact ⟨position, others, rfl, hothers⟩

theorem exists_of_tokens_singleton {lexemes : List Lexeme} {token : Token}
    (h : lexemes.map Lexeme.token = [token]) : ∃ position, lexemes = [⟨token, position⟩] := by
  obtain ⟨position, others, rfl, hothers⟩ := exists_of_tokens_cons h
  exact ⟨position, by rw [List.map_eq_nil_iff.1 hothers]⟩

theorem exists_of_tokens_pair {lexemes : List Lexeme} {token next : Token}
    (h : lexemes.map Lexeme.token = [token, next]) :
    ∃ position position', lexemes = [⟨token, position⟩, ⟨next, position'⟩] := by
  obtain ⟨position, others, rfl, hothers⟩ := exists_of_tokens_cons h
  obtain ⟨position', rfl⟩ := exists_of_tokens_singleton hothers
  exact ⟨position, position', rfl⟩

/-- A token among those of a list of lexemes splits the list in the same way. -/
theorem exists_of_tokens_append {lexemes : List Lexeme} {token : Token}
    {before after : List Token} (h : lexemes.map Lexeme.token = before ++ token :: after) :
    ∃ first position second, lexemes = first ++ ⟨token, position⟩ :: second ∧
      first.map Lexeme.token = before ∧ second.map Lexeme.token = after := by
  obtain ⟨first, others, rfl, hfirst, hothers⟩ := List.map_eq_append_iff.1 h
  obtain ⟨position, second, rfl, hsecond⟩ := exists_of_tokens_cons hothers
  exact ⟨first, position, second, rfl, hfirst, hsecond⟩

/-- Lexemes up to a last delimiter. -/
theorem exists_of_tokens_concat {lexemes : List Lexeme} {token : Token} {before : List Token}
    (h : lexemes.map Lexeme.token = before ++ [token]) :
    ∃ first position, lexemes = first ++ [⟨token, position⟩] ∧ first.map Lexeme.token = before := by
  obtain ⟨first, position, second, rfl, hfirst, hsecond⟩ := exists_of_tokens_append h
  exact ⟨first, position, by rw [List.map_eq_nil_iff.1 hsecond], hfirst⟩

/-- What stands between a first and a last delimiter. -/
theorem exists_of_tokens_enclosed {lexemes : List Lexeme} {opening closing : Token}
    {inner : List Token} (h : lexemes.map Lexeme.token = opening :: (inner ++ [closing])) :
    ∃ start inside stop, lexemes = ⟨opening, start⟩ :: (inside ++ [⟨closing, stop⟩]) ∧
      inside.map Lexeme.token = inner := by
  obtain ⟨start, others, rfl, hothers⟩ := exists_of_tokens_cons h
  obtain ⟨inside, stop, rfl, hinside⟩ := exists_of_tokens_concat hothers
  exact ⟨start, inside, stop, rfl, hinside⟩

/-- The ways to write two arguments after a keyword. -/
inductive PairForm where
  | fraction
  | curriedFraction
  | root

namespace PairForm

@[simp]
def keyword : PairForm → Token
  | fraction | curriedFraction => .frac
  | root => .root

/-- The delimiter in front of the first argument; a right parenthesis is behind the second one. -/
@[simp]
def opening : PairForm → Token
  | fraction | curriedFraction => .leftParen
  | root => .leftBracket

@[simp]
def between : PairForm → List Token
  | fraction => [.comma]
  | curriedFraction => [.rightParen, .leftParen]
  | root => [.rightBracket, .leftParen]

@[simp]
def tree : PairForm → ParseTree → ParseTree → Nat → ParseTree
  | fraction | curriedFraction => .fraction
  | root => .root

/-- The tree of a pair depends on its positions only through its parts. -/
theorem unplaced_tree_congr (form : PairForm) {a b a' b' : ParseTree} {position position' : Nat}
    (hfirst : a.unplaced = a'.unplaced) (hsecond : b.unplaced = b'.unplaced) :
    (form.tree a b position).unplaced = (form.tree a' b' position').unplaced := by
  cases form with
  | fraction | curriedFraction => exact congrArg₂ (ParseTree.fraction · · 0) hfirst hsecond
  | root => exact congrArg₂ (ParseTree.root · · 0) hfirst hsecond

end PairForm

/-- The rules for fractions and roots are one rule, with the delimiters of the form. -/
theorem Derives.pair (form : PairForm) {first between second : List Lexeme} {a b : ParseTree}
    {position start stop : Nat} (hfirst : Derives .expression first a)
    (hbetween : between.map Lexeme.token = form.between)
    (hsecond : Derives .expression second b) :
    Derives .primary
      (⟨form.keyword, position⟩ :: ⟨form.opening, start⟩ ::
        (first ++ (between ++ (second ++ [⟨.rightParen, stop⟩]))))
      (form.tree a b position) := by
  cases form with
  | fraction =>
    obtain ⟨comma, rfl⟩ := exists_of_tokens_singleton hbetween
    exact .fraction hfirst hsecond
  | curriedFraction =>
    obtain ⟨closing, opening, rfl⟩ := exists_of_tokens_pair hbetween
    exact .curriedFraction hfirst hsecond
  | root =>
    obtain ⟨closing, opening, rfl⟩ := exists_of_tokens_pair hbetween
    exact .root hfirst hsecond

/-- The lexemes derive the tree, up to the positions in it. -/
def DerivesSome (category : Category) (lexemes : List Lexeme) (tree : ParseTree) : Prop :=
  ∃ placed, Derives category lexemes placed ∧ placed.unplaced = tree.unplaced

/-! ## Stretches of tokens -/

/-- Whatever their positions are, lexemes with these tokens derive the tree. -/
def Spans (category : Category) (tokens : List Token) (tree : ParseTree) : Prop :=
  ∀ lexemes, lexemes.map Lexeme.token = tokens → DerivesSome category lexemes tree

namespace Spans

variable {tokens others : List Token} {tree first second : ParseTree} (position : Nat)

/-- A span of a tight category is one of every looser category. -/
theorem loosen {tight loose : Category} (h : Spans tight tokens tree)
    (hle : tight.rank ≤ loose.rank) : Spans loose tokens tree := by
  intro lexemes htokens
  obtain ⟨placed, hderives, hplaced⟩ := h lexemes htokens
  exact ⟨placed, hderives.loosen hle, hplaced⟩

theorem number (text : String) : Spans .primary [.number text] (.number text position) := by
  intro lexemes htokens
  obtain ⟨place, rfl⟩ := exists_of_tokens_singleton htokens
  exact ⟨_, .number, rfl⟩

theorem identifier (name : String) :
    Spans .primary [.identifier name] (.identifier name position) := by
  intro lexemes htokens
  obtain ⟨place, rfl⟩ := exists_of_tokens_singleton htokens
  exact ⟨_, .identifier, rfl⟩

theorem group (h : Spans .expression tokens tree) :
    Spans .primary (.leftParen :: (tokens ++ [Token.rightParen])) (.group tree) := by
  intro lexemes htokens
  obtain ⟨opening, inside, closing, rfl, hinside⟩ := exists_of_tokens_enclosed htokens
  obtain ⟨placed, hderives, hplaced⟩ := h inside hinside
  exact ⟨.group placed, .group hderives, congrArg ParseTree.group hplaced⟩

/-- An argument in parentheses, as far as a rule of the grammar takes one after the keyword. -/
theorem applied {keyword : Token} {construct : ParseTree → Nat → ParseTree}
    (hrule : ∀ {argument : List Lexeme} {a : ParseTree} {place start stop : Nat},
      Derives .expression argument a →
        Derives .primary
          (⟨keyword, place⟩ :: ⟨.leftParen, start⟩ :: (argument ++ [⟨.rightParen, stop⟩]))
          (construct a place))
    (hunplaced : ∀ a place, (construct a place).unplaced = construct a.unplaced 0)
    (h : Spans .expression tokens tree) :
    Spans .primary (keyword :: .leftParen :: (tokens ++ [Token.rightParen]))
      (construct tree position) := by
  intro lexemes htokens
  obtain ⟨place, rest, rfl, hrest⟩ := exists_of_tokens_cons htokens
  obtain ⟨start, argument, stop, rfl, hargument⟩ := exists_of_tokens_enclosed hrest
  obtain ⟨a, ha, hplaced⟩ := h argument hargument
  exact ⟨construct a place, hrule ha, by rw [hunplaced, hunplaced, hplaced]⟩

theorem call (keyword : String) (h : Spans .expression tokens tree) :
    Spans .primary (.identifier keyword :: .leftParen :: (tokens ++ [Token.rightParen]))
      (.call keyword tree position) :=
  applied position .call (fun _ _ ↦ rfl) h

theorem squareRoot (h : Spans .expression tokens tree) :
    Spans .primary (.root :: .leftParen :: (tokens ++ [Token.rightParen]))
      (.squareRoot tree position) :=
  applied position .squareRoot (fun _ _ ↦ rfl) h

/-- A keyword with its two parts is a primary expression, whatever stands between the parts. -/
theorem pair (form : PairForm) (hfirst : Spans .expression tokens first)
    (hsecond : Spans .expression others second) :
    Spans .primary
      (form.keyword :: form.opening :: (tokens ++ (form.between ++ (others ++ [.rightParen]))))
      (form.tree first second position) := by
  intro lexemes htokens
  obtain ⟨place, rest, rfl, hrest⟩ := exists_of_tokens_cons htokens
  obtain ⟨start, arguments, rfl, harguments⟩ := exists_of_tokens_cons hrest
  obtain ⟨one, rest, rfl, hone, hrest⟩ := List.map_eq_append_iff.1 harguments
  obtain ⟨between, rest, rfl, hbetween, hrest⟩ := List.map_eq_append_iff.1 hrest
  obtain ⟨two, stop, rfl, htwo⟩ := exists_of_tokens_concat hrest
  obtain ⟨a, ha, hplacedA⟩ := hfirst one hone
  obtain ⟨b, hb, hplacedB⟩ := hsecond two htwo
  exact ⟨form.tree a b place, .pair form ha hbetween hb, form.unplaced_tree_congr hplacedA hplacedB⟩

/-- Two operands around an operator, as far as a rule of the grammar joins them. -/
theorem joined {operator : Token} {left right whole : Category}
    (hrule : ∀ {before after : List Lexeme} {l r : ParseTree} {place : Nat},
      Derives left before l → Derives right after r →
        Derives whole (before ++ ⟨operator, place⟩ :: after) (.binary l operator r place))
    (hfirst : Spans left tokens first) (hsecond : Spans right others second) :
    Spans whole (tokens ++ operator :: others) (.binary first operator second position) := by
  intro lexemes htokens
  obtain ⟨before, place, after, rfl, hbefore, hafter⟩ := exists_of_tokens_append htokens
  obtain ⟨l, hl, hplacedL⟩ := hfirst before hbefore
  obtain ⟨r, hr, hplacedR⟩ := hsecond after hafter
  exact ⟨.binary l operator r place, hrule hl hr,
    congrArg₂ (ParseTree.binary · operator · 0) hplacedL hplacedR⟩

theorem negation (h : Spans .unary tokens tree) :
    Spans .unary (.minus :: tokens) (.negation tree position) := by
  intro lexemes htokens
  obtain ⟨place, others, rfl, hothers⟩ := exists_of_tokens_cons htokens
  obtain ⟨x, hx, hplaced⟩ := h others hothers
  exact ⟨.negation x place, .negation hx, congrArg (ParseTree.negation · 0) hplaced⟩

theorem factorial (h : Spans .factorial tokens tree) :
    Spans .factorial (tokens ++ [Token.bang]) (.factorial tree position) := by
  intro lexemes htokens
  obtain ⟨operand, place, rfl, hoperand⟩ := exists_of_tokens_concat htokens
  obtain ⟨x, hx, hplaced⟩ := h operand hoperand
  exact ⟨.factorial x place, .factorial hx, congrArg (ParseTree.factorial · 0) hplaced⟩

end Spans

/-- Whether lexemes derive a tree depends on their tokens alone. -/
theorem Derives.spans {category : Category} {lexemes : List Lexeme} {tree : ParseTree}
    (h : Derives category lexemes tree) : Spans category (lexemes.map Lexeme.token) tree := by
  induction h with
  | ofProduct _ ih | ofUnary _ ih | ofPower _ ih | ofFactorial _ ih | ofPrimary _ ih =>
    exact ih.loosen (by decide)
  | number => exact .number _ _
  | identifier => exact .identifier _ _
  | sum _ hoperator _ ihl ihr =>
    simpa using Spans.joined _ (.sum · hoperator ·) ihl ihr
  | product _ hoperator _ ihl ihr =>
    simpa using Spans.joined _ (.product · hoperator ·) ihl ihr
  | power _ _ ihb ihe => simpa using Spans.joined _ .power ihb ihe
  | negation _ ih => exact ih.negation _
  | factorial _ ih => simpa using ih.factorial _
  | call _ ih => simpa using ih.call _ _
  | group _ ih => simpa using ih.group
  | squareRoot _ ih => simpa using ih.squareRoot _
  | fraction _ _ ihn ihd => simpa using ihn.pair _ .fraction ihd
  | curriedFraction _ _ ihn ihd => simpa using ihn.pair _ .curriedFraction ihd
  | root _ _ ihi ihr => simpa using ihi.pair _ .root ihr

/-- The tokens of a well-grouped tree derive it. -/
theorem ParseTree.spans (tree : ParseTree) (h : tree.WellGrouped) :
    Spans tree.category tree.tokens tree := by
  induction tree with
  | number text position => exact .number position text
  | identifier name position => exact .identifier position name
  | group inner ih => exact ((ih h).loosen inner.fits_expression).group
  | fraction numerator denominator position ihn ihd =>
    exact ((ihn h.1).loosen numerator.fits_expression).pair position .fraction
      ((ihd h.2).loosen denominator.fits_expression)
  | call keyword argument position ih =>
    exact ((ih h).loosen argument.fits_expression).call position keyword
  | squareRoot radicand position ih =>
    exact ((ih h).loosen radicand.fits_expression).squareRoot position
  | root index radicand position ihi ihr =>
    exact ((ihi h.1).loosen index.fits_expression).pair position .root
      ((ihr h.2).loosen radicand.fits_expression)
  | binary left operator right position ihl ihr =>
    obtain ⟨⟨infixed, rfl, hfitsLeft, hfitsRight⟩, hleft, hright⟩ := h
    rw [category, Token.operator?_ofOperator]
    exact .joined position (.binary infixed) ((ihl hleft).loosen hfitsLeft)
      ((ihr hright).loosen hfitsRight)
  | negation operand position ih => exact ((ih h.2).loosen h.1).negation position
  | factorial operand position ih => exact ((ih h.2).loosen h.1).factorial position

/-- What lexemes derive is well grouped. -/
theorem Derives.wellGrouped {category : Category} {lexemes : List Lexeme} {tree : ParseTree}
    (h : Derives category lexemes tree) : tree.WellGrouped ∧ tree.Fits category := by
  induction h with
  | ofProduct _ ih | ofUnary _ ih | ofPower _ ih | ofFactorial _ ih | ofPrimary _ ih =>
    exact ⟨ih.1, Nat.le_trans ih.2 (by decide)⟩
  | number | identifier => exact ⟨trivial, Nat.le_refl _⟩
  | call _ ih | group _ ih | squareRoot _ ih => exact ⟨ih.1, Nat.le_refl _⟩
  | fraction _ _ ihn ihd | curriedFraction _ _ ihn ihd | root _ _ ihn ihd =>
    exact ⟨⟨ihn.1, ihd.1⟩, Nat.le_refl _⟩
  | negation _ ih => exact ⟨⟨ih.2, ih.1⟩, Nat.le_refl _⟩
  | factorial _ ih => exact ⟨⟨ih.2, ih.1⟩, Nat.le_refl _⟩
  | power _ _ ihb ihe =>
    exact ⟨⟨⟨.power, rfl, ihb.2, ihe.2⟩, ihb.1, ihe.1⟩, Nat.le_refl _⟩
  | @sum _ _ _ _ operator _ _ hoperator _ ihl ihr =>
    cases operator with
    | plus => exact ⟨⟨⟨.add, rfl, ihl.2, ihr.2⟩, ihl.1, ihr.1⟩, Nat.le_refl _⟩
    | minus => exact ⟨⟨⟨.subtract, rfl, ihl.2, ihr.2⟩, ihl.1, ihr.1⟩, Nat.le_refl _⟩
    | _ => cases hoperator
  | @product _ _ _ _ operator _ _ hoperator _ ihl ihr =>
    cases operator with
    | star => exact ⟨⟨⟨.multiply, rfl, ihl.2, ihr.2⟩, ihl.1, ihr.1⟩, Nat.le_refl _⟩
    | slash => exact ⟨⟨⟨.divide, rfl, ihl.2, ihr.2⟩, ihl.1, ihr.1⟩, Nat.le_refl _⟩
    | percent => exact ⟨⟨⟨.modulus, rfl, ihl.2, ihr.2⟩, ihl.1, ihr.1⟩, Nat.le_refl _⟩
    | _ => cases hoperator

end Formula
