import Mathlib.Data.List.Basic
import Formula.Proofs.RoundTrip
import Formula.Proofs.Spacing

/-!
# Composition

A text that compiles is read as the same tokens inside a longer text, up to a delimiter, and its
tokens derive the same tree there. So a text that is put together of such texts, keywords, operators
and delimiters compiles to the construct around what its parts compile to; it is refused only if its
tree, which is one or two higher than that of its parts, is above the limit.
-/

namespace Formula

/-- A keyword is one token wherever a word can end. -/
theorem Token.reads_of_keyword {word : String} {token : Token} (h : (word, token) ∈ keywords) :
    Reads word.toList [token] := by
  obtain ⟨hword, htoken⟩ := keyword_spec h
  rw [← htoken]
  exact reads_of_isWord hword

namespace PairForm

def separator : PairForm → String
  | fraction => ","
  | curriedFraction => ")("
  | root => "]("

def expr : PairForm → Expr → Expr → Expr
  | fraction, numerator, denominator | curriedFraction, numerator, denominator =>
    .fraction (.subexpression numerator) (.subexpression denominator)
  | root, index, radicand => .root (.subexpression radicand) (.subexpression index)

variable (form : PairForm)

section

variable {text more : List Char} {tokens others : List Token} (htext : Token.Reads text tokens)
  (hmore : Token.Reads more others)

include htext hmore

theorem reads_append_opening :
    Token.Reads (text ++ (form.opening.text.toList ++ more))
      (tokens ++ form.opening :: others) := by
  cases form with
  | fraction | curriedFraction | root => exact htext.append_symbol rfl hmore

/-- Delimiters between two texts are tokens of their own. -/
theorem reads_append_between :
    Token.Reads (text ++ (form.separator.toList ++ more)) (tokens ++ (form.between ++ others)) := by
  cases form with
  | fraction => exact htext.append_symbol rfl hmore
  | curriedFraction | root => exact htext.append_symbol rfl (hmore.symbol_cons rfl)

end

/-- The two arguments are built apart from each other. -/
theorem built {first second : ParseTree} {left right : Expr} {position : Nat}
    (hfirst : Built first left) (hsecond : Built second right) :
    Built (form.tree first second position) (form.expr left right) := by
  cases form with
  | fraction | curriedFraction => exact .fraction hfirst hsecond
  | root => exact .root hfirst hsecond

theorem height_tree (first second : ParseTree) (position : Nat) :
    (form.tree first second position).height = max first.height second.height + 1 := by
  cases form with
  | fraction | curriedFraction | root => rfl

end PairForm

/-- The text is read as tokens that derive the tree, wherever it stands. -/
def Writes (category : Category) (text : List Char) (tree : ParseTree) : Prop :=
  ∃ tokens, Token.Reads text tokens ∧ Spans category tokens tree

namespace Writes

variable {text more : List Char} {tree first second : ParseTree}

theorem loosen {tight loose : Category} (h : Writes tight text tree)
    (hle : tight.rank ≤ loose.rank) : Writes loose text tree := by
  obtain ⟨tokens, hreads, hspans⟩ := h
  exact ⟨tokens, hreads, hspans.loosen hle⟩

theorem group (h : Writes .expression text tree) :
    Writes .primary ('(' :: (text ++ [')'])) (.group tree) := by
  obtain ⟨tokens, hreads, hspans⟩ := h
  exact ⟨_, hreads.parenthesized, hspans.group⟩

theorem call {keyword : String} (hkeyword : Token.IsName keyword)
    (h : Writes .expression text tree) :
    Writes .primary (keyword.toList ++ '(' :: (text ++ [')'])) (.call keyword tree 0) := by
  obtain ⟨tokens, hreads, hspans⟩ := h
  exact ⟨_, (Token.reads_of_isName hkeyword).append_parenthesized hreads, hspans.call 0 keyword⟩

/-- A keyword, two arguments and the delimiters of the form are one primary. -/
theorem pair (form : PairForm) {word : List Char} (hword : Token.Reads word [form.keyword])
    (hfirst : Writes .expression text first) (hsecond : Writes .expression more second) :
    Writes .primary
      (word ++ (form.opening.text.toList ++ (text ++ (form.separator.toList ++ (more ++ [')'])))))
      (form.tree first second 0) := by
  obtain ⟨tokens, hreads, hspans⟩ := hfirst
  obtain ⟨others, hmore, hothers⟩ := hsecond
  have hclosed := hmore.append_symbol (rfl : Token.ofSymbol? ')' = some .rightParen) Token.reads_nil
  have harguments := form.reads_append_between hreads hclosed
  exact ⟨_, form.reads_append_opening hword harguments, hspans.pair 0 form hothers⟩

/-- Operands that bind tightly enough are joined by an operator between them. -/
theorem binary (operator : Operator) (hfirst : Writes (operator.operandCategory .left) text first)
    (hsecond : Writes (operator.operandCategory .right) more second) :
    Writes operator.category (text ++ operator.symbol.toList ++ more)
      (.binary first (.ofOperator operator) second 0) := by
  obtain ⟨tokens, hreads, hspans⟩ := hfirst
  obtain ⟨others, hmore, hothers⟩ := hsecond
  obtain ⟨c, hsymbol, htoken⟩ : ∃ c, operator.symbol.toList = [c] ∧
      Token.ofSymbol? c = some (.ofOperator operator) := by
    cases operator <;> exact ⟨_, rfl, rfl⟩
  refine ⟨_, ?_, .joined 0 (.binary operator) hspans hothers⟩
  rw [hsymbol, List.append_assoc]
  exact hreads.append_symbol htoken hmore

theorem negation (h : Writes .unary text tree) :
    Writes .unary ('-' :: text) (.negation tree 0) := by
  obtain ⟨tokens, hreads, hspans⟩ := h
  exact ⟨_, hreads.symbol_cons rfl, hspans.negation 0⟩

theorem factorial (h : Writes .factorial text tree) :
    Writes .factorial (text ++ ['!']) (.factorial tree 0) := by
  obtain ⟨tokens, hreads, hspans⟩ := h
  exact ⟨_, hreads.append_symbol rfl Token.reads_nil, hspans.factorial 0⟩

end Writes

/-! ## Texts that compile -/

/-- The text compiles to the expression, unless trees of the height are above the limit, in which
case it is refused as nested too deeply. -/
structure CompilesWithin (height : Nat) (source : String) (expr : Expr) : Prop where
  compiles : height ≤ ParseTree.maxHeight → (compile source).result = .ok expr
  refused : ParseTree.maxHeight < height →
    ∃ position, (compile source).result = .error (.parse (.tooDeep position))

def sourceHeight (source : String) : Nat :=
  match ParseTree.parse source with
  | .ok tree => tree.height
  | .error _ => 0

/-- A text that is read as a tree compiles to what the tree is built into, up to the limit. -/
theorem Writes.compilesWithin {category : Category} {text : List Char} {source : String}
    {tree : ParseTree} {expr : Expr} (h : Writes category text tree) (hbuilt : Built tree expr)
    (htext : source.toList = text) : CompilesWithin tree.height source expr := by
  have hrank : category.rank ≤ Category.expression.rank := by cases category <;> decide
  subst htext
  obtain ⟨tokens, hreads, hspans⟩ := h.loosen hrank
  obtain ⟨lexemes, hlex, htokens⟩ := hreads.lex
  have hderives := hspans lexemes htokens
  exact ⟨compile_of_height_le hlex hderives hbuilt, compile_of_lt_height hlex hderives⟩

/-- A text that compiles is read as a tree, and is so inside other texts. -/
theorem exists_writes_of_compile {source : String} {expr : Expr}
    (h : (compile source).result = .ok expr) :
    ∃ tree, Writes .expression source.toList tree ∧ Built tree expr ∧
      tree.height = sourceHeight source := by
  obtain ⟨lexemes, hlex, tree, hparse, hbuilt⟩ := compile_eq_ok_iff.1 h
  have hderives := (ParseTree.derives_of_ofLexemesWithin (by decide) hparse).1
  refine ⟨tree, ⟨_, Token.reads_of_lex hlex, hderives.spans⟩, hbuilt, ?_⟩
  have hsource : ParseTree.parse source = .ok tree := by
    rw [ParseTree.parse, hlex]
    exact hparse
  rw [sourceHeight, hsource]

section

variable {source : String} {expr : Expr} (h : (compile source).result = .ok expr)

include h

/-- Parentheses around a text leave its expression as it is. -/
theorem compilesWithin_parenthesized :
    CompilesWithin (sourceHeight source + 1) ("(" ++ source ++ ")") expr := by
  obtain ⟨tree, hwrites, hbuilt, hheight⟩ := exists_writes_of_compile h
  rw [← hheight]
  exact hwrites.group.compilesWithin hbuilt.group (by simp)

/-- A text in the parentheses of a call is the argument of the function. -/
theorem compilesWithin_call (function : Function) :
    CompilesWithin (sourceHeight source + 1) (function.keyword ++ "(" ++ source ++ ")")
      (.call function (.subexpression expr)) := by
  obtain ⟨tree, hwrites, hbuilt, hheight⟩ := exists_writes_of_compile h
  rw [← hheight]
  exact (hwrites.call function.isName_keyword).compilesWithin
    (.call function.ofKeyword?_keyword hbuilt) (by simp)

theorem compilesWithin_factorial :
    CompilesWithin (sourceHeight source + 2) ("(" ++ source ++ ")!")
      (.factorial (.subexpression expr)) := by
  obtain ⟨tree, hwrites, hbuilt, hheight⟩ := exists_writes_of_compile h
  have hoperand : Writes .factorial _ _ := hwrites.group.loosen (by decide)
  rw [← hheight]
  exact hoperand.factorial.compilesWithin (.factorial (.group hbuilt)) (by simp)

theorem compilesWithin_negation :
    CompilesWithin (sourceHeight source + 2) ("-(" ++ source ++ ")") expr.negate := by
  obtain ⟨tree, hwrites, hbuilt, hheight⟩ := exists_writes_of_compile h
  have hoperand : Writes .unary _ _ := hwrites.group.loosen (by decide)
  rw [← hheight]
  exact hoperand.negation.compilesWithin (.negation (.group hbuilt)) (by simp)

end

section

variable {first second : String} {left right : Expr}
  (hfirst : (compile first).result = .ok left) (hsecond : (compile second).result = .ok right)

include hfirst hsecond

/-- Two texts between the delimiters of a form are its arguments. -/
theorem compilesWithin_pair (form : PairForm) {keyword : String}
    (hkeyword : (keyword, form.keyword) ∈ Token.keywords) :
    CompilesWithin (max (sourceHeight first) (sourceHeight second) + 1)
      (keyword ++ form.opening.text ++ first ++ form.separator ++ second ++ ")")
      (form.expr left right) := by
  obtain ⟨a, ha, hbuiltFirst, hheightFirst⟩ := exists_writes_of_compile hfirst
  obtain ⟨b, hb, hbuiltSecond, hheightSecond⟩ := exists_writes_of_compile hsecond
  rw [← hheightFirst, ← hheightSecond, ← form.height_tree a b 0]
  exact (Writes.pair form (Token.reads_of_keyword hkeyword) ha hb).compilesWithin
    (form.built hbuiltFirst hbuiltSecond) (by simp)

/-- Two texts in parentheses are the operands of the operator between them. -/
theorem compilesWithin_binary (operator : Operator) :
    CompilesWithin (max (sourceHeight first) (sourceHeight second) + 2)
      ("(" ++ first ++ ")" ++ operator.symbol ++ "(" ++ second ++ ")")
      (.binary (.subexpression left) operator (.subexpression right)) := by
  obtain ⟨l, hl, hbuiltLeft, hheightLeft⟩ := exists_writes_of_compile hfirst
  obtain ⟨r, hr, hbuiltRight, hheightRight⟩ := exists_writes_of_compile hsecond
  have hwrites := Writes.binary operator (hl.group.loosen (Nat.zero_le _))
    (hr.group.loosen (Nat.zero_le _))
  have hbuilt : Built (.binary l.group (.ofOperator operator) r.group 0) _ :=
    .binary (.group hbuiltLeft) (Token.operator?_ofOperator operator) (.group hbuiltRight)
  have hheight : max l.group.height r.group.height + 1 = max l.height r.height + 2 := by
    simp [ParseTree.height, Nat.succ_max_succ]
  rw [← hheightLeft, ← hheightRight, ← hheight]
  exact hwrites.compilesWithin hbuilt (by simp)

end

/-- Compiling is compositional. Whatever is in the parts, their texts keep their meaning in
parentheses, in a call, in both forms of a fraction, in a root with an index, beside an operator, in
front of a factorial and behind a minus, which becomes part of a number and a multiplication by -1
of anything else. The only other outcome is that the whole text is refused as nested too deeply, and
that it is exactly if its tree is above the limit. -/
theorem compile_compositional (function : Function) (operator : Operator)
    {source first second : String} {expr left right : Expr}
    (h : (compile source).result = .ok expr) (hfirst : (compile first).result = .ok left)
    (hsecond : (compile second).result = .ok right) :
    CompilesWithin (sourceHeight source + 1) ("(" ++ source ++ ")") expr ∧
    CompilesWithin (sourceHeight source + 1) (function.keyword ++ "(" ++ source ++ ")")
      (.call function (.subexpression expr)) ∧
    (∀ keyword ∈ ["frac", "fraction"], ∀ separator ∈ [",", ")("],
      CompilesWithin (max (sourceHeight first) (sourceHeight second) + 1)
        (keyword ++ "(" ++ first ++ separator ++ second ++ ")")
        (.fraction (.subexpression left) (.subexpression right))) ∧
    (∀ keyword ∈ ["root", "sqrt"],
      CompilesWithin (max (sourceHeight first) (sourceHeight second) + 1)
        (keyword ++ "[" ++ first ++ "](" ++ second ++ ")")
        (.root (.subexpression right) (.subexpression left))) ∧
    CompilesWithin (max (sourceHeight first) (sourceHeight second) + 2)
      ("(" ++ first ++ ")" ++ operator.symbol ++ "(" ++ second ++ ")")
      (.binary (.subexpression left) operator (.subexpression right)) ∧
    CompilesWithin (sourceHeight source + 2) ("(" ++ source ++ ")!")
      (.factorial (.subexpression expr)) ∧
    (∀ value, expr = .number value →
      CompilesWithin (sourceHeight source + 2) ("-(" ++ source ++ ")") (.number (-value))) ∧
    ((∀ value, expr ≠ .number value) →
      CompilesWithin (sourceHeight source + 2) ("-(" ++ source ++ ")")
        (.binary (.subexpression (.number (-1))) .multiply (.subexpression expr))) := by
  have hfraction : ∀ keyword ∈ ["frac", "fraction"], (keyword, Token.frac) ∈ Token.keywords := by
    decide
  have hroot : ∀ keyword ∈ ["root", "sqrt"], (keyword, Token.root) ∈ Token.keywords := by
    decide
  refine ⟨compilesWithin_parenthesized h, compilesWithin_call h function, ?_, ?_,
    compilesWithin_binary hfirst hsecond operator, compilesWithin_factorial h, ?_, ?_⟩
  · intro keyword hkeyword separator hseparator
    have hkeyword := hfraction keyword hkeyword
    rcases List.mem_pair.1 hseparator with rfl | rfl
    · exact compilesWithin_pair hfirst hsecond .fraction hkeyword
    · exact compilesWithin_pair hfirst hsecond .curriedFraction hkeyword
  · intro keyword hkeyword
    exact compilesWithin_pair hfirst hsecond .root (hroot keyword hkeyword)
  · rintro value rfl
    exact compilesWithin_negation h
  · intro hnumber
    have hnegated : expr.negate =
        .binary (.subexpression (.number (-1))) .multiply (.subexpression expr) := by
      cases expr with
      | number value => exact absurd rfl (hnumber value)
      | _ => rfl
    rw [← hnegated]
    exact compilesWithin_negation h

/-- A power to the power of a factorial, which would group the other way without parentheses, and
the same power under a root. -/
theorem compile_compositional_powers :
    (compile "x^y").result =
      .ok (.binary (.subexpression (.identifier "x")) .power (.subexpression (.identifier "y"))) ∧
    (compile "z!").result = .ok (.factorial (.subexpression (.identifier "z"))) ∧
    (compile "(x^y)^(z!)").result =
      .ok (.binary
        (.subexpression (.binary (.subexpression (.identifier "x")) .power
          (.subexpression (.identifier "y"))))
        .power (.subexpression (.factorial (.subexpression (.identifier "z"))))) ∧
    (compile "sqrt[z!](x^y)").result =
      .ok (.root
        (.subexpression (.binary (.subexpression (.identifier "x")) .power
          (.subexpression (.identifier "y"))))
        (.subexpression (.factorial (.subexpression (.identifier "z"))))) := by
  have hparts : (compile "x^y").result =
      .ok (.binary (.subexpression (.identifier "x")) .power
        (.subexpression (.identifier "y"))) ∧
      (compile "z!").result = .ok (.factorial (.subexpression (.identifier "z"))) ∧
      sourceHeight "x^y" = 2 ∧ sourceHeight "z!" = 2 := by
    have hbase : ParseTree.parse "x^y" =
        .ok (.binary (.identifier "x" 0) .caret (.identifier "y" 2) 1) := by decide +kernel
    have hdegree : ParseTree.parse "z!" = .ok (.factorial (.identifier "z" 0) 1) := by
      decide +kernel
    exact ⟨compile_of_parse_ok hbase rfl, compile_of_parse_ok hdegree rfl,
      by rw [sourceHeight, hbase]; rfl, by rw [sourceHeight, hdegree]; rfl⟩
  obtain ⟨hpower, hfactorial, hheightPower, hheightFactorial⟩ := hparts
  obtain ⟨-, -, -, -, hbinary, -⟩ := compile_compositional .sin .power hpower hpower hfactorial
  obtain ⟨-, -, -, hroot, -⟩ := compile_compositional .sin .power hpower hfactorial hpower
  rw [hheightPower, hheightFactorial] at hbinary
  rw [hheightPower, hheightFactorial] at hroot
  exact ⟨hpower, hfactorial, hbinary.compiles (by decide),
    (hroot "sqrt" (by decide)).compiles (by decide)⟩

end Formula
