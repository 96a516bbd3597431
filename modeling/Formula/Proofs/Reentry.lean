import Mathlib.Order.MinMax
import Formula.Proofs.RoundTrip

/-!
# Entering a rendered expression again

The text of an expression is refused exactly if the tree that it is written as is too high, and for
nothing else, whatever literals the expression has: the words for infinity and for no number are
read as names. A compiled expression is written as a tree at most twice as high as the one it was
compiled from, since a minus becomes a product in parentheses. So half the limit can always be
entered again, and one level more cannot: that many minus signs in front of a name are accepted and
rendered as a text that is refused.
-/

namespace Formula

/-- What a magnitude is shown as is a word or a numeral that can be read. -/
theorem Decimal.showMagnitude_cases (x : Float) :
    (showMagnitude x = "NaN" ∨ showMagnitude x = "inf") ∨
      IsNumeral (showMagnitude x).toList ∧ ∃ value, readFloat? (showMagnitude x) = some value := by
  unfold showMagnitude
  split
  · exact .inl (.inl rfl)
  · split
    · exact .inl (.inr rfl)
    · obtain ⟨hnumeral, read, hread, -⟩ :=
        (shortest (Binary64.magnitudeBits x)).positional_spec
      refine .inr ⟨hnumeral, read.toFloat false, ?_⟩
      simp only [readFloat?, hnumeral.splitSign_eq, hread]

/-- A numeral is neither of the words that stand for a float. -/
theorem Decimal.IsNumeral.ne_word {text : String} (h : IsNumeral text.toList) :
    ¬ (text = "NaN" ∨ text = "inf") := by
  obtain ⟨c, rest, htext, hc⟩ := h.exists_digit
  rintro (rfl | rfl) <;> cases htext <;> cases hc

namespace ParseTree

/-- The tree as its text is read: the words for doubles without digits are names. -/
def worded : ParseTree → ParseTree
  | number text position =>
    if text = "NaN" ∨ text = "inf" then .identifier text position else .number text position
  | identifier name position => .identifier name position
  | fraction numerator denominator position =>
    .fraction numerator.worded denominator.worded position
  | call keyword argument position => .call keyword argument.worded position
  | squareRoot radicand position => .squareRoot radicand.worded position
  | root index radicand position => .root index.worded radicand.worded position
  | binary left operator right position => .binary left.worded operator right.worded position
  | negation operand position => .negation operand.worded position
  | factorial operand position => .factorial operand.worded position
  | group inner => .group inner.worded

theorem text_worded (tree : ParseTree) : tree.worded.text = tree.text := by
  induction tree with
  | number text position =>
    rw [worded]
    split <;> rfl
  | _ => simp [worded, text, *]

theorem height_worded (tree : ParseTree) : tree.worded.height = tree.height := by
  induction tree with
  | number text position =>
    rw [worded]
    split <;> rfl
  | _ => simp [worded, height, *]

theorem category_worded (tree : ParseTree) : tree.worded.category = tree.category := by
  cases tree with
  | number text position =>
    rw [worded]
    split <;> rfl
  | _ => rfl

theorem wellGrouped_worded {tree : ParseTree} (h : tree.WellGrouped) :
    tree.worded.WellGrouped := by
  induction tree with
  | number text position =>
    rw [worded]
    split <;> trivial
  | _ => simp_all [worded, WellGrouped, Fits, category_worded]

theorem worded_groupIf (needed : Bool) (tree : ParseTree) :
    (tree.groupIf needed).worded = tree.worded.groupIf needed := by
  cases needed <;> rfl

structure Enterable (tree : ParseTree) : Prop where
  legible : tree.Legible
  built : ∃ expr, Built tree expr

theorem enterable_groupIf {needed : Bool} {tree : ParseTree} (h : tree.Enterable) :
    (tree.groupIf needed).Enterable :=
  ⟨legible_groupIf h.legible, h.built.imp fun _ ↦ built_groupIf⟩

theorem enterable_number {text : String} {position : Nat}
    (h : (text = "NaN" ∨ text = "inf") ∨
      Decimal.IsNumeral text.toList ∧ ∃ value, Decimal.readFloat? text = some value) :
    (number text position).worded.Enterable := by
  rw [worded]
  rcases h with hword | ⟨hnumeral, value, hread⟩
  · rw [if_pos hword]
    rcases hword with rfl | rfl
    · exact ⟨⟨Token.isWord_of_all rfl rfl rfl, by decide⟩, _, .identifier⟩
    · exact ⟨⟨Token.isWord_of_all rfl rfl rfl, by decide⟩, _, .identifier⟩
  · rw [if_neg hnumeral.ne_word]
    exact ⟨hnumeral, _, .number hread⟩

/-- Every float is written so that it can be entered, if only as a name. -/
theorem enterable_ofFloat (x : Float) : (ofFloat x).worded.Enterable := by
  obtain ⟨hlegible, expr, hbuilt⟩ : (number (Decimal.showMagnitude x) 0).worded.Enterable :=
    enterable_number (Decimal.showMagnitude_cases x)
  unfold ofFloat
  split
  · exact ⟨hlegible, expr.negate, .negation hbuilt⟩
  · exact ⟨hlegible, expr, hbuilt⟩

end ParseTree

mutual

/-- An operand with names for variables is written so that it can be entered. -/
theorem Operand.enterable_surface : ∀ operand : Operand,
    (∀ name ∈ operand.variables, Token.IsName name) → operand.surface.worded.Enterable
  | .literal value, _ => ParseTree.enterable_ofFloat value
  | .reference name, hnames => ⟨hnames name List.mem_cons_self, _, .identifier⟩
  | .subexpression expr, hnames => expr.enterable_surface hnames

/-- What an expression is quoted as can be entered if its variables are names. -/
theorem Expr.enterable_surface : ∀ expr : Expr,
    (∀ name ∈ expr.variables, Token.IsName name) → expr.surface.worded.Enterable
  | .number value, _ => ParseTree.enterable_ofFloat value
  | .identifier name, hnames => ⟨hnames name List.mem_cons_self, _, .identifier⟩
  | .call function argument, hnames => by
    obtain ⟨hlegible, a, ha⟩ := argument.enterable_surface hnames
    exact ⟨⟨function.isName_keyword, hlegible⟩, _, .call function.ofKeyword?_keyword ha⟩
  | .factorial argument, hnames => by
    rw [Expr.surface, ParseTree.worded, ParseTree.worded_groupIf]
    obtain ⟨hlegible, a, ha⟩ := ParseTree.enterable_groupIf (argument.enterable_surface hnames)
    exact ⟨hlegible, _, .factorial ha⟩
  | .root radicand index, hnames => by
    obtain ⟨hradicand, hindex⟩ := List.forall_mem_append.1 hnames
    obtain ⟨hlegible, r, hr⟩ := radicand.enterable_surface hradicand
    obtain ⟨hlegibleIndex, i, hi⟩ := index.enterable_surface hindex
    rw [Expr.surface]
    split
    · exact ⟨hlegible, _, .squareRoot hr⟩
    · exact ⟨⟨hlegibleIndex, hlegible⟩, _, .root hi hr⟩
  | .fraction numerator denominator, hnames => by
    obtain ⟨hnumerator, hdenominator⟩ := List.forall_mem_append.1 hnames
    obtain ⟨hlegibleN, n, hn⟩ := numerator.enterable_surface hnumerator
    obtain ⟨hlegibleD, d, hd⟩ := denominator.enterable_surface hdenominator
    exact ⟨⟨hlegibleN, hlegibleD⟩, _, .fraction hn hd⟩
  | .binary left operator right, hnames => by
    obtain ⟨hleft, hright⟩ := List.forall_mem_append.1 hnames
    rw [Expr.surface, ParseTree.worded, ParseTree.worded_groupIf, ParseTree.worded_groupIf]
    obtain ⟨hlegibleL, l, hl⟩ := ParseTree.enterable_groupIf (left.enterable_surface hleft)
    obtain ⟨hlegibleR, r, hr⟩ := ParseTree.enterable_groupIf (right.enterable_surface hright)
    exact ⟨⟨hlegibleL, ⟨operator, rfl⟩, hlegibleR⟩, _,
      .binary hl (Token.operator?_ofOperator operator) hr⟩

end

section

variable {expr : Expr} (hnames : ∀ name ∈ expr.variables, Token.IsName name)

include hnames

/-- A text within the limit compiles, whatever its literals are. -/
theorem exists_compile_render (hheight : expr.surface.height ≤ ParseTree.maxHeight) :
    ∃ again, (compile expr.render).result = .ok again := by
  obtain ⟨hlegible, again, hbuilt⟩ := expr.enterable_surface hnames
  rw [Expr.render, ← expr.surface.text_worded]
  rw [← expr.surface.height_worded] at hheight
  exact ⟨again, compile_text_of_height_le hlegible
    (ParseTree.wellGrouped_worded expr.wellGrouped_surface) hbuilt hheight⟩

/-- A text beyond the limit is refused as too deep. -/
theorem compile_render_tooDeep (hheight : ParseTree.maxHeight < expr.surface.height) :
    ∃ position, (compile expr.render).result = .error (.parse (.tooDeep position)) := by
  obtain ⟨hlegible, -⟩ := expr.enterable_surface hnames
  rw [Expr.render, ← expr.surface.text_worded]
  rw [← expr.surface.height_worded] at hheight
  exact compile_text_of_lt_height hlegible
    (ParseTree.wellGrouped_worded expr.wellGrouped_surface) hheight

end

theorem ParseTree.height_groupIf_le (needed : Bool) (tree : ParseTree) :
    (tree.groupIf needed).height ≤ tree.height + 1 := by
  cases needed with
  | false => exact Nat.le_succ _
  | true => exact Nat.le_refl _

theorem ParseTree.height_ofFloat_le (x : Float) : (ofFloat x).height ≤ 2 := by
  unfold ofFloat
  split
  · exact Nat.le_refl 2
  · exact Nat.le_succ 1

/-- An operator adds one level to its operands, and parentheses or a minus sign one more. -/
theorem Expr.height_surface_binary_le (left right : Operand) (operator : Operator) :
    (binary left operator right).surface.height ≤
      max left.surface.height right.surface.height + 2 := by
  have hleft := left.surface.height_groupIf_le (left.isGroupedBeside operator .left)
  have hright := right.surface.height_groupIf_le (right.isGroupedBeside operator .right)
  simp only [surface, ParseTree.height]
  omega

theorem Expr.height_surface_negate_le (expr : Expr) :
    expr.negate.surface.height ≤ max 2 expr.surface.height + 2 := by
  cases expr with
  | number value =>
    have hnegated : (number (-value)).surface.height ≤ 2 := ParseTree.height_ofFloat_le (-value)
    change (number (-value)).surface.height ≤ _
    omega
  | _ =>
    refine (height_surface_binary_le _ _ .multiply).trans ?_
    have hone : (ParseTree.ofFloat (-1)).height ≤ 2 := ParseTree.height_ofFloat_le (-1)
    exact Nat.add_le_add_right (max_le_max hone (Nat.le_refl _)) 2

/-- A built expression is written as a tree at most twice as high as the one it is built of. -/
theorem Built.height_surface_le {tree : ParseTree} {expr : Expr} (h : Built tree expr) :
    expr.surface.height ≤ 2 * tree.height := by
  induction h with
  | number hread => exact ParseTree.height_ofFloat_le _
  | identifier => exact Nat.le_succ 1
  | fraction _ _ ihn ihd =>
    simp only [Expr.surface, Operand.surface, ParseTree.height]
    omega
  | call _ _ ih =>
    simp only [Expr.surface, Operand.surface, ParseTree.height]
    omega
  | squareRoot _ ih =>
    have hdefault : (Operand.literal Expr.defaultIndex).isDefaultIndex :=
      Operand.isDefaultIndex_iff.2 rfl
    rw [Expr.surface, if_pos hdefault]
    simp only [Operand.surface, ParseTree.height]
    omega
  | root _ _ ihi ihr =>
    rw [Expr.surface, if_neg (by simp [Operand.isDefaultIndex])]
    simp only [Operand.surface, ParseTree.height]
    omega
  | @binary left right _ _ infixed l r _ _ _ ihl ihr =>
    have hproduct := Expr.height_surface_binary_le (.subexpression l) (.subexpression r) infixed
    simp only [Operand.surface] at hproduct
    simp only [ParseTree.height]
    omega
  | @negation operand _ x _ ih =>
    have hnegate := x.height_surface_negate_le
    have hpos := operand.height_pos
    simp only [ParseTree.height]
    omega
  | @factorial operand _ x _ ih =>
    have hgroup := x.surface.height_groupIf_le (Operand.subexpression x).isGroupedBeforeFactorial
    simp only [Expr.surface, Operand.surface, ParseTree.height]
    omega
  | group _ ih =>
    simp only [ParseTree.height]
    omega

/-- The text of a compiled expression compiles exactly if the tree it is written as is within the
limit; otherwise it is nested too deeply, and there is no other failure. A source whose tree is
within half the limit is never refused when it is written out and entered again. -/
theorem compile_render_succeeds_iff {source : String} {expr : Expr}
    (h : (compile source).result = .ok expr) :
    ((∃ again, (compile expr.render).result = .ok again) ↔
      expr.surface.height ≤ ParseTree.maxHeight) ∧
    (∀ error, (compile expr.render).result = .error error →
      ∃ position, error = .parse (.tooDeep position)) ∧
    ∃ tree, ParseTree.parse source = .ok tree ∧
      (2 * tree.height ≤ ParseTree.maxHeight →
        ∃ again, (compile expr.render).result = .ok again) := by
  have hnames := isName_of_compile h
  refine ⟨⟨?_, exists_compile_render hnames⟩, ?_, ?_⟩
  · rintro ⟨again, hagain⟩
    by_contra hhigh
    obtain ⟨position, hrefused⟩ := compile_render_tooDeep hnames (Nat.lt_of_not_le hhigh)
    rw [hagain] at hrefused
    cases hrefused
  · intro error herror
    rcases Nat.lt_or_ge ParseTree.maxHeight expr.surface.height with hlt | hle
    · obtain ⟨position, hrefused⟩ := compile_render_tooDeep hnames hlt
      rw [herror] at hrefused
      exact ⟨position, Except.error.inj hrefused⟩
    · obtain ⟨again, hagain⟩ := exists_compile_render hnames hle
      rw [herror] at hagain
      cases hagain
  · obtain ⟨lexemes, hlex, tree, hparse, hbuilt⟩ := compile_eq_ok_iff.1 h
    refine ⟨tree, ?_, fun hhalf ↦ ?_⟩
    · rw [ParseTree.parse, hlex]
      exact hparse
    · exact exists_compile_render hnames (hbuilt.height_surface_le.trans hhalf)

/-- A negated name is written as a product. -/
theorem compile_render_succeeds_negated_name :
    (compile "-x").result = .ok (Expr.identifier "x").negate ∧
    ∃ again, (compile (Expr.identifier "x").negate.render).result = .ok again := by
  have hparse : ParseTree.parse "-x" = .ok (.negation (.identifier "x" 1) 0) := by decide +kernel
  have hcompiled : (compile "-x").result = .ok (Expr.identifier "x").negate :=
    compile_of_parse_ok hparse rfl
  exact ⟨hcompiled, (compile_render_succeeds_iff hcompiled).1.2 (by decide)⟩

/-! ## Minus signs in front of a name -/

/-- A name behind a number of minus signs, as it is written. -/
def ParseTree.minuses (name : String) : Nat → ParseTree
  | 0 => .identifier name 0
  | signs + 1 => .negation (minuses name signs) 0

/-- The expression that a name behind a number of minus signs stands for. -/
def Expr.minuses (name : String) : Nat → Expr
  | 0 => .identifier name
  | signs + 1 => (minuses name signs).negate

section

variable (name : String)

theorem ParseTree.height_minuses (signs : Nat) : (minuses name signs).height = signs + 1 := by
  induction signs with
  | zero => rfl
  | succ signs ih => rw [minuses, height, ih]

theorem ParseTree.wellGrouped_minuses (signs : Nat) : (minuses name signs).WellGrouped := by
  induction signs with
  | zero => trivial
  | succ signs ih =>
    refine ⟨?_, ih⟩
    cases signs with
    | zero => exact Nat.zero_le _
    | succ signs => exact Nat.le_refl _

theorem ParseTree.legible_minuses (hname : Token.IsName name) (signs : Nat) :
    (minuses name signs).Legible := by
  induction signs with
  | zero => exact hname
  | succ signs ih => exact ih

/-- Every minus sign builds one product with `-1`. -/
theorem built_minuses (signs : Nat) :
    Built (ParseTree.minuses name signs) (Expr.minuses name signs) := by
  induction signs with
  | zero => exact .identifier
  | succ signs ih => exact .negation ih

/-- No minus becomes part of a number. -/
theorem Expr.minuses_succ (signs : Nat) :
    minuses name (signs + 1) =
      binary (.subexpression (number (-1))) .multiply (.subexpression (minuses name signs)) := by
  induction signs with
  | zero => rfl
  | succ signs ih =>
    rw [minuses, ih]
    rfl

/-- Each minus but the first adds the product with -1 and the parentheses around the product that
it negates. -/
theorem Expr.height_surface_minuses (signs : Nat) :
    (minuses name signs).surface.height = 2 * signs + 1 := by
  induction signs with
  | zero => rfl
  | succ signs ih =>
    have hone : (number (-1)).surface.height = 2 := by decide
    have hproduct : (minuses name (signs + 1)).surface.height =
        max 2 ((minuses name signs).surface.groupIf
          ((Operand.subexpression (minuses name signs)).isGroupedBeside .multiply .right)).height
            + 1 := by
      rw [minuses_succ, ← hone]
      rfl
    rw [hproduct]
    cases signs with
    | zero => rfl
    | succ signs =>
      have hgrouped : (Operand.subexpression (minuses name (signs + 1))).isGroupedBeside
          .multiply .right = true := by
        rw [minuses_succ]
        rfl
      rw [hgrouped, ParseTree.groupIf, if_pos rfl, ParseTree.height, ih]
      omega

end

/-- A name behind fewer minus signs than the limit compiles. What it is rendered as can be entered
again if there are fewer than half as many, and is nested too deeply otherwise. -/
theorem compile_render_minuses {name : String} (hname : Token.IsName name) {signs : Nat}
    (hsigns : signs < ParseTree.maxHeight) :
    (compile (ParseTree.minuses name signs).text).result = .ok (Expr.minuses name signs) ∧
    (2 * signs < ParseTree.maxHeight →
      ∃ again, (compile (Expr.minuses name signs).render).result = .ok again) ∧
    (ParseTree.maxHeight ≤ 2 * signs → ∃ position,
      (compile (Expr.minuses name signs).render).result = .error (.parse (.tooDeep position))) := by
  have hcompiled : (compile (ParseTree.minuses name signs).text).result =
      .ok (Expr.minuses name signs) :=
    compile_text_of_height_le (ParseTree.legible_minuses name hname signs)
      (ParseTree.wellGrouped_minuses name signs) (built_minuses name signs)
      (by rwa [ParseTree.height_minuses])
  have hnames := isName_of_compile hcompiled
  have hheight := Expr.height_surface_minuses name signs
  exact ⟨hcompiled, fun hlow ↦ exists_compile_render hnames (by omega),
    fun hhigh ↦ compile_render_tooDeep hnames (by omega)⟩

theorem Expr.isFinite_of_mem_literals_minuses (name : String) (signs : Nat) :
    ∀ x ∈ (minuses name signs).literals, x.isFinite := by
  induction signs with
  | zero => exact fun x hx ↦ absurd hx List.not_mem_nil
  | succ signs ih =>
    rw [minuses_succ]
    intro x hx
    rcases List.mem_cons.1 hx with rfl | hx
    · decide
    · exact ih x hx

theorem ParseTree.text_minuses_half :
    (minuses "x" 64).text =
      "----------------------------------------------------------------x" := by
  decide +kernel

/-- Half the limit of minus signs is written twice as high, which is one level too many. -/
theorem compile_minuses_half :
    (compile "----------------------------------------------------------------x").result =
      .ok (Expr.minuses "x" 64) ∧
    ∃ position,
      (compile (Expr.minuses "x" 64).render).result = .error (.parse (.tooDeep position)) := by
  have hname : Token.IsName "x" := ⟨Token.isWord_of_all rfl rfl rfl, by decide⟩
  obtain ⟨hcompiled, -, hrefused⟩ :=
    compile_render_minuses hname (by decide : 64 < ParseTree.maxHeight)
  rw [ParseTree.text_minuses_half] at hcompiled
  exact ⟨hcompiled, hrefused (by decide)⟩

/-- Half the limit of minus signs: the source compiles and the text it is shown as does not. -/
theorem compile_render_refused :
    ∃ expr, (compile
        "----------------------------------------------------------------x").result =
      .ok expr ∧
    ∃ position, (compile expr.render).result = .error (.parse (.tooDeep position)) :=
  ⟨_, compile_minuses_half⟩

/-- A compiled expression of finite literals need not read back as itself: where its text nests too
deeply it is not read back at all. -/
theorem compile_render_not_read_back :
    ∃ expr, (compile
        "----------------------------------------------------------------x").result =
      .ok expr ∧
    (∀ x ∈ expr.literals, x.isFinite) ∧ (compile expr.render).result ≠ .ok expr := by
  obtain ⟨hcompiled, position, hrefused⟩ := compile_minuses_half
  refine ⟨_, hcompiled, Expr.isFinite_of_mem_literals_minuses "x" 64, fun hback ↦ ?_⟩
  rw [hrefused] at hback
  cases hback

end Formula
