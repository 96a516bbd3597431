import Formula.Expr.Surface
import Formula.Expr.Variables
import Formula.Proofs.Grouping

/-!
# Rendered expressions

The parse tree that an expression is quoted as has a group wherever one is needed, and all its
numbers and names can be read if the literals of the expression are finite and its variables are
names. No other assumption is made on the shape of the expression.
-/

namespace Formula

namespace ParseTree

theorem wellGrouped_groupIf {needed : Bool} {tree : ParseTree} (h : tree.WellGrouped) :
    (tree.groupIf needed).WellGrouped := by
  cases needed <;> exact h

theorem legible_groupIf {needed : Bool} {tree : ParseTree} (h : tree.Legible) :
    (tree.groupIf needed).Legible := by
  cases needed <;> exact h

/-- A group fits everywhere, so only a tree without one has to fit by itself. -/
theorem fits_groupIf {needed : Bool} {tree : ParseTree} {category : Category}
    (h : needed = false → tree.Fits category) : (tree.groupIf needed).Fits category := by
  cases needed with
  | true => exact Nat.zero_le category.rank
  | false => exact h rfl

/-- A negative number is written as a negation. -/
theorem category_ofFloat (x : Float) :
    (ofFloat x).category = if Binary64.isNegative x then .unary else .primary := by
  unfold ofFloat
  split <;> rfl

theorem wellGrouped_ofFloat (x : Float) : (ofFloat x).WellGrouped := by
  unfold ofFloat
  split
  · exact ⟨Nat.zero_le _, trivial⟩
  · trivial

end ParseTree

namespace Operator

/-- Where no grouping is asked for, the operand may stand as it is. -/
theorem rank_le_operandCategory {inner operator : Operator} {side : Side}
    (h : (inner.precedence < operator.precedence ||
      inner.precedence = operator.precedence && side ≠ operator.groupingSide) = false) :
    inner.category.rank ≤ (operator.operandCategory side).rank := by
  revert h
  cases inner <;> cases operator <;> cases side <;> decide

theorem unary_rank_le_operandCategory {operator : Operator} {side : Side}
    (h : (operator = .power && side = .left) = false) :
    Category.unary.rank ≤ (operator.operandCategory side).rank := by
  revert h
  cases operator <;> cases side <;> decide

theorem factorial_rank_le_operandCategory (operator : Operator) (side : Side) :
    Category.factorial.rank ≤ (operator.operandCategory side).rank := by
  cases operator <;> cases side <;> decide

end Operator

namespace Operand

theorem category_of_operator? {operand : Operand} {operator : Operator}
    (h : operand.operator? = some operator) : operand.surface.category = operator.category := by
  unfold operator? at h
  split at h
  · cases h
    rw [surface, Expr.surface, ParseTree.category, Token.operator?_ofOperator]
    rfl
  · cases h

theorem fits_unary {operand : Operand} (h : operand.isNegativeNumber) :
    operand.surface.Fits .unary := by
  have hnumber {x : Float} (hx : Binary64.isNegative x) : (ParseTree.ofFloat x).Fits .unary := by
    have hcategory : (ParseTree.ofFloat x).category = .unary := by
      rw [ParseTree.category_ofFloat, if_pos hx]
    exact Nat.le_of_eq (congrArg Category.rank hcategory)
  unfold isNegativeNumber at h
  split at h
  · exact hnumber h
  · exact hnumber h
  · cases h

theorem fits_factorial {operand : Operand} (hoperator : operand.operator? = none)
    (hpositive : operand.isNegativeNumber = false) : operand.surface.Fits .factorial := by
  have hnumber {x : Float} (hx : Binary64.isNegative x = false) :
      (ParseTree.ofFloat x).Fits .factorial := by
    have hcategory : (ParseTree.ofFloat x).category = .primary := by
      rw [ParseTree.category_ofFloat, if_neg (by simp [hx])]
    rw [ParseTree.Fits, hcategory]
    exact Nat.zero_le _
  cases operand with
  | literal value => exact hnumber hpositive
  | reference name => exact Nat.zero_le _
  | subexpression expr =>
    cases expr with
    | number value => exact hnumber hpositive
    | identifier | call | fraction => exact Nat.zero_le _
    | factorial => exact Nat.le_refl _
    | root radicand index =>
      rw [surface, Expr.surface]
      split <;> exact Nat.zero_le _
    | binary => cases hoperator

/-- An operand beside an operator fits there, by itself or as a group. -/
theorem fits_beside (operand : Operand) (operator : Operator) (side : Side) :
    (operand.surface.groupIf (operand.isGroupedBeside operator side)).Fits
      (operator.operandCategory side) := by
  apply ParseTree.fits_groupIf
  intro hbare
  unfold isGroupedBeside at hbare
  cases hoperator : operand.operator? with
  | some inner =>
    rw [hoperator] at hbare
    rw [ParseTree.Fits, category_of_operator? hoperator]
    exact Operator.rank_le_operandCategory hbare
  | none =>
    rw [hoperator] at hbare
    cases hnegative : operand.isNegativeNumber with
    | true =>
      have hside : (operator = .power && side = .left) = false := by simpa [hnegative] using hbare
      exact Nat.le_trans (fits_unary hnegative) (Operator.unary_rank_le_operandCategory hside)
    | false =>
      exact Nat.le_trans (fits_factorial hoperator hnegative)
        (operator.factorial_rank_le_operandCategory side)

/-- What stands in front of a bang sign is grouped if it has to be. -/
theorem fits_beforeFactorial (operand : Operand) :
    (operand.surface.groupIf operand.isGroupedBeforeFactorial).Fits .factorial := by
  apply ParseTree.fits_groupIf
  intro hbare
  obtain ⟨hoperator, hpositive⟩ := Bool.or_eq_false_iff.1 hbare
  have hnone := Option.isNone_iff_eq_none.1 (Option.isSome_eq_false_iff.1 hoperator)
  exact fits_factorial hnone hpositive

end Operand

mutual

/-- The text of an operand has parentheses wherever the grammar needs them. -/
theorem Operand.wellGrouped_surface : ∀ operand : Operand, operand.surface.WellGrouped
  | .literal value => ParseTree.wellGrouped_ofFloat value
  | .reference _ => trivial
  | .subexpression expr => expr.wellGrouped_surface

/-- A rendered expression has a group wherever one is needed. -/
theorem Expr.wellGrouped_surface : ∀ expr : Expr, expr.surface.WellGrouped
  | .number value => ParseTree.wellGrouped_ofFloat value
  | .identifier _ => trivial
  | .call _ argument => argument.wellGrouped_surface
  | .factorial argument =>
    ⟨argument.fits_beforeFactorial, ParseTree.wellGrouped_groupIf argument.wellGrouped_surface⟩
  | .root radicand index => by
    rw [Expr.surface]
    split
    · exact radicand.wellGrouped_surface
    · exact ⟨index.wellGrouped_surface, radicand.wellGrouped_surface⟩
  | .fraction numerator denominator =>
    ⟨numerator.wellGrouped_surface, denominator.wellGrouped_surface⟩
  | .binary left operator right =>
    ⟨⟨operator, rfl, left.fits_beside operator .left, right.fits_beside operator .right⟩,
      ParseTree.wellGrouped_groupIf left.wellGrouped_surface,
      ParseTree.wellGrouped_groupIf right.wellGrouped_surface⟩

end

mutual

def Operand.literals : Operand → List Float
  | .literal value => [value]
  | .reference _ => []
  | .subexpression expr => expr.literals

def Expr.literals : Expr → List Float
  | .number value => [value]
  | .identifier _ => []
  | .call _ argument => argument.literals
  | .factorial argument => argument.literals
  | .root radicand index => radicand.literals ++ index.literals
  | .fraction numerator denominator => numerator.literals ++ denominator.literals
  | .binary left _ right => left.literals ++ right.literals

end

theorem Function.isName_keyword (function : Function) : Token.IsName function.keyword := by
  cases function <;> exact ⟨Token.isWord_of_all rfl rfl rfl, by decide⟩

theorem ParseTree.legible_ofFloat {x : Float} (hfinite : x.isFinite) : (ofFloat x).Legible := by
  unfold ofFloat
  split <;> exact (Decimal.showMagnitude_spec hfinite).1

mutual

/-- An operand with finite literals and names for variables is written in tokens. -/
theorem Operand.legible_surface : ∀ operand : Operand, (∀ x ∈ operand.literals, x.isFinite) →
    (∀ name ∈ operand.variables, Token.IsName name) → operand.surface.Legible
  | .literal value, hfinite, _ => ParseTree.legible_ofFloat (hfinite value List.mem_cons_self)
  | .reference name, _, hnames => hnames name List.mem_cons_self
  | .subexpression expr, hfinite, hnames => expr.legible_surface hfinite hnames

/-- An expression of finite literals and proper names is rendered legibly. -/
theorem Expr.legible_surface : ∀ expr : Expr, (∀ x ∈ expr.literals, x.isFinite) →
    (∀ name ∈ expr.variables, Token.IsName name) → expr.surface.Legible
  | .number value, hfinite, _ => ParseTree.legible_ofFloat (hfinite value List.mem_cons_self)
  | .identifier name, _, hnames => hnames name List.mem_cons_self
  | .call function argument, hfinite, hnames =>
    ⟨function.isName_keyword, argument.legible_surface hfinite hnames⟩
  | .factorial argument, hfinite, hnames =>
    ParseTree.legible_groupIf (argument.legible_surface hfinite hnames)
  | .root radicand index, hfinite, hnames => by
    obtain ⟨hradicand, hindex⟩ := List.forall_mem_append.1 hfinite
    obtain ⟨hradicandNames, hindexNames⟩ := List.forall_mem_append.1 hnames
    rw [Expr.surface]
    split
    · exact radicand.legible_surface hradicand hradicandNames
    · exact ⟨index.legible_surface hindex hindexNames,
        radicand.legible_surface hradicand hradicandNames⟩
  | .fraction numerator denominator, hfinite, hnames => by
    obtain ⟨hn, hd⟩ := List.forall_mem_append.1 hfinite
    obtain ⟨hnNames, hdNames⟩ := List.forall_mem_append.1 hnames
    exact ⟨numerator.legible_surface hn hnNames, denominator.legible_surface hd hdNames⟩
  | .binary left operator right, hfinite, hnames => by
    obtain ⟨hl, hr⟩ := List.forall_mem_append.1 hfinite
    obtain ⟨hlNames, hrNames⟩ := List.forall_mem_append.1 hnames
    exact ⟨ParseTree.legible_groupIf (left.legible_surface hl hlNames), ⟨operator, rfl⟩,
      ParseTree.legible_groupIf (right.legible_surface hr hrNames)⟩

end

end Formula
