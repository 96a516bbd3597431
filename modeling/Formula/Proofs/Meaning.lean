import Formula.Expr.Build
import Formula.Expr.Evaluate
import Formula.Proofs.Binary64

/-!
# The meaning of a parse tree

A parse tree has a meaning of its own, apart from any expression it is built to: each construct is
an operation on what its parts mean. Building resolves groups, defaults and minus signs before any
value is known, and what it builds evaluates to that meaning.
-/

namespace Formula

/-- Applies an operation to two results; of two failures the first one counts. -/
def inOrder (operation : Float → Float → Float) (first second : Except EvaluationError Float) :
    Except EvaluationError Float := do
  return operation (← first) (← second)

namespace ParseTree

/-- What a tree means in a context, if every number in it can be read and every function and
operator is known. A radicand comes before its index, everything else from left to right. -/
def meaning? (context : Context) : ParseTree → Option (Except EvaluationError Float)
  | number text _ => (Decimal.readFloat? text).map .ok
  | identifier name _ =>
    match constant? name, context.get? name with
    | some value, _ => some (.ok value)
    | none, some value => some (.ok value)
    | none, none => some (.error (.unboundVariable name))
  | fraction numerator denominator _ => do
    let n ← numerator.meaning? context
    let d ← denominator.meaning? context
    return inOrder (fun n d ↦ n / d) n d
  | call keyword argument _ => do
    let function ← Function.ofKeyword? keyword
    let a ← argument.meaning? context
    return function.apply context.angleUnit <$> a
  | squareRoot radicand _ => do
    let r ← radicand.meaning? context
    return (fun r ↦ Float.pow r (1 / 2)) <$> r
  | root index radicand _ => do
    let i ← index.meaning? context
    let r ← radicand.meaning? context
    return inOrder (fun r i ↦ Float.pow r (1 / i)) r i
  | binary left operator right _ => do
    let operator ← operator.operator?
    let l ← left.meaning? context
    let r ← right.meaning? context
    return inOrder operator.apply l r
  | negation operand _ => do
    let x ← operand.meaning? context
    return (fun x ↦ -x) <$> x
  | factorial operand _ => do
    let x ← operand.meaning? context
    return Binary64.factorial <$> x
  | group inner => inner.meaning? context

end ParseTree

namespace Expr

/-- A negated expression has the negated value, whether a literal was folded or not. -/
theorem value_negate (expr : Expr) (context : Context) :
    expr.negate.value context = (fun x ↦ -x) <$> expr.value context := by
  have hproduct (operand : Expr) :
      (binary (.subexpression (number (-1))) .multiply (.subexpression operand)).value context =
        (fun x ↦ -x) <$> operand.value context := by
    rw [value_binary, Operand.value_subexpression, value_number, Operand.value_subexpression]
    cases operand.value context with
    | error error => rfl
    | ok x => exact congrArg Except.ok (Binary64.neg_one_mul x)
  cases expr with
  | number value => rfl
  | _ => exact hproduct _

def valueOf? (context : Context) (built : Except BuildError Expr) :
    Option (Except EvaluationError Float) :=
  built.toOption.map (value context)

/-- A tree means what the expression built of it evaluates to, and means nothing if none is. -/
theorem meaning?_eq_valueOf? (context : Context) (tree : ParseTree) :
    tree.meaning? context = valueOf? context (ofParseTree? tree) := by
  induction tree with
  | number text position =>
    rw [ParseTree.meaning?, ofParseTree?_number, readNumber]
    cases Decimal.readFloat? text <;> rfl
  | identifier name position =>
    rw [ParseTree.meaning?, ofParseTree?_identifier]
    change _ = some ((identifier name).value context)
    rw [value_identifier, Context.resolve]
    cases constant? name <;> cases context.get? name <;> rfl
  | fraction numerator denominator position ihn ihd =>
    rw [ParseTree.meaning?, ofParseTree?_fraction, ihn, ihd]
    cases ofParseTree? numerator with
    | error => rfl
    | ok n =>
      cases ofParseTree? denominator with
      | error => rfl
      | ok d =>
        exact congrArg some (value_fraction context (.subexpression n) (.subexpression d)).symm
  | call keyword argument position ih =>
    rw [ParseTree.meaning?, ofParseTree?_call, ih]
    cases Function.ofKeyword? keyword with
    | none => cases ofParseTree? argument <;> rfl
    | some function =>
      cases ofParseTree? argument with
      | error => rfl
      | ok a => exact congrArg some (value_call context function (.subexpression a)).symm
  | squareRoot radicand position ih =>
    rw [ParseTree.meaning?, ofParseTree?_squareRoot, ih]
    cases ofParseTree? radicand with
    | error => rfl
    | ok r =>
      refine congrArg some (Eq.trans ?_ (value_root context (.subexpression r) _).symm)
      rw [Operand.value_subexpression]
      cases r.value context <;> rfl
  | root index radicand position ihi ihr =>
    rw [ParseTree.meaning?, ofParseTree?_root, ihi, ihr]
    cases ofParseTree? index with
    | error => rfl
    | ok i =>
      cases ofParseTree? radicand with
      | error => rfl
      | ok r => exact congrArg some (value_root context (.subexpression r) (.subexpression i)).symm
  | binary left operator right position ihl ihr =>
    rw [ParseTree.meaning?, ofParseTree?_binary, ihl, ihr]
    cases operator.operator? with
    | none => cases ofParseTree? left <;> cases ofParseTree? right <;> rfl
    | some operator =>
      cases ofParseTree? left with
      | error => rfl
      | ok l =>
        cases ofParseTree? right with
        | error => rfl
        | ok r =>
          exact congrArg some
            (value_binary context (.subexpression l) (.subexpression r) operator).symm
  | negation operand position ih =>
    rw [ParseTree.meaning?, ofParseTree?_negation, ih]
    cases ofParseTree? operand with
    | error => rfl
    | ok x => exact congrArg some (value_negate x context).symm
  | factorial operand position ih =>
    rw [ParseTree.meaning?, ofParseTree?_factorial, ih]
    cases ofParseTree? operand with
    | error => rfl
    | ok x => exact congrArg some (value_factorial context (.subexpression x)).symm
  | group inner ih => exact ih

/-- Building preserves meaning: in every context, what is built of a tree has the value, or the
error, that the tree itself means; a tree that cannot be built means nothing. -/
theorem built_value_eq_meaning (tree : ParseTree) :
    (∀ expr, ofParseTree? tree = .ok expr →
      ∀ context, tree.meaning? context = some (expr.value context)) ∧
    (∀ error, ofParseTree? tree = .error error → ∀ context, tree.meaning? context = none) := by
  refine ⟨fun expr hbuilt context ↦ ?_, fun error hbuilt context ↦ ?_⟩
  · rw [meaning?_eq_valueOf?, hbuilt]
    rfl
  · rw [meaning?_eq_valueOf?, hbuilt]
    rfl

/-- A negated group, which is built to a product. -/
theorem built_value_eq_meaning_negated_group :
    ofParseTree? (.negation (.group (.identifier "x" 2)) 0) =
        .ok (.binary (.subexpression (.number (-1))) .multiply
          (.subexpression (.identifier "x"))) ∧
      ∀ context, ParseTree.meaning? context (.negation (.group (.identifier "x" 2)) 0) =
        some ((binary (.subexpression (.number (-1))) .multiply
          (.subexpression (.identifier "x"))).value context) :=
  ⟨rfl, (built_value_eq_meaning _).1 _ rfl⟩

end Expr

end Formula
