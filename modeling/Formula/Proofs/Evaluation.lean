import Formula.Expr.Evaluate
import Formula.Expr.Variables

/-!
# Which variables an evaluation needs

An evaluation fails exactly at the first listed name that is neither a constant nor bound. Both the
evaluator and the list of variables go through the operands of every construct; that they visit
them in the same order is one equation between two ways to find the failure.
-/

namespace Formula

def failure? {ε α : Type} : Except ε α → Option ε
  | .ok _ => none
  | .error error => some error

theorem failure?_eq_none_iff {ε α : Type} {result : Except ε α} :
    failure? result = none ↔ ∃ value, result = .ok value := by
  cases result <;> simp [failure?]

theorem failure?_eq_some_iff {ε α : Type} {result : Except ε α} {error : ε} :
    failure? result = some error ↔ result = .error error := by
  cases result <;> simp [failure?]

@[simp] theorem failure?_map {ε α β : Type} (f : α → β) (result : Except ε α) :
    failure? (f <$> result) = failure? result := by
  cases result <;> rfl

/-- Of two computations in a row the first failure counts. -/
@[simp] theorem failure?_map₂ {ε α β γ : Type} (f : α → β → γ) (first : Except ε α)
    (second : Except ε β) :
    failure? (first >>= fun value ↦ f value <$> second) =
      (failure? first).or (failure? second) := by
  cases first <;> cases second <;> rfl

namespace Context

/-- Whether the name has no value at all: it is no constant, and the context has none for it. -/
def lacks (context : Context) (name : String) : Bool :=
  !isConstant name && !context.contains name

/-- Looking up a name fails exactly if the context lacks it, with that name. -/
theorem failure?_resolve (context : Context) (name : String) :
    failure? (context.resolve name) =
      if context.lacks name then some (.unboundVariable name) else none := by
  unfold resolve lacks isConstant
  rw [contains_eq_isSome_get?]
  cases constant? name <;> cases context.get? name <;> rfl

/-- The failure of looking up these names one after the other. -/
def missing? (context : Context) (names : List String) : Option EvaluationError :=
  (names.find? context.lacks).map .unboundVariable

@[simp] theorem missing?_nil (context : Context) : context.missing? [] = none := rfl

@[simp] theorem missing?_singleton (context : Context) (name : String) :
    context.missing? [name] = failure? (context.resolve name) := by
  rw [failure?_resolve]
  by_cases h : context.lacks name <;> simp [missing?, h]

/-- Missing names are looked for in the first list, and then in the second. -/
@[simp] theorem missing?_append (context : Context) (first second : List String) :
    context.missing? (first ++ second) = (context.missing? first).or (context.missing? second) := by
  unfold missing?
  rw [List.find?_append]
  cases first.find? context.lacks <;> rfl

end Context

mutual

/-- An operand fails by the first of its variables that is missing. -/
theorem Operand.failure?_value (context : Context) : ∀ operand : Operand,
    failure? (operand.value context) = context.missing? operand.variables
  | .literal _ => rfl
  | .reference name => by simp [Operand.variables]
  | .subexpression expr => by simpa [Operand.variables] using expr.failure?_value context

/-- What stops an evaluation is what stops looking up the variables in their order. -/
theorem Expr.failure?_value (context : Context) : ∀ expr : Expr,
    failure? (expr.value context) = context.missing? expr.variables
  | .number _ => rfl
  | .identifier name => by simp [Expr.variables]
  | .call function argument => by
    simpa [Expr.variables] using argument.failure?_value context
  | .factorial argument => by simpa [Expr.variables] using argument.failure?_value context
  | .root radicand index => by
    simp [Expr.variables, radicand.failure?_value context, index.failure?_value context]
  | .fraction numerator denominator => by
    simp [Expr.variables, numerator.failure?_value context, denominator.failure?_value context]
  | .binary left operator right => by
    simp [Expr.variables, left.failure?_value context, right.failure?_value context]

end

/-- An expression has a value exactly if each of its variables is a constant or bound, and otherwise
the error names the first one that is neither. -/
theorem Expr.value_agrees_with_variables (expr : Expr) (context : Context) :
    ((∃ value, expr.value context = .ok value) ↔
      ∀ name ∈ expr.variables, isConstant name = false → context.contains name = true) ∧
    (∀ error, expr.value context = .error error ↔
      ∃ name, expr.variables.find? (fun name ↦ !isConstant name && !context.contains name) =
        some name ∧ error = .unboundVariable name) := by
  constructor
  · rw [← failure?_eq_none_iff, expr.failure?_value context]
    simp [Context.missing?, Context.lacks]
  · intro error
    rw [← failure?_eq_some_iff, expr.failure?_value context]
    unfold Context.missing? Context.lacks
    rw [Option.map_eq_some_iff]
    simp only [eq_comm]

end Formula
