import Formula.Expr.Surface
import Formula.Expr.Variables
import Formula.Context

/-!
# Reports

The outcome of an evaluation as it is printed: the expression, the values that its variables had
and the result.
-/

namespace Formula

structure Report where
  expression : Expr
  bindings : List (String × Float)
  result : Float
  showsBindings : Bool

namespace Report

/-- The report on an expression that was evaluated in a context; a name without a value there is
a constant and is left out. -/
def ofContext (expression : Expr) (context : Context) (result : Float) (showsBindings : Bool) :
    Report where
  expression
  bindings := expression.uniqueVariables.filterMap fun name ↦
    (context.get? name).map fun value ↦ (name, value)
  result
  showsBindings

/-- One line, or a block that lists the bindings if there are any to show. -/
def text (report : Report) : String :=
  let expression := report.expression.render
  let result := Decimal.showFloat report.result
  if report.bindings = [] ∨ !report.showsBindings then "\t" ++ expression ++ " = " ++ result
  else
    let lines := report.bindings.map fun binding ↦
      "\t" ++ binding.1 ++ " = " ++ Decimal.showFloat binding.2 ++ "\n"
    "\t" ++ expression ++ "\nwhere\n" ++ String.join lines ++ " = " ++ result

end Report

end Formula
