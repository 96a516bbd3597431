import Formula.Proofs.Bindings

/-!
# What a result does not depend on

A name of a constant means the constant whatever the context has for it, and eight of the functions
are all that the unit of angles concerns. Contexts that differ in nothing else but this, or in names
that an expression does not mention, cannot be told apart by evaluating it.
-/

namespace Formula

namespace Context

/-- A constant is looked up before the values of the context. -/
theorem resolve_of_isConstant {name : String} (h : isConstant name = true)
    (context other : Context) : context.resolve name = other.resolve name := by
  obtain ⟨value, hvalue⟩ := Option.isSome_iff_exists.1 h
  rw [resolve, resolve, hvalue, Option.some_or, Option.some_or]

/-- What a context binds to the name of a constant is never looked at. -/
theorem resolve_congr_of_not_constant {context other : Context} {name : String}
    (h : isConstant name = false → context.get? name = other.get? name) :
    context.resolve name = other.resolve name := by
  cases hconstant : isConstant name with
  | true => exact resolve_of_isConstant hconstant context other
  | false => exact resolve_congr (h hconstant)

end Context

/-- An expression has the same value in contexts with the same unit that have the same values for
the names that need one. -/
theorem Expr.value_congr_of_get? {context other : Context} {expr : Expr}
    (hunit : context.angleUnit = other.angleUnit)
    (h : ∀ name ∈ expr.occurrences, context.get? name = other.get? name) :
    expr.value context = expr.value other := by
  refine expr.value_congr hunit fun name hname ↦ Context.resolve_congr_of_not_constant ?_
  intro hconstant
  exact h name (List.mem_filter.2 ⟨hname, by rw [hconstant]; rfl⟩)

/-- The functions that read an angle or give one. -/
def Function.angular : List Function :=
  [.sin, .cos, .tan, .csc, .cot, .arcsin, .arccos, .arctan]

theorem Function.call_of_not_angular {function : Function} (h : function ∉ angular)
    (unit other : AngleUnit) : call unit function = call other function := by
  cases function with
  | log => rfl
  | sec => rfl
  | hyp => rfl
  | _ => exact absurd (by decide) h

/-- What an evaluation comes to, be it a value or an error, is settled by what the context has for
the variables that are not constants and, if the expression has to do with angles, by their unit.
Values for other names and for constants make no difference. -/
theorem Expr.evaluate_depends_on_mentioned (expr : Expr) :
    (∀ context other : Context,
      (∀ name ∈ expr.variables, isConstant name = false →
        context.get? name = other.get? name) →
      (context.angleUnit = other.angleUnit ∨
        ∀ function ∈ Function.angular, function ∉ expr.functions) →
      expr.evaluate context = expr.evaluate other ∧ expr.value context = expr.value other) ∧
    ∀ (context : Context) (pairs : List (String × Float)),
      (∀ pair ∈ pairs, isConstant pair.1 = true ∨ pair.1 ∉ expr.variables) →
      expr.evaluate (context.insertAll pairs) = expr.evaluate context ∧
        expr.value (context.insertAll pairs) = expr.value context := by
  have hagree (context other : Context)
      (hnames : ∀ name ∈ expr.variables, isConstant name = false →
        context.get? name = other.get? name)
      (hunit : context.angleUnit = other.angleUnit ∨
        ∀ function ∈ Function.angular, function ∉ expr.functions) :
      expr.evaluate context = expr.evaluate other ∧ expr.value context = expr.value other := by
    have hcalls : ∀ function ∈ expr.functions,
        Function.call context.angleUnit function = Function.call other.angleUnit function := by
      intro function hfunction
      rcases hunit with hunit | hunit
      · rw [hunit]
      · exact Function.call_of_not_angular (fun hangular ↦ hunit function hangular hfunction) _ _
    have hevaluate : expr.evaluate context = expr.evaluate other :=
      expr.evaluate_congr
        (fun name hname ↦ Context.resolve_congr_of_not_constant (hnames name hname)) hcalls
    exact ⟨hevaluate, congrArg Logged.result hevaluate⟩
  refine ⟨hagree, fun context pairs hpairs ↦ ?_⟩
  apply hagree
  · intro name hname hconstant
    refine Context.get?_insertAll_of_ne (fun pair hpair heq ↦ ?_) context
    rcases hpairs pair hpair with hpair | hpair
    · rw [heq, hconstant] at hpair
      exact absurd hpair (by decide)
    · exact hpair (heq ▸ hname)
  · exact .inl (Context.angleUnit_insertAll context pairs)

/-- A logarithm and a constant: neither the unit nor a value for the constant or for a name that
does not occur makes a difference. -/
theorem Expr.evaluate_depends_on_mentioned_log :
    let expr : Expr := .binary (.subexpression (.call .log (.reference "x"))) .add (.reference "pi")
    expr.evaluate ((Context.ofList [("pi", 5), ("x", 1)]).withAngleUnit .degrees) =
        expr.evaluate (Context.ofList [("x", 1), ("y", 7)]) ∧
      expr.value ((Context.ofList [("x", 1)]).insertAll [("y", 7), ("pi", 5)]) =
        expr.value (Context.ofList [("x", 1)]) := by
  intro expr
  obtain ⟨hcontexts, hpairs⟩ := expr.evaluate_depends_on_mentioned
  refine ⟨(hcontexts _ _ ?_ (.inr ?_)).1, (hpairs _ _ ?_).2⟩
  · intro name hname hconstant
    obtain rfl | rfl : name = "x" ∨ name = "pi" := by
      simpa [expr, Expr.variables, Operand.variables] using hname
    · rw [Context.get?_withAngleUnit, Context.ofList_eq_insertAll, Context.ofList_eq_insertAll,
        Context.get?_insertAll, Context.get?_insertAll]
      rfl
    · exact absurd hconstant (by decide)
  · decide
  · decide

end Formula
