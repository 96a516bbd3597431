import Mathlib.Order.Lattice
import Formula.Proofs.RoundTrip

/-!
# How deep recursions on expressions go

Evaluating, listing the variables and rendering call themselves for the subexpressions of an
expression, so that as many calls are open at a time as there are expressions on a path down.
Building makes no path longer than it was in the parse tree, a minus that becomes a product
included. The limit on parse trees is therefore a limit on the calls.
-/

namespace Formula

mutual

def Operand.height : Operand → Nat
  | .literal _ => 0
  | .reference _ => 0
  | .subexpression expr => expr.height

def Expr.height : Expr → Nat
  | .number _ => 1
  | .identifier _ => 1
  | .call _ argument => argument.height + 1
  | .factorial argument => argument.height + 1
  | .root radicand index => max radicand.height index.height + 1
  | .fraction numerator denominator => max numerator.height denominator.height + 1
  | .binary left _ right => max left.height right.height + 1

end

def Operand.subexpressions : Operand → List Expr
  | .subexpression expr => [expr]
  | _ => []

def Expr.subexpressions : Expr → List Expr
  | .number _ => []
  | .identifier _ => []
  | .call _ argument => argument.subexpressions
  | .factorial argument => argument.subexpressions
  | .root radicand index => radicand.subexpressions ++ index.subexpressions
  | .fraction numerator denominator => numerator.subexpressions ++ denominator.subexpressions
  | .binary left _ right => left.subexpressions ++ right.subexpressions

theorem Operand.height_le_iff {operand : Operand} {levels : Nat} :
    operand.height ≤ levels ↔ ∀ inner ∈ operand.subexpressions, inner.height ≤ levels := by
  cases operand <;> simp [height, subexpressions]

namespace Expr

theorem height_pos (expr : Expr) : 0 < expr.height := by
  cases expr <;> simp [height]

/-- A tree has one level more than its highest subexpression. -/
theorem height_le_succ_iff {expr : Expr} {levels : Nat} :
    expr.height ≤ levels + 1 ↔ ∀ inner ∈ expr.subexpressions, inner.height ≤ levels := by
  cases expr <;>
    simp [height, subexpressions, Operand.height_le_iff, or_imp, forall_and]

/-- The product that a minus becomes is one level above the operand, and so was the minus. -/
theorem height_negate_le (expr : Expr) : expr.negate.height ≤ expr.height + 1 := by
  have hproduct (operand : Expr) :
      (binary (.subexpression (number (-1))) .multiply (.subexpression operand)).height ≤
        operand.height + 1 := by
    have hpos := operand.height_pos
    simp only [height, Operand.height]
    omega
  cases expr with
  | number value => simp [negate, height]
  | _ => exact hproduct _

end Expr

/-- Building deepens no tree. -/
theorem Built.height_le {tree : ParseTree} {expr : Expr} (h : Built tree expr) :
    expr.height ≤ tree.height := by
  induction h with
  | number | identifier => exact Nat.le_refl 1
  | fraction _ _ ihn ihd | root _ _ ihn ihd | binary _ _ _ ihn ihd =>
    simp only [Expr.height, Operand.height, ParseTree.height]
    omega
  | call _ _ ih | squareRoot _ ih | factorial _ ih =>
    simp only [Expr.height, Operand.height, ParseTree.height]
    omega
  | negation _ ih => exact (Expr.height_negate_le _).trans (Nat.succ_le_succ ih)
  | group _ ih => exact Nat.le_succ_of_le ih

theorem Expr.height_le_of_compile {source : String} {expr : Expr}
    (h : (compile source).result = .ok expr) : expr.height ≤ ParseTree.maxHeight := by
  obtain ⟨lexemes, -, tree, hparse, hbuilt⟩ := compile_eq_ok_iff.1 h
  exact hbuilt.height_le.trans (ParseTree.derives_of_ofLexemesWithin (by decide) hparse).2

/-- A recursion on expressions: what a call comes to, given what the calls for the subexpressions
come to, and what it is to run out of levels. -/
structure Recursion (α : Type) where
  step : (Expr → α) → Expr → α
  exhausted : α

namespace Recursion

variable {α : Type} {recursion : Recursion α} {expr : Expr} {levels : Nat}

def run (recursion : Recursion α) : Nat → Expr → α
  | 0, _ => recursion.exhausted
  | levels + 1, expr => recursion.step (recursion.run levels) expr

/-- A call comes to the right result if the calls for the subexpressions do. -/
def Computes (recursion : Recursion α) (result : Expr → α) : Prop :=
  ∀ call expr, (∀ inner ∈ expr.subexpressions, call inner = result inner) →
    recursion.step call expr = result expr

/-- A call comes to something done only if the calls for all subexpressions do. -/
structure Requires (recursion : Recursion α) (done : α → Prop) : Prop where
  not_exhausted : ¬ done recursion.exhausted
  of_step {call : Expr → α} {expr : Expr} (h : done (recursion.step call expr)) :
    ∀ inner ∈ expr.subexpressions, done (call inner)

/-- As many levels as the expression is high are enough. -/
theorem Computes.run_eq {result : Expr → α} (h : recursion.Computes result)
    (hheight : expr.height ≤ levels) : recursion.run levels expr = result expr := by
  induction levels generalizing expr with
  | zero => exact absurd hheight (Nat.not_le_of_gt expr.height_pos)
  | succ levels ih =>
    have hinner := Expr.height_le_succ_iff.1 hheight
    exact h _ expr fun inner hmem ↦ ih (hinner inner hmem)

/-- Fewer levels than the expression is high are not enough. -/
theorem Requires.height_le {done : α → Prop} (h : recursion.Requires done)
    (hdone : done (recursion.run levels expr)) : expr.height ≤ levels := by
  induction levels generalizing expr with
  | zero => exact absurd hdone h.not_exhausted
  | succ levels ih =>
    exact Expr.height_le_succ_iff.2 fun inner hmem ↦ ih (h.of_step hdone inner hmem)

end Recursion

/-! ## The three recursions -/

/-- What an operand comes to, with a call for a subexpression. -/
def Operand.through {α : Type} (literal : Float → α) (reference : String → α) (call : Expr → α) :
    Operand → α
  | .literal value => literal value
  | .reference name => reference name
  | .subexpression expr => call expr

/-- What is made of an operand depends only on what is made of its subexpressions. -/
theorem Operand.through_congr {α : Type} {literal : Float → α} {reference : String → α}
    {call other : Expr → α} {operand : Operand}
    (h : ∀ inner ∈ operand.subexpressions, call inner = other inner) :
    operand.through literal reference call = operand.through literal reference other := by
  cases operand with
  | subexpression expr => exact h expr (List.mem_singleton.2 rfl)
  | _ => rfl

namespace Logged

variable {ε ε' α β : Type}

@[simp] theorem mapError_pure (f : ε → ε') (value : α) :
    (pure value : Logged ε α).mapError f = pure value := rfl

theorem mapError_bind (f : ε → ε') (first : Logged ε α) (next : α → Logged ε β) :
    (first >>= next).mapError f = first.mapError f >>= fun value ↦ (next value).mapError f := by
  obtain ⟨events, result⟩ := first
  cases result <;> rfl

/-- Only a computation whose first part has a value has one. -/
theorem ok_of_bind_ok {first : Logged ε α} {next : α → Logged ε β} {value : β}
    (h : (first >>= next).result = .ok value) :
    ∃ middle, first.result = .ok middle ∧ (next middle).result = .ok value := by
  rw [result_bind] at h
  exact bind_eq_ok_iff.1 h

end Logged

namespace Recursion

/-- Evaluating. To run out of levels is an error of its own, told apart by being absent. -/
def evaluation (context : Context) : Recursion (Logged (Option EvaluationError) Float) where
  step call expr :=
    let resolve (name : String) := (Logged.lift (context.resolve name)).mapError some
    let operand := Operand.through pure resolve call
    let noted (value : Float) := (expr.noted value).mapError some
    match expr with
    | .number value => noted value
    | .identifier name => do noted (← resolve name)
    | .call function argument => do
      let x ← operand argument
      let value ← (function.call context.angleUnit x).mapError some
      noted value
    | .factorial argument => do
      let x ← operand argument
      noted (Binary64.factorial x)
    | .root radicand index => do
      let x ← operand radicand
      let degree ← operand index
      noted (nthRoot x degree)
    | .fraction numerator denominator => do
      let x ← operand numerator
      let y ← operand denominator
      noted (Operator.divide.apply x y)
    | .binary left operator right => do
      let x ← operand left
      let y ← operand right
      noted (operator.apply x y)
  exhausted := Logged.lift (.error none)

def listing : Recursion (Option (List String)) where
  step call expr :=
    let operand := Operand.through (fun _ ↦ some []) (fun name ↦ some [name]) call
    match expr with
    | .number _ => some []
    | .identifier name => some [name]
    | .call _ argument => operand argument
    | .factorial argument => operand argument
    | .root radicand index => return (← operand radicand) ++ (← operand index)
    | .fraction numerator denominator => return (← operand numerator) ++ (← operand denominator)
    | .binary left _ right => return (← operand left) ++ (← operand right)
  exhausted := none

/-- Rendering in one go, without a parse tree in between. -/
def rendering : Recursion (Option String) where
  step call expr :=
    let operand := Operand.through (fun value ↦ some (Decimal.showFloat value)) some call
    let parenthesized (needed : Bool) (text : String) := if needed then "(" ++ text ++ ")" else text
    match expr with
    | .number value => some (Decimal.showFloat value)
    | .identifier name => some name
    | .call function argument => return function.keyword ++ "(" ++ (← operand argument) ++ ")"
    | .factorial argument =>
      return parenthesized argument.isGroupedBeforeFactorial (← operand argument) ++ "!"
    | .root radicand index => do
      if index.isDefaultIndex then
        return "sqrt(" ++ (← operand radicand) ++ ")"
      else
        return "root[" ++ (← operand index) ++ "](" ++ (← operand radicand) ++ ")"
    | .fraction numerator denominator =>
      return "frac(" ++ (← operand numerator) ++ ", " ++ (← operand denominator) ++ ")"
    | .binary left operator right =>
      return parenthesized (left.isGroupedBeside operator .left) (← operand left) ++ " " ++
        (Token.ofOperator operator).text ++ " " ++
        parenthesized (right.isGroupedBeside operator .right) (← operand right)
  exhausted := none

theorem through_evaluate (context : Context) (operand : Operand) :
    operand.through pure (fun name ↦ (Logged.lift (context.resolve name)).mapError some)
      (fun expr ↦ (expr.evaluate context).mapError some) =
        (operand.evaluate context).mapError some := by
  cases operand <;> rfl

/-- With enough levels the metered evaluation evaluates. -/
theorem computes_evaluation (context : Context) :
    (evaluation context).Computes fun expr ↦ (expr.evaluate context).mapError some := by
  intro call expr h
  have hoperand {operand : Operand}
      (hsub : ∀ inner ∈ operand.subexpressions, inner ∈ expr.subexpressions) :
      operand.through pure (fun name ↦ (Logged.lift (context.resolve name)).mapError some) call =
        (operand.evaluate context).mapError some := by
    rw [← through_evaluate]
    exact Operand.through_congr fun inner hmem ↦ h inner (hsub inner hmem)
  cases expr with
  | number value => rfl
  | identifier name =>
    simp only [evaluation, Expr.evaluate, Logged.mapError_bind]
  | call function argument =>
    simp only [evaluation, Expr.evaluate, Logged.mapError_bind]
    rw [hoperand fun _ ↦ id]
  | factorial argument =>
    simp only [evaluation, Expr.evaluate, Logged.mapError_bind]
    rw [hoperand fun _ ↦ id]
  | root first second =>
    simp only [evaluation, Expr.evaluate, Logged.mapError_bind]
    rw [hoperand fun _ ↦ List.mem_append_left _, hoperand fun _ ↦ List.mem_append_right _]
  | fraction first second =>
    simp only [evaluation, Expr.evaluate, Logged.mapError_bind]
    rw [hoperand fun _ ↦ List.mem_append_left _, hoperand fun _ ↦ List.mem_append_right _]
  | binary first operator second =>
    simp only [evaluation, Expr.evaluate, Logged.mapError_bind]
    rw [hoperand fun _ ↦ List.mem_append_left _, hoperand fun _ ↦ List.mem_append_right _]

theorem through_variables (operand : Operand) :
    operand.through (fun _ ↦ some []) (fun name ↦ some [name]) (fun expr ↦ some expr.variables) =
      some operand.variables := by
  cases operand <;> rfl

/-- With enough levels the metered listing lists the variables. -/
theorem computes_listing : listing.Computes fun expr ↦ some expr.variables := by
  intro call expr h
  have hoperand {operand : Operand}
      (hsub : ∀ inner ∈ operand.subexpressions, inner ∈ expr.subexpressions) :
      operand.through (fun _ ↦ some []) (fun name ↦ some [name]) call = some operand.variables := by
    rw [← through_variables]
    exact Operand.through_congr fun inner hmem ↦ h inner (hsub inner hmem)
  cases expr with
  | number value => rfl
  | identifier name => rfl
  | call function argument => exact hoperand fun _ ↦ id
  | factorial argument => exact hoperand fun _ ↦ id
  | root first second | fraction first second | binary first operator second =>
    simp only [listing]
    rw [hoperand fun _ ↦ List.mem_append_left _, hoperand fun _ ↦ List.mem_append_right _]
    rfl

theorem through_text (operand : Operand) :
    operand.through (fun value ↦ some (Decimal.showFloat value)) some
      (fun expr ↦ some expr.render) = some operand.surface.text := by
  cases operand with
  | literal value => exact congrArg some (ParseTree.text_ofFloat value).symm
  | _ => rfl

theorem text_groupIf (needed : Bool) (tree : ParseTree) :
    (tree.groupIf needed).text = if needed then "(" ++ tree.text ++ ")" else tree.text := by
  cases needed <;> rfl

/-- With enough levels the metered rendering renders. -/
theorem computes_rendering : rendering.Computes fun expr ↦ some expr.render := by
  intro call expr h
  have hoperand {operand : Operand}
      (hsub : ∀ inner ∈ operand.subexpressions, inner ∈ expr.subexpressions) :
      operand.through (fun value ↦ some (Decimal.showFloat value)) some call =
        some operand.surface.text := by
    rw [← through_text]
    exact Operand.through_congr fun inner hmem ↦ h inner (hsub inner hmem)
  cases expr with
  | number value => exact congrArg some (ParseTree.text_ofFloat value).symm
  | identifier name => rfl
  | call function argument =>
    simp only [rendering]
    rw [hoperand fun _ ↦ id]
    rfl
  | factorial argument =>
    simp only [rendering, Expr.render, Expr.surface, ParseTree.text, text_groupIf]
    rw [hoperand fun _ ↦ id]
    rfl
  | root radicand index =>
    simp only [rendering, Expr.render, Expr.surface]
    rw [hoperand fun _ ↦ List.mem_append_left _, hoperand fun _ ↦ List.mem_append_right _]
    split <;> rfl
  | fraction numerator denominator =>
    simp only [rendering]
    rw [hoperand fun _ ↦ List.mem_append_left _, hoperand fun _ ↦ List.mem_append_right _]
    rfl
  | binary left operator right =>
    simp only [rendering, Expr.render, Expr.surface, ParseTree.text, text_groupIf]
    rw [hoperand fun _ ↦ List.mem_append_left _, hoperand fun _ ↦ List.mem_append_right _]
    rfl

/-- What the result of an operand shows is shown of each of its subexpressions. -/
theorem property_of_through {β : Type} (property : β → Prop) {literal : Float → β}
    {reference : String → β} {call : Expr → β} {operand : Operand}
    (h : property (operand.through literal reference call)) :
    ∀ inner ∈ operand.subexpressions, property (call inner) := by
  cases operand with
  | subexpression expr => exact List.forall_mem_singleton.2 h
  | _ => exact List.forall_mem_nil _

theorem ok_of_through {ε : Type} {literal : Float → Logged ε Float}
    {reference : String → Logged ε Float} {call : Expr → Logged ε Float} {operand : Operand}
    {value : Float} (h : (operand.through literal reference call).result = .ok value) :
    ∀ inner ∈ operand.subexpressions, ∃ value, (call inner).result = .ok value :=
  property_of_through (∃ value, Logged.result · = .ok value) ⟨value, h⟩

theorem some_of_through {α : Type} {literal : Float → Option α} {reference : String → Option α}
    {call : Expr → Option α} {operand : Operand} {value : α}
    (h : operand.through literal reference call = some value) :
    ∀ inner ∈ operand.subexpressions, ∃ value, call inner = some value :=
  property_of_through (∃ value, · = some value) ⟨value, h⟩

theorem requires_evaluation (context : Context) :
    (evaluation context).Requires fun computation ↦ ∃ value, computation.result = .ok value where
  not_exhausted := by simp [evaluation]
  of_step := by
    rintro call expr ⟨value, h⟩
    cases expr with
    | number | identifier => simp [Expr.subexpressions]
    | call function argument =>
      obtain ⟨x, hx, -⟩ := Logged.ok_of_bind_ok h
      exact ok_of_through hx
    | factorial argument =>
      obtain ⟨x, hx, -⟩ := Logged.ok_of_bind_ok h
      exact ok_of_through hx
    | root first second | fraction first second | binary first operator second =>
      obtain ⟨x, hx, hrest⟩ := Logged.ok_of_bind_ok h
      obtain ⟨y, hy, -⟩ := Logged.ok_of_bind_ok hrest
      exact List.forall_mem_append.2 ⟨ok_of_through hx, ok_of_through hy⟩

theorem requires_listing : listing.Requires fun result ↦ ∃ names, result = some names where
  not_exhausted := by simp [listing]
  of_step := by
    rintro call expr ⟨names, h⟩
    cases expr with
    | number | identifier => simp [Expr.subexpressions]
    | call function argument => exact some_of_through h
    | factorial argument => exact some_of_through h
    | root first second | fraction first second | binary first operator second =>
      obtain ⟨x, hx, hrest⟩ := Option.bind_eq_some_iff.1 h
      obtain ⟨y, hy, -⟩ := Option.bind_eq_some_iff.1 hrest
      exact List.forall_mem_append.2 ⟨some_of_through hx, some_of_through hy⟩

theorem requires_rendering : rendering.Requires fun result ↦ ∃ text, result = some text where
  not_exhausted := by simp [rendering]
  of_step := by
    rintro call expr ⟨text, h⟩
    cases expr with
    | number | identifier => simp [Expr.subexpressions]
    | call function argument =>
      obtain ⟨x, hx, -⟩ := Option.bind_eq_some_iff.1 h
      exact some_of_through hx
    | factorial argument =>
      obtain ⟨x, hx, -⟩ := Option.bind_eq_some_iff.1 h
      exact some_of_through hx
    | root radicand index =>
      simp only [rendering] at h
      split at h
      · next hindex =>
        obtain ⟨x, hx, -⟩ := Option.bind_eq_some_iff.1 h
        rw [Operand.isDefaultIndex_iff.1 hindex]
        exact List.forall_mem_append.2 ⟨some_of_through hx, by simp [Operand.subexpressions]⟩
      · obtain ⟨x, hx, hrest⟩ := Option.bind_eq_some_iff.1 h
        obtain ⟨y, hy, -⟩ := Option.bind_eq_some_iff.1 hrest
        exact List.forall_mem_append.2 ⟨some_of_through hy, some_of_through hx⟩
    | fraction first second | binary first operator second =>
      obtain ⟨x, hx, hrest⟩ := Option.bind_eq_some_iff.1 h
      obtain ⟨y, hy, -⟩ := Option.bind_eq_some_iff.1 hrest
      exact List.forall_mem_append.2 ⟨some_of_through hx, some_of_through hy⟩

/-- The levels that an expression takes are its height: so many are enough, and any fewer are not,
unless an evaluation ends before it gets that deep because a variable has no value. -/
theorem levels_taken (expr : Expr) (levels : Nat) :
    (listing.run levels expr = some expr.variables ↔ expr.height ≤ levels) ∧
    (rendering.run levels expr = some expr.render ↔ expr.height ≤ levels) ∧
    ∀ context value, expr.value context = .ok value →
      (((evaluation context).run levels expr).result = .ok value ↔ expr.height ≤ levels) := by
  refine ⟨⟨fun h ↦ requires_listing.height_le ⟨_, h⟩, computes_listing.run_eq⟩,
    ⟨fun h ↦ requires_rendering.height_le ⟨_, h⟩, computes_rendering.run_eq⟩,
    fun context value hvalue ↦ ⟨fun h ↦ (requires_evaluation context).height_le ⟨_, h⟩, ?_⟩⟩
  intro hheight
  rw [(computes_evaluation context).run_eq hheight]
  exact mapError_eq_ok_iff.2 hvalue

end Recursion

/-- Building never deepens a tree, and so what compiles is never too deep. An expression is at most
as high as the parse tree that it is built of, whatever that tree is. Evaluating an expression that
was compiled, listing its variables and rendering it come to what they come to without a meter, if
no more calls may be open at a time than a parse tree may be high. -/
theorem Expr.recursions_of_compile_bounded :
    (∀ tree expr, Expr.ofParseTree? tree = .ok expr → expr.height ≤ tree.height) ∧
    ∀ source expr, (compile source).result = .ok expr →
      expr.height ≤ ParseTree.maxHeight ∧
      (∀ context, (Recursion.evaluation context).run ParseTree.maxHeight expr =
        (expr.evaluate context).mapError some) ∧
      Recursion.listing.run ParseTree.maxHeight expr = some expr.variables ∧
      Recursion.rendering.run ParseTree.maxHeight expr = some expr.render := by
  refine ⟨fun tree expr hbuild ↦ (Built.iff.1 hbuild).height_le, fun source expr hcompile ↦ ?_⟩
  have hheight := Expr.height_le_of_compile hcompile
  exact ⟨hheight, fun context ↦ (Recursion.computes_evaluation context).run_eq hheight,
    Recursion.computes_listing.run_eq hheight, Recursion.computes_rendering.run_eq hheight⟩

/-- A minus before a name: the parse tree and the product that it becomes are both two levels
high. -/
theorem Expr.recursions_of_compile_bounded_negation :
    let product : Expr := .binary (.subexpression (.number (-1))) .multiply
      (.subexpression (.identifier "x"))
    Expr.ofParseTree? (.negation (.identifier "x" 1) 0) = .ok product ∧ product.height ≤ 2 ∧
      (compile "-x").result = .ok product ∧
      Recursion.rendering.run ParseTree.maxHeight product = some product.render := by
  intro product
  have hbuild : Expr.ofParseTree? (.negation (.identifier "x" 1) 0) = .ok product := rfl
  have hparse : ParseTree.parse "-x" = .ok (.negation (.identifier "x" 1) 0) := by decide +kernel
  have hcompile : (compile "-x").result = .ok product := compile_of_parse_ok hparse hbuild
  exact ⟨hbuild, recursions_of_compile_bounded.1 _ _ hbuild, hcompile,
    (recursions_of_compile_bounded.2 _ _ hcompile).2.2.2⟩

end Formula
