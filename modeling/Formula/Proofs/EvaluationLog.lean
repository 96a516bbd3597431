import Mathlib.Data.List.Basic
import Formula.Proofs.Relevance

/-!
# What an evaluation notes

An evaluation takes the names and the subexpressions of an expression in a fixed order and stops at
the first name without a value. Every subexpression that it is done with is noted, and nothing else
is, so what is noted can be told from the expression and from how far the evaluation gets. An
evaluation that stops has noted what one that goes on notes up to there.
-/

namespace Formula

/-- What an evaluation does in turn: it looks up a name, or it is done with a subexpression. -/
inductive Expr.Step where
  | lookup (name : String)
  | finish (expr : Expr)

mutual

def Operand.steps : Operand → List Expr.Step
  | .literal _ => []
  | .reference name => [.lookup name]
  | .subexpression expr => expr.steps

/-- What the evaluation of an expression does in turn if no name stops it. -/
def Expr.steps : Expr → List Expr.Step
  | .number value => [.finish (.number value)]
  | .identifier name => [.lookup name] ++ [.finish (.identifier name)]
  | .call function argument => argument.steps ++ [.finish (.call function argument)]
  | .factorial argument => argument.steps ++ [.finish (.factorial argument)]
  | .root radicand index => radicand.steps ++ (index.steps ++ [.finish (.root radicand index)])
  | .fraction numerator denominator =>
    numerator.steps ++ (denominator.steps ++ [.finish (.fraction numerator denominator)])
  | .binary left operator right =>
    left.steps ++ (right.steps ++ [.finish (.binary left operator right)])

end

mutual

def Operand.postorder : Operand → List Expr
  | .literal _ => []
  | .reference _ => []
  | .subexpression expr => expr.postorder

/-- The subexpressions of an expression, each after its own subexpressions, and the expression. -/
def Expr.postorder : Expr → List Expr
  | .number value => [.number value]
  | .identifier name => [.identifier name]
  | .call function argument => argument.postorder ++ [.call function argument]
  | .factorial argument => argument.postorder ++ [.factorial argument]
  | .root radicand index => radicand.postorder ++ (index.postorder ++ [.root radicand index])
  | .fraction numerator denominator =>
    numerator.postorder ++ (denominator.postorder ++ [.fraction numerator denominator])
  | .binary left operator right =>
    left.postorder ++ (right.postorder ++ [.binary left operator right])

end

namespace Expr.Step

def lookup? : Step → Option String
  | lookup name => some name
  | finish _ => none

def finished? : Step → Option Expr
  | lookup _ => none
  | finish expr => some expr

def lookups (steps : List Step) : List String :=
  steps.filterMap lookup?

def finished (steps : List Step) : List Expr :=
  steps.filterMap finished?

@[simp] theorem lookups_append (first second : List Step) :
    lookups (first ++ second) = lookups first ++ lookups second :=
  List.filterMap_append

@[simp] theorem finished_append (first second : List Step) :
    finished (first ++ second) = finished first ++ finished second :=
  List.filterMap_append

@[simp] theorem lookups_lookup (name : String) (later : List Step) :
    lookups (lookup name :: later) = name :: lookups later := rfl

@[simp] theorem lookups_finish (expr : Expr) (later : List Step) :
    lookups (finish expr :: later) = lookups later := rfl

@[simp] theorem finished_lookup (name : String) (later : List Step) :
    finished (lookup name :: later) = finished later := rfl

@[simp] theorem finished_finish (expr : Expr) (later : List Step) :
    finished (finish expr :: later) = expr :: finished later := rfl

@[simp] theorem lookups_nil : lookups [] = [] := rfl

@[simp] theorem finished_nil : finished [] = [] := rfl

theorem mem_lookups {name : String} {steps : List Step} :
    name ∈ lookups steps ↔ lookup name ∈ steps := by
  constructor
  · intro h
    obtain ⟨step, hstep, hname⟩ := List.mem_filterMap.1 h
    cases step with
    | lookup other => exact Option.some.inj hname ▸ hstep
    | finish expr => cases hname
  · intro h
    exact List.mem_filterMap.2 ⟨lookup name, h, rfl⟩

theorem mem_finished {expr : Expr} {steps : List Step} :
    expr ∈ finished steps ↔ finish expr ∈ steps := by
  constructor
  · intro h
    obtain ⟨step, hstep, hexpr⟩ := List.mem_filterMap.1 h
    cases step with
    | lookup name => cases hexpr
    | finish other => exact Option.some.inj hexpr ▸ hstep
  · intro h
    exact List.mem_filterMap.2 ⟨finish expr, h, rfl⟩

end Expr.Step

mutual

/-- The lookups of an operand's steps are its variables, in the order of listing. -/
@[simp] theorem Operand.lookups_steps : ∀ operand : Operand,
    Expr.Step.lookups operand.steps = operand.variables
  | .literal _ => rfl
  | .reference _ => rfl
  | .subexpression expr => expr.lookups_steps

/-- Names are looked up in the order in which the variables are listed. -/
@[simp] theorem Expr.lookups_steps : ∀ expr : Expr,
    Expr.Step.lookups expr.steps = expr.variables
  | .number _ => rfl
  | .identifier _ => rfl
  | .call _ argument => by simp [Expr.steps, Expr.variables, argument.lookups_steps]
  | .factorial argument => by simp [Expr.steps, Expr.variables, argument.lookups_steps]
  | .root radicand index => by
    simp [Expr.steps, Expr.variables, radicand.lookups_steps, index.lookups_steps]
  | .fraction numerator denominator => by
    simp [Expr.steps, Expr.variables, numerator.lookups_steps, denominator.lookups_steps]
  | .binary left _ right => by
    simp [Expr.steps, Expr.variables, left.lookups_steps, right.lookups_steps]

end

mutual

/-- What an operand finishes are its subexpressions in post-order. -/
@[simp] theorem Operand.finished_steps : ∀ operand : Operand,
    Expr.Step.finished operand.steps = operand.postorder
  | .literal _ => rfl
  | .reference _ => rfl
  | .subexpression expr => expr.finished_steps

@[simp] theorem Expr.finished_steps : ∀ expr : Expr,
    Expr.Step.finished expr.steps = expr.postorder
  | .number _ => rfl
  | .identifier _ => rfl
  | .call _ argument => by simp [Expr.steps, Expr.postorder, argument.finished_steps]
  | .factorial argument => by simp [Expr.steps, Expr.postorder, argument.finished_steps]
  | .root radicand index => by
    simp [Expr.steps, Expr.postorder, radicand.finished_steps, index.finished_steps]
  | .fraction numerator denominator => by
    simp [Expr.steps, Expr.postorder, numerator.finished_steps, denominator.finished_steps]
  | .binary left _ right => by
    simp [Expr.steps, Expr.postorder, left.finished_steps, right.finished_steps]

end

theorem Expr.finish_mem_steps (expr : Expr) : Expr.Step.finish expr ∈ expr.steps := by
  cases expr <;> simp [Expr.steps]

namespace Expr.Step

/-- When these steps are done with a subexpression, they have just taken all the steps of its own,
one after the other. -/
def Closed (steps : List Step) : Prop :=
  ∀ earlier expr, earlier ++ [finish expr] <+: steps → expr.steps <:+ earlier ++ [finish expr]

theorem closed_nil : Closed [] := by
  intro earlier expr h
  exact absurd (List.prefix_nil.1 h) (by simp)

theorem closed_lookup (name : String) : Closed [lookup name] := by
  intro earlier expr h
  have hmem : finish expr ∈ [lookup name] := h.subset (by simp)
  simp at hmem

theorem Closed.of_isPrefix {first steps : List Step} (h : Closed steps)
    (hstart : first <+: steps) : Closed first :=
  fun earlier expr hearlier ↦ h earlier expr (hearlier.trans hstart)

/-- Both parts are closed, and no subexpression of the second reaches back into the first. -/
theorem Closed.append {first second : List Step} (hfirst : Closed first)
    (hsecond : Closed second) : Closed (first ++ second) := by
  intro earlier expr h
  rcases List.prefix_or_prefix_of_prefix h (List.prefix_append first second) with h' | h'
  · exact hfirst earlier expr h'
  · rcases List.prefix_concat_iff.1 h' with rfl | ⟨inner, rfl⟩
    · exact hfirst earlier expr (List.prefix_refl _)
    · rw [List.append_assoc, List.prefix_append_right_inj] at h
      rw [List.append_assoc]
      exact (hsecond inner expr h).trans (List.suffix_append _ _)

/-- The last step of an expression is done with it, and all the others are its own as well. -/
theorem Closed.finish {inner : List Step} {expr : Expr} (h : Closed inner)
    (hsteps : expr.steps = inner ++ [.finish expr]) : Closed expr.steps := by
  intro earlier other hother
  rw [hsteps] at hother
  rcases List.prefix_concat_iff.1 hother with heq | hinner
  · obtain ⟨rfl, rfl⟩ : earlier = inner ∧ other = expr := by simpa using heq
    exact ⟨[], hsteps⟩
  · exact h earlier other hinner

/-- In a closed run a subexpression is finished exactly if all its steps lie there, one after
another. -/
theorem Closed.mem_finished_iff {steps : List Step} (h : Closed steps) (expr : Expr) :
    expr ∈ finished steps ↔ expr.steps <:+: steps := by
  rw [mem_finished]
  constructor
  · intro hmem
    obtain ⟨earlier, later, rfl⟩ := List.append_of_mem hmem
    have hstart : earlier ++ [.finish expr] <+: earlier ++ .finish expr :: later :=
      ⟨later, by simp⟩
    exact (h earlier expr hstart).isInfix.trans hstart.isInfix
  · intro hinfix
    exact hinfix.subset expr.finish_mem_steps

end Expr.Step

mutual

theorem Operand.closed_steps : ∀ operand : Operand, Expr.Step.Closed operand.steps
  | .literal _ => Expr.Step.closed_nil
  | .reference name => Expr.Step.closed_lookup name
  | .subexpression expr => expr.closed_steps

/-- Also the subexpressions of an expression are done with one after the other. -/
theorem Expr.closed_steps : ∀ expr : Expr, Expr.Step.Closed expr.steps
  | .number _ => Expr.Step.closed_nil.finish rfl
  | .identifier name => (Expr.Step.closed_lookup name).finish rfl
  | .call _ argument => argument.closed_steps.finish rfl
  | .factorial argument => argument.closed_steps.finish rfl
  | .root radicand index =>
    (radicand.closed_steps.append index.closed_steps).finish (List.append_assoc _ _ _).symm
  | .fraction numerator denominator =>
    (numerator.closed_steps.append denominator.closed_steps).finish (List.append_assoc _ _ _).symm
  | .binary left _ right =>
    (left.closed_steps.append right.closed_steps).finish (List.append_assoc _ _ _).symm

end

/-- Whether a name is looked up that has no value. -/
def Expr.Step.stops (context : Context) (step : Step) : Bool :=
  step.lookup?.any context.lacks

namespace Expr.Step

variable (context : Context)

theorem find?_lookups (steps : List Step) :
    (lookups steps).find? context.lacks = (steps.find? (stops context)).bind lookup? :=
  List.find?_filterMap

/-- No name is missing exactly if no step stops. -/
theorem missing?_lookups_eq_none_iff {steps : List Step} :
    context.missing? (lookups steps) = none ↔ ∀ step ∈ steps, step.stops context = false := by
  simp only [Context.missing?, Option.map_eq_none_iff, List.find?_eq_none, mem_lookups,
    Bool.not_eq_true]
  constructor
  · intro h step hstep
    cases step with
    | lookup name => exact h name hstep
    | finish expr => rfl
  · intro h name hname
    exact h (lookup name) hname

/-- The steps up to the first that looks up a name without a value. -/
def reached (steps : List Step) : List Step :=
  steps.takeWhile fun step ↦ !step.stops context

/-- Steps that do not stop are all reached, and the ones behind them as before. -/
theorem reached_append_of_not_stops {first : List Step}
    (h : ∀ step ∈ first, step.stops context = false) (second : List Step) :
    reached context (first ++ second) = first ++ reached context second :=
  List.takeWhile_append_of_pos fun step hstep ↦ by rw [h step hstep]; rfl

/-- Nothing behind a step that stops is reached. -/
theorem reached_append_of_stops {first : List Step}
    (h : ∃ step ∈ first, step.stops context = true) (second : List Step) :
    reached context (first ++ second) = reached context first := by
  induction first with
  | nil => simp at h
  | cons step later ih =>
    cases hstep : step.stops context with
    | true => simp [reached, hstep]
    | false =>
      have hlater : ∃ other ∈ later, other.stops context = true := by simpa [hstep] using h
      simpa [reached, hstep] using ih hlater

end Expr.Step

/-- An operand has a value exactly if none of its steps stops. -/
theorem Operand.exists_value_iff {context : Context} {operand : Operand} :
    (∃ value, operand.value context = .ok value) ↔
      ∀ step ∈ operand.steps, step.stops context = false := by
  rw [← failure?_eq_none_iff, operand.failure?_value, ← operand.lookups_steps,
    Expr.Step.missing?_lookups_eq_none_iff]

theorem Operand.exists_stops {context : Context} {operand : Operand} {error : EvaluationError}
    (h : operand.value context = .error error) :
    ∃ step ∈ operand.steps, step.stops context = true := by
  refine Classical.byContradiction fun hnone ↦ ?_
  have hvalue : ∃ value, operand.value context = .ok value :=
    Operand.exists_value_iff.2 (by simpa using hnone)
  simp [h] at hvalue

/-- A tree has a value exactly if none of its steps stops. -/
theorem Expr.exists_value_iff {context : Context} {expr : Expr} :
    (∃ value, expr.value context = .ok value) ↔
      ∀ step ∈ expr.steps, step.stops context = false :=
  @Operand.exists_value_iff context (.subexpression expr)

/-! ## What is noted -/

namespace Expr

def warnings : Expr → List Event
  | .call .hyp _ => [.doubtfulFunction .hyp]
  | _ => []

example : (Event.doubtfulFunction .hyp).message = "hyp implementation is invalid" := rfl

/-- What is noted about one subexpression when its evaluation is done with it. -/
def notes (context : Context) (expr : Expr) : List Event :=
  match expr.value context with
  | .ok value => expr.warnings ++ [.evaluated expr.kindName value]
  | .error _ => []

/-- A tree that has a value is noted after its warnings, with that value. -/
theorem notes_of_ok {context : Context} {expr : Expr} {value : Float}
    (h : expr.value context = .ok value) :
    expr.notes context = expr.warnings ++ [.evaluated expr.kindName value] := by
  rw [notes, h]

/-- What is noted in these steps, as far as they are taken. -/
def Step.notes (context : Context) (steps : List Step) : List Event :=
  (finished (reached context steps)).flatMap (Expr.notes context)

namespace Step

variable {context : Context} {first : List Step}

theorem notes_append_of_not_stops (h : ∀ step ∈ first, step.stops context = false)
    (second : List Step) :
    notes context (first ++ second) =
      (finished first).flatMap (Expr.notes context) ++ notes context second := by
  rw [notes, reached_append_of_not_stops context h, finished_append, List.flatMap_append, notes]

theorem notes_of_not_stops (h : ∀ step ∈ first, step.stops context = false) :
    notes context first = (finished first).flatMap (Expr.notes context) := by
  simpa [notes, reached] using notes_append_of_not_stops h []

theorem notes_append_of_stops (h : ∃ step ∈ first, step.stops context = true)
    (second : List Step) : notes context (first ++ second) = notes context first := by
  rw [notes, reached_append_of_stops context h, notes]

theorem notes_lookup (context : Context) (name : String) : notes context [lookup name] = [] := by
  unfold notes reached
  rw [List.takeWhile_cons]
  split <;> rfl

theorem notes_finish {expr : Expr} {value : Float} (h : expr.value context = .ok value) :
    notes context [finish expr] = expr.warnings ++ [.evaluated expr.kindName value] := by
  rw [← notes_of_ok h]
  exact List.append_nil _

end Step

end Expr

theorem Function.events_call (unit : AngleUnit) (function : Function) (argument : Operand)
    (x : Float) : (function.call unit x).events = (Expr.call function argument).warnings := by
  cases function <;> rfl

/-- What is done with the value of an operand notes the steps after those of the operand. -/
theorem Operand.events_bind {context : Context} {operand : Operand}
    (hoperand : (operand.evaluate context).events = Expr.Step.notes context operand.steps)
    {next : Float → Logged EvaluationError Float} {later : List Expr.Step}
    (hnext : ∀ value, operand.value context = .ok value →
      (next value).events = Expr.Step.notes context later) :
    (operand.evaluate context >>= next).events =
      Expr.Step.notes context (operand.steps ++ later) := by
  cases hvalue : operand.value context with
  | ok value =>
    have hgoes := Operand.exists_value_iff.1 ⟨value, hvalue⟩
    rw [Logged.events_bind_of_ok hvalue, hoperand, hnext value hvalue,
      Expr.Step.notes_of_not_stops hgoes, Expr.Step.notes_append_of_not_stops hgoes]
  | error error =>
    rw [Logged.events_bind_of_error hvalue, hoperand,
      Expr.Step.notes_append_of_stops (Operand.exists_stops hvalue)]

mutual

/-- The events of an evaluation are the notes of its steps. -/
theorem Operand.events_evaluate (context : Context) : ∀ operand : Operand,
    (operand.evaluate context).events = Expr.Step.notes context operand.steps
  | .literal _ => rfl
  | .reference name => (Expr.Step.notes_lookup context name).symm
  | .subexpression expr => expr.events_evaluate context

/-- What an evaluation notes is what its steps note as far as they are taken. -/
theorem Expr.events_evaluate (context : Context) : ∀ expr : Expr,
    (expr.evaluate context).events = Expr.Step.notes context expr.steps
  | .number value => (Expr.Step.notes_finish (Expr.value_number context value)).symm
  | .identifier name => by
    refine Operand.events_bind ((Operand.reference name).events_evaluate context) ?_
    intro value hvalue
    exact (Expr.Step.notes_finish ((Expr.value_identifier context name).trans hvalue)).symm
  | .call function argument => by
    refine Operand.events_bind (argument.events_evaluate context) fun x hx ↦ ?_
    have hvalue : (Expr.call function argument).value context =
        .ok (function.apply context.angleUnit x) := by
      rw [Expr.value_call, hx]
      rfl
    rw [Logged.events_bind_of_ok (Function.result_call ..), Function.events_call,
      Expr.Step.notes_finish hvalue]
    rfl
  | .factorial argument => by
    refine Operand.events_bind (argument.events_evaluate context) fun x hx ↦ ?_
    have hvalue : (Expr.factorial argument).value context = .ok (Binary64.factorial x) := by
      rw [Expr.value_factorial, hx]
      rfl
    exact (Expr.Step.notes_finish hvalue).symm
  | .root radicand index => by
    refine Operand.events_bind (radicand.events_evaluate context) fun x hx ↦ ?_
    refine Operand.events_bind (index.events_evaluate context) fun degree hdegree ↦ ?_
    have hvalue : (Expr.root radicand index).value context = .ok (nthRoot x degree) := by
      rw [Expr.value_root, hx, hdegree]
      rfl
    exact (Expr.Step.notes_finish hvalue).symm
  | .fraction numerator denominator => by
    refine Operand.events_bind (numerator.events_evaluate context) fun x hx ↦ ?_
    refine Operand.events_bind (denominator.events_evaluate context) fun y hy ↦ ?_
    have hvalue : (Expr.fraction numerator denominator).value context = .ok (x / y) := by
      rw [Expr.value_fraction, hx, hy]
      rfl
    exact (Expr.Step.notes_finish hvalue).symm
  | .binary left operator right => by
    refine Operand.events_bind (left.events_evaluate context) fun x hx ↦ ?_
    refine Operand.events_bind (right.events_evaluate context) fun y hy ↦ ?_
    have hvalue : (Expr.binary left operator right).value context =
        .ok (operator.apply x y) := by
      rw [Expr.value_binary, hx, hy]
      rfl
    exact (Expr.Step.notes_finish hvalue).symm

end

namespace Context

/-- Angles have the same unit, and whatever has a value in the one context has it in the other. -/
structure Extends (other context : Context) : Prop where
  unit : other.angleUnit = context.angleUnit
  kept {name : String} {value : Float} (h : context.get? name = some value) :
    other.get? name = some value

/-- A name that the smaller context has keeps its value in the larger one. -/
theorem Extends.resolve_eq {other context : Context} (h : other.Extends context) {name : String}
    (hname : context.lacks name = false) : other.resolve name = context.resolve name := by
  refine (resolve_congr_of_not_constant fun hconstant ↦ ?_).symm
  rw [lacks, hconstant, contains_eq_isSome_get?] at hname
  obtain ⟨value, hvalue⟩ := Option.isSome_iff_exists.1 (by simpa using hname)
  rw [hvalue, h.kept hvalue]

end Context

namespace Expr

/-- The evaluation of the expression stops at the name, which is the first that has no value. Some
steps are before it and some after. -/
structure StopsAt (expr : Expr) (context : Context) (before : List Step) (name : String)
    (after : List Step) : Prop where
  steps : expr.steps = before ++ .lookup name :: after
  lacks : context.lacks name = true
  first : ∀ step ∈ before, step.stops context = false

/-- Subexpressions have values if no name in their steps stops an evaluation. -/
theorem Step.Closed.exists_value {steps : List Step} (hclosed : Closed steps) {context : Context}
    (h : ∀ step ∈ steps, step.stops context = false) {expr : Expr} (hexpr : expr ∈ finished steps) :
    ∃ value, expr.value context = .ok value := by
  have hsteps : expr.steps <:+: steps := (hclosed.mem_finished_iff expr).1 hexpr
  exact exists_value_iff.2 fun step hstep ↦ h step (hsteps.subset hstep)

/-- What is noted about such a subexpression is the same where more names have values. -/
theorem Step.Closed.notes_eq {steps : List Step} (hclosed : Closed steps)
    {context other : Context} (h : ∀ step ∈ steps, step.stops context = false)
    (hextends : other.Extends context) {expr : Expr} (hexpr : expr ∈ finished steps) :
    Expr.notes context expr = Expr.notes other expr := by
  have hsteps : expr.steps <:+: steps := (hclosed.mem_finished_iff expr).1 hexpr
  have hvalue : expr.value context = expr.value other := by
    refine expr.value_congr hextends.unit.symm fun name hname ↦ ?_
    rw [← expr.lookups_steps] at hname
    exact (hextends.resolve_eq (h _ (hsteps.subset (mem_lookups.1 hname)))).symm
  rw [Expr.notes, Expr.notes, hvalue]

/-- An evaluation that fails stops at one lookup, of the name that it reports. -/
theorem exists_stopsAt {expr : Expr} {context : Context} {error : EvaluationError}
    (h : expr.value context = .error error) :
    ∃ before name after, expr.StopsAt context before name after ∧
      error = .unboundVariable name := by
  have hmissing := expr.failure?_value context
  rw [h, ← expr.lookups_steps, Context.missing?, Step.find?_lookups] at hmissing
  obtain ⟨name, hname, herror⟩ := Option.map_eq_some_iff.1 hmissing.symm
  obtain ⟨step, hfind, hlookup⟩ := Option.bind_eq_some_iff.1 hname
  obtain ⟨hstops, before, after, hsteps, hfirst⟩ := List.find?_eq_some_iff_append.1 hfind
  cases step with
  | finish other => cases hlookup
  | lookup other =>
    obtain rfl : other = name := Option.some.inj hlookup
    exact ⟨before, other, after, ⟨hsteps, hstops, by simpa using hfirst⟩, herror.symm⟩

namespace StopsAt

variable {expr : Expr} {context : Context} {before after : List Step} {name : String}

theorem closed_before (h : expr.StopsAt context before name after) : Step.Closed before :=
  expr.closed_steps.of_isPrefix ⟨.lookup name :: after, h.steps.symm⟩

theorem variables_eq (h : expr.StopsAt context before name after) :
    expr.variables = Step.lookups before ++ name :: Step.lookups after := by
  rw [← expr.lookups_steps, h.steps, Step.lookups_append, Step.lookups_lookup]

theorem postorder_eq (h : expr.StopsAt context before name after) :
    expr.postorder = Step.finished before ++ Step.finished after := by
  rw [← expr.finished_steps, h.steps, Step.finished_append, Step.finished_lookup]

/-- What has been noted is what there is to note about the subexpressions before the name. -/
theorem events_evaluate (h : expr.StopsAt context before name after) :
    (expr.evaluate context).events = (Step.finished before).flatMap (notes context) := by
  have hstops : ∃ step ∈ [Step.lookup name], step.stops context = true :=
    ⟨_, List.mem_singleton_self _, h.lacks⟩
  have hrest : Step.notes context (.lookup name :: after) = [] :=
    (Step.notes_append_of_stops hstops after).trans (Step.notes_lookup context name)
  rw [expr.events_evaluate, h.steps, Step.notes_append_of_not_stops h.first, hrest,
    List.append_nil]

end StopsAt

/-- What is noted in an evaluation that nothing stops. -/
theorem events_evaluate_of_ok {expr : Expr} {context : Context}
    (h : ∃ value, expr.value context = .ok value) :
    (expr.evaluate context).events = expr.postorder.flatMap (notes context) := by
  rw [expr.events_evaluate, Step.notes_of_not_stops (exists_value_iff.1 h), finished_steps]

/-- An evaluation that comes to a value notes every subexpression with the value that it has on its
own, each after its own subexpressions, and warns before what it notes about a call of `hyp`. An
evaluation that fails stops at the first variable without a value, in the order in which the
variables are listed. It has then noted the subexpressions that lie before it as a whole, just as
every evaluation notes them in which more variables have values and none is missing, and it has
noted the beginning of what that one notes. -/
theorem evaluate_notes_in_order (expr : Expr) (context : Context) :
    (∀ value, expr.value context = .ok value →
      (∀ node ∈ expr.postorder, ∃ value, node.value context = .ok value) ∧
        (expr.evaluate context).events = expr.postorder.flatMap (notes context)) ∧
    ∀ error, expr.value context = .error error →
      ∃ before name after, expr.StopsAt context before name after ∧
        error = .unboundVariable name ∧
        expr.variables = Step.lookups before ++ name :: Step.lookups after ∧
        (∀ node, node ∈ Step.finished before ↔ node.steps <:+: before) ∧
        ∀ other : Context, other.Extends context →
          (∀ name ∈ expr.variables, other.lacks name = false) →
          (expr.evaluate context).events = (Step.finished before).flatMap (notes other) ∧
          (expr.evaluate other).events = expr.postorder.flatMap (notes other) ∧
          (expr.evaluate context).events <+: (expr.evaluate other).events := by
  constructor
  · intro value hvalue
    have hgoes := exists_value_iff.1 ⟨value, hvalue⟩
    refine ⟨fun node hnode ↦ ?_, events_evaluate_of_ok ⟨value, hvalue⟩⟩
    rw [← expr.finished_steps] at hnode
    exact expr.closed_steps.exists_value hgoes hnode
  · intro error herror
    obtain ⟨before, name, after, hstops, hname⟩ := exists_stopsAt herror
    refine ⟨before, name, after, hstops, hname, hstops.variables_eq,
      hstops.closed_before.mem_finished_iff, fun other hextends hbound ↦ ?_⟩
    have hbefore : (expr.evaluate context).events =
        (Step.finished before).flatMap (notes other) := by
      rw [hstops.events_evaluate]
      exact List.flatMap_congr fun node hnode ↦
        hstops.closed_before.notes_eq hstops.first hextends hnode
    have hall : (expr.evaluate other).events = expr.postorder.flatMap (notes other) := by
      refine events_evaluate_of_ok (failure?_eq_none_iff.1 ?_)
      rw [expr.failure?_value, Context.missing?, List.find?_eq_none.2]
      · rfl
      · intro name hname
        rw [hbound name hname]
        exact Bool.false_ne_true
    refine ⟨hbefore, hall, ?_⟩
    rw [hbefore, hall, hstops.postorder_eq, List.flatMap_append]
    exact List.prefix_append _ _

/-- A call of `hyp` and a variable. Without a value for the variable the evaluation stops after the
call, and with one it goes on from there. -/
theorem evaluate_notes_in_order_hyp :
    let expr : Expr := .binary (.subexpression (.call .hyp (.literal 1))) .add (.reference "x")
    let bound := Context.empty.insert "x" 2
    expr.value .empty = .error (.unboundVariable "x") ∧
      (∃ value, expr.value bound = .ok value) ∧
      (expr.evaluate .empty).events <+: (expr.evaluate bound).events ∧
      (expr.evaluate bound).events = expr.postorder.flatMap (notes bound) := by
  intro expr bound
  have hmissing : Context.empty.resolve "x" = .error (.unboundVariable "x") := by
    rw [Context.resolve, Context.get?_empty]
    rfl
  have herror : expr.value .empty = .error (.unboundVariable "x") := by
    rw [value_binary, Operand.value_reference, hmissing]
    rfl
  have hresolve : bound.resolve "x" = .ok 2 := by
    rw [Context.resolve, Context.get?_insert_self]
    rfl
  have hvalue : ∃ value, expr.value bound = .ok value := by
    rw [value_binary, Operand.value_reference, hresolve]
    exact ⟨_, rfl⟩
  have hextends : bound.Extends .empty := ⟨rfl, by simp⟩
  have hbound : ∀ name ∈ expr.variables, bound.lacks name = false := by
    intro name hname
    obtain rfl : name = "x" := by
      simpa [expr, Expr.variables, Operand.variables] using hname
    rw [Context.lacks, Context.contains_eq_isSome_get?, Context.get?_insert_self]
    rfl
  obtain ⟨_, _, _, -, -, -, -, hother⟩ := (expr.evaluate_notes_in_order .empty).2 _ herror
  obtain ⟨value, hvalue'⟩ := hvalue
  exact ⟨herror, ⟨value, hvalue'⟩, (hother bound hextends hbound).2.2,
    ((expr.evaluate_notes_in_order bound).1 value hvalue').2⟩

end Expr

end Formula
