import Mathlib.Data.List.Induction
import Formula.Compile
import Formula.Proofs.Evaluation

/-!
# What an evaluation reads of a context

A context is filled by one write after the other, and of the writes for a name the last one counts.
An evaluation looks up the names of its variables, hands the unit to the functions it calls and
reads nothing else, so contexts that agree in this give the expression the same value, however they
were filled.
-/

namespace Formula

/-- A name at the end is one more if it has not been there before. -/
theorem eraseDups_concat (names : List String) (name : String) :
    (names ++ [name]).eraseDups =
      if name ∈ names then names.eraseDups else names.eraseDups ++ [name] := by
  rw [List.eraseDups_append]
  by_cases h : name ∈ names <;> simp [List.removeAll, List.eraseDups_cons, h]

/-- Leaving names out before or after removing repetitions is the same. -/
theorem eraseDups_filter (p : String → Bool) (names : List String) :
    (names.filter p).eraseDups = names.eraseDups.filter p := by
  induction names using List.reverseRecOn with
  | nil => rfl
  | append_singleton names name ih =>
    rw [List.filter_append, eraseDups_concat]
    by_cases hname : p name
    · rw [List.filter_cons_of_pos hname, List.filter_nil, eraseDups_concat, ih]
      by_cases hmem : name ∈ names <;> simp [hmem, hname]
    · by_cases hmem : name ∈ names <;> simp [hmem, hname, ih]

def Expr.occurrences (expr : Expr) : List String :=
  expr.variables.filter fun name ↦ !isConstant name

/-- The unknowns are the occurrences that are no constants, each name once. -/
theorem Expr.unknowns_eq (expr : Expr) : expr.unknowns = expr.occurrences.eraseDups :=
  (eraseDups_filter _ expr.variables).symm

/-- The value that comes last for a name. -/
def lastValue? (pairs : List (String × Float)) (name : String) : Option Float :=
  pairs.reverse.lookup name

theorem lastValue?_cons (first : String × Float) (later : List (String × Float)) (name : String) :
    lastValue? (first :: later) name =
      (lastValue? later name).or (if first.1 = name then some first.2 else none) := by
  unfold lastValue?
  obtain ⟨other, value⟩ := first
  rw [List.reverse_cons, List.lookup_append]
  congr 1
  by_cases h : other = name
  · subst h
    rw [List.lookup_cons_self, if_pos rfl]
  · have hbeq : (name == other) = false := beq_eq_false_iff_ne.2 (Ne.symm h)
    rw [List.lookup_cons, hbeq, if_neg h, List.lookup_nil]

theorem lastValue?_eq_none_iff {pairs : List (String × Float)} {name : String} :
    lastValue? pairs name = none ↔ ∀ pair ∈ pairs, pair.1 ≠ name := by
  simp [lastValue?, List.lookup_eq_none_iff, ne_comm]

theorem exists_lastValue? {pairs : List (String × Float)} {name : String}
    (h : name ∈ pairs.map Prod.fst) : ∃ value, lastValue? pairs name = some value := by
  obtain ⟨pair, hmem, rfl⟩ := List.mem_map.1 h
  refine Option.ne_none_iff_exists'.1 fun hnone ↦ ?_
  exact lastValue?_eq_none_iff.1 hnone pair hmem rfl

/-- If each name is paired with a value of its own, that is its last value. -/
theorem lastValue?_zip_map (value : String → Float) (names : List String) (name : String) :
    lastValue? (names.zip (names.map value)) name =
      if name ∈ names then some (value name) else none := by
  induction names with
  | nil => rfl
  | cons first later ih =>
    rw [List.map_cons, List.zip_cons_cons, lastValue?_cons, ih]
    by_cases hlater : name ∈ later
    · simp [hlater]
    · by_cases hfirst : first = name
      · simp [hfirst, hlater]
      · simp [hfirst, hlater, Ne.symm hfirst]

theorem isSome_lastValue?_zip {names : List String} {values : List Float}
    (hlength : values.length = names.length) (name : String) :
    (lastValue? (names.zip values) name).isSome = decide (name ∈ names) := by
  induction names generalizing values with
  | nil => rfl
  | cons first later ih =>
    cases values with
    | nil => cases hlength
    | cons value others =>
      rw [List.zip_cons_cons, lastValue?_cons, Option.isSome_or, ih (Nat.succ.inj hlength)]
      by_cases hfirst : first = name
      · simp [hfirst]
      · simp [hfirst, Ne.symm hfirst]

/-- Names and as many values give every name its last value. -/
theorem exists_lastValue?_zip {names : List String} {values : List Float}
    (hlength : values.length = names.length) :
    ∃ last : String → Float,
      ∀ name ∈ names, lastValue? (names.zip values) name = some (last name) := by
  refine ⟨fun name ↦ (lastValue? (names.zip values) name).getD 0, fun name hname ↦ ?_⟩
  have hsome := isSome_lastValue?_zip hlength name
  rw [decide_eq_true hname] at hsome
  obtain ⟨value, hvalue⟩ := Option.isSome_iff_exists.1 hsome
  simp only [hvalue, Option.getD_some]

/-- Each name's last value, given once, is its last value again. -/
theorem lastValue?_eraseDups {names : List String} {values : List Float} {last : String → Float}
    (hlength : values.length = names.length)
    (hlast : ∀ name ∈ names, lastValue? (names.zip values) name = some (last name))
    (name : String) :
    lastValue? (names.eraseDups.zip (names.eraseDups.map last)) name =
      lastValue? (names.zip values) name := by
  simp only [lastValue?_zip_map, List.mem_eraseDups]
  split
  · next hmem => exact (hlast name hmem).symm
  · next hmem =>
    have hnone := isSome_lastValue?_zip hlength name
    rw [decide_eq_false hmem, Option.isSome_eq_false_iff, Option.isNone_iff_eq_none] at hnone
    exact hnone.symm

namespace Context

def insertAll (context : Context) (pairs : List (String × Float)) : Context :=
  pairs.foldl (fun context pair ↦ context.insert pair.1 pair.2) context

@[simp] theorem insertAll_cons (context : Context) (pair : String × Float)
    (later : List (String × Float)) :
    context.insertAll (pair :: later) = (context.insert pair.1 pair.2).insertAll later := rfl

theorem ofList_eq_insertAll (pairs : List (String × Float)) :
    ofList pairs = empty.insertAll pairs := rfl

@[simp] theorem angleUnit_insertAll (context : Context) (pairs : List (String × Float)) :
    (context.insertAll pairs).angleUnit = context.angleUnit := by
  induction pairs generalizing context with
  | nil => rfl
  | cons pair later ih => exact ih _

/-- A context that was filled has the last value of a name, or the one it had before. -/
theorem get?_insertAll (context : Context) (pairs : List (String × Float)) (name : String) :
    (context.insertAll pairs).get? name = (lastValue? pairs name).or (context.get? name) := by
  induction pairs generalizing context with
  | nil => rfl
  | cons pair later ih =>
    rw [insertAll_cons, ih, get?_insert, lastValue?_cons, Option.or_assoc]
    split <;> rfl

theorem get?_insertAll_of_ne {pairs : List (String × Float)} {name : String}
    (h : ∀ pair ∈ pairs, pair.1 ≠ name) (context : Context) :
    (context.insertAll pairs).get? name = context.get? name := by
  rw [get?_insertAll, lastValue?_eq_none_iff.2 h, Option.none_or]

/-- Contexts with the same value of a name resolve it alike. -/
theorem resolve_congr {left right : Context} {name : String}
    (h : left.get? name = right.get? name) : left.resolve name = right.resolve name := by
  rw [resolve, resolve, h]

end Context

/-- An expression has a value where each of its variables has one. -/
theorem Expr.exists_value {expr : Expr} {context : Context}
    (h : ∀ name ∈ expr.occurrences, (context.get? name).isSome) :
    ∃ value, expr.value context = .ok value := by
  have hnone : expr.variables.find? context.lacks = none := by
    refine List.find?_eq_none.2 fun name hname hlacks ↦ ?_
    rw [Context.lacks, Context.contains_eq_isSome_get?, Bool.and_eq_true] at hlacks
    have hsome := h name (List.mem_filter.2 ⟨hname, hlacks.1⟩)
    rw [hsome] at hlacks
    exact absurd hlacks.2 (by decide)
  rw [← failure?_eq_none_iff, expr.failure?_value context, Context.missing?, hnone]
  rfl

/-- An expression has a value where all its names were written to. -/
theorem Expr.exists_value_insertAll {expr : Expr} {pairs : List (String × Float)}
    (h : ∀ name ∈ expr.occurrences, name ∈ pairs.map Prod.fst) (context : Context) :
    ∃ value, expr.value (context.insertAll pairs) = .ok value := by
  refine exists_value fun name hname ↦ ?_
  obtain ⟨value, hvalue⟩ := exists_lastValue? (h name hname)
  rw [Context.get?_insertAll, hvalue]
  rfl

mutual

def Operand.functions : Operand → List Function
  | .literal _ => []
  | .reference _ => []
  | .subexpression expr => expr.functions

def Expr.functions : Expr → List Function
  | .number _ => []
  | .identifier _ => []
  | .call function argument => function :: argument.functions
  | .factorial argument => argument.functions
  | .root radicand index => radicand.functions ++ index.functions
  | .fraction numerator denominator => numerator.functions ++ denominator.functions
  | .binary left _ right => left.functions ++ right.functions

end

mutual

/-- An operand sees of a context its own names and functions only. -/
theorem Operand.evaluate_congr {context other : Context} : ∀ operand : Operand,
    (∀ name ∈ operand.variables, context.resolve name = other.resolve name) →
    (∀ function ∈ operand.functions,
      Function.call context.angleUnit function = Function.call other.angleUnit function) →
      operand.evaluate context = operand.evaluate other
  | .literal _, _, _ => rfl
  | .reference name, hnames, _ => congrArg Logged.lift (hnames name List.mem_cons_self)
  | .subexpression expr, hnames, hcalls => expr.evaluate_congr hnames hcalls

/-- An expression comes to the same in contexts that give its variables the same meaning and where
the functions that it calls do the same. -/
theorem Expr.evaluate_congr {context other : Context} : ∀ expr : Expr,
    (∀ name ∈ expr.variables, context.resolve name = other.resolve name) →
    (∀ function ∈ expr.functions,
      Function.call context.angleUnit function = Function.call other.angleUnit function) →
      expr.evaluate context = expr.evaluate other
  | .number _, _, _ => rfl
  | .identifier name, hnames, _ => by
    rw [Expr.evaluate, Expr.evaluate, hnames name List.mem_cons_self]
  | .call function argument, hnames, hcalls => by
    have ⟨hcall, hargument⟩ := List.forall_mem_cons.1 hcalls
    rw [Expr.evaluate, Expr.evaluate, argument.evaluate_congr hnames hargument, hcall]
  | .factorial argument, hnames, hcalls => by
    rw [Expr.evaluate, Expr.evaluate, argument.evaluate_congr hnames hcalls]
  | .root radicand index, hnames, hcalls => by
    have ⟨hradicand, hindex⟩ := List.forall_mem_append.1 hnames
    have ⟨hradicand', hindex'⟩ := List.forall_mem_append.1 hcalls
    rw [Expr.evaluate, Expr.evaluate, radicand.evaluate_congr hradicand hradicand',
      index.evaluate_congr hindex hindex']
  | .fraction numerator denominator, hnames, hcalls => by
    have ⟨hnumerator, hdenominator⟩ := List.forall_mem_append.1 hnames
    have ⟨hnumerator', hdenominator'⟩ := List.forall_mem_append.1 hcalls
    rw [Expr.evaluate, Expr.evaluate, numerator.evaluate_congr hnumerator hnumerator',
      denominator.evaluate_congr hdenominator hdenominator']
  | .binary left operator right, hnames, hcalls => by
    have ⟨hleft, hright⟩ := List.forall_mem_append.1 hnames
    have ⟨hleft', hright'⟩ := List.forall_mem_append.1 hcalls
    rw [Expr.evaluate, Expr.evaluate, left.evaluate_congr hleft hleft',
      right.evaluate_congr hright hright']

end

/-- An expression has the same value in contexts with the same unit that give its variables the same
meaning. -/
theorem Expr.value_congr {context other : Context} (hunit : context.angleUnit = other.angleUnit)
    (expr : Expr) (h : ∀ name ∈ expr.variables, context.resolve name = other.resolve name) :
    expr.value context = expr.value other := by
  have hevaluate : expr.evaluate context = expr.evaluate other :=
    expr.evaluate_congr h fun function _ ↦ by rw [hunit]
  rw [Expr.value, Expr.value, hevaluate]

end Formula
