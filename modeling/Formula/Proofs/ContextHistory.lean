import Mathlib.Data.Finset.Card
import Formula.Proofs.Binary64
import Formula.Proofs.Bindings

/-!
# Histories of contexts

Contexts stand in places, where they are made, written to and copied. Beside the context of a place
runs the log of what has been written since it was made, and a copy takes the log along. After any
operations a context is what its log comes to: all that can be seen of it are the last write to each
name and the unit, and no write to another place is seen.
-/

namespace Formula

namespace Context

def names (context : Context) : Finset String :=
  context.values.keys.toFinset

/-- The names of a context are those that it has a value for. -/
theorem mem_names {context : Context} {name : String} :
    name ∈ context.names ↔ (context.get? name).isSome = true := by
  rw [names, List.mem_toFinset, Std.HashMap.mem_keys, ← contains_eq_isSome_get?]
  rfl

theorem card_names (context : Context) : context.names.card = context.size := by
  rw [names, List.toFinset_card_of_nodup Std.HashMap.nodup_keys, Std.HashMap.length_keys]
  rfl

theorem isEmpty_iff {context : Context} :
    context.isEmpty = true ↔ ∀ name, context.get? name = none := by
  rw [isEmpty, Std.HashMap.isEmpty_iff_forall_contains]
  refine forall_congr' fun name ↦ ?_
  rw [← Option.not_isSome_iff_eq_none, ← contains_eq_isSome_get?, Bool.not_eq_true]
  rfl

theorem mem_toList_iff {context : Context} {name : String} {value : Float} :
    (name, value) ∈ context.values.toList ↔ context.get? name = some value :=
  Std.HashMap.mem_toList_iff_getElem?_eq_some

theorem beq_comm (x y : Option Float) : (x == y) = (y == x) := by
  cases x with
  | none => cases y <;> rfl
  | some x =>
    cases y with
    | none => rfl
    | some y => rw [Option.some_beq_some, Option.some_beq_some, Binary64.beq_comm]

theorem isSome_eq_of_beq {x y : Option Float} (h : (x == y) = true) : x.isSome = y.isSome := by
  cases x with
  | none =>
    cases y with
    | none => rfl
    | some => cases h
  | some =>
    cases y with
    | none => cases h
    | some => rfl

/-- Contexts that agree on every name have the same names. -/
theorem names_eq_of_beq {left right : Context}
    (h : ∀ name, (left.get? name == right.get? name) = true) : left.names = right.names := by
  ext name
  rw [mem_names, mem_names, isSome_eq_of_beq (h name)]

/-- As many names on both sides, and each on the left with its value on the right, are the same
names. -/
theorem names_eq_of_size {left right : Context} (hsize : left.size = right.size)
    (h : ∀ name value, left.get? name = some value → (right.get? name == some value) = true) :
    left.names = right.names := by
  apply Finset.eq_of_subset_of_card_le
  · intro name hname
    obtain ⟨value, hvalue⟩ := Option.isSome_iff_exists.1 (mem_names.1 hname)
    rw [mem_names, isSome_eq_of_beq (h name value hvalue)]
    rfl
  · rw [card_names, card_names, hsize]

/-- Contexts compare equal if their units do and they compare equal at each name. -/
theorem beq_iff {left right : Context} :
    (left == right) = true ↔
      left.angleUnit = right.angleUnit ∧ ∀ name, (left.get? name == right.get? name) = true := by
  have hbeq : (left == right) = true ↔
      (left.angleUnit = right.angleUnit ∧ left.size = right.size) ∧
        ∀ pair ∈ left.values.toList, (right.get? pair.1 == some pair.2) = true := by
    change beq left right = true ↔ _
    simp only [beq, Bool.and_eq_true, List.all_eq_true, beq_iff_eq]
  rw [hbeq]
  constructor
  · rintro ⟨⟨hunit, hsize⟩, hvalues⟩
    have hget (name : String) (value : Float) (hvalue : left.get? name = some value) :
        (right.get? name == some value) = true :=
      hvalues (name, value) (mem_toList_iff.2 hvalue)
    refine ⟨hunit, fun name ↦ ?_⟩
    cases hvalue : left.get? name with
    | some value =>
      rw [beq_comm]
      exact hget name value hvalue
    | none =>
      have hleft : name ∉ left.names := by simp [mem_names, hvalue]
      have hright : right.get? name = none := by
        rw [names_eq_of_size hsize hget, mem_names, Option.not_isSome_iff_eq_none] at hleft
        exact hleft
      rw [hright]
      rfl
  · rintro ⟨hunit, hvalues⟩
    have hsize : left.size = right.size := by
      rw [← card_names, names_eq_of_beq hvalues, card_names]
    refine ⟨⟨hunit, hsize⟩, ?_⟩
    rintro ⟨name, value⟩ hpair
    rw [beq_comm, ← mem_toList_iff.1 hpair]
    exact hvalues name

end Context

/-! ## Histories -/

/-- The writes to a context since it was made, oldest first, and its unit. -/
structure History where
  writes : List (String × Float)
  angleUnit : AngleUnit

namespace History

def new : History := ⟨[], .radians⟩

def replay (history : History) : Context :=
  (Context.empty.insertAll history.writes).withAngleUnit history.angleUnit

/-- A context has the value that was written last. -/
theorem get?_replay (history : History) (name : String) :
    history.replay.get? name = lastValue? history.writes name := by
  rw [replay, Context.get?_withAngleUnit, Context.get?_insertAll, Context.get?_empty,
    Option.or_none]

/-- A context counts the names that were written, each once. -/
theorem size_replay (history : History) :
    history.replay.size = (history.writes.map Prod.fst).toFinset.card := by
  have hnames : history.replay.names = (history.writes.map Prod.fst).toFinset := by
    ext name
    rw [Context.mem_names, get?_replay, List.mem_toFinset, List.mem_map, ← not_iff_not,
      Option.not_isSome_iff_eq_none, lastValue?_eq_none_iff, not_exists]
    simp only [not_and, ne_eq]
  rw [← Context.card_names, hnames]

end History

/-- What is done to the contexts in their places. -/
inductive ContextOperation where
  | new (place : Nat)
  | bind (place : Nat) (names : List String) (values : List Float)
  | collect (place : Nat) (pairs : List (String × Float))
  | insert (place : Nat) (name : String) (value : Float)
  | withAngleUnit (place : Nat) (unit : AngleUnit)
  | clone (source place : Nat)

namespace ContextOperation

def place : ContextOperation → Nat
  | new place => place
  | bind place _ _ => place
  | collect place _ => place
  | insert place _ _ => place
  | withAngleUnit place _ => place
  | clone _ place => place

/-- The context that is then in the place. A failed binding leaves the one that was there. -/
def context (contexts : Nat → Context) : ContextOperation → Context
  | new _ => .empty
  | bind place names values =>
    match Context.bind? names values with
    | .ok context => context
    | .error _ => contexts place
  | collect _ pairs => .ofList pairs
  | insert place name value => ((contexts place).replace name value).2
  | withAngleUnit place unit => (contexts place).withAngleUnit unit
  | clone source _ => contexts source

def history (histories : Nat → History) : ContextOperation → History
  | new _ => .new
  | bind place names values =>
    if names.length = values.length then ⟨names.zip values, .radians⟩ else histories place
  | collect _ pairs => ⟨pairs, .radians⟩
  | insert place name value =>
    { histories place with writes := (histories place).writes ++ [(name, value)] }
  | withAngleUnit place unit => { histories place with angleUnit := unit }
  | clone source _ => histories source

theorem replay_bound (pairs : List (String × Float)) :
    History.replay ⟨pairs, .radians⟩ = Context.ofList pairs := by
  have hunit : (Context.ofList pairs).angleUnit = .radians := Context.angleUnit_insertAll _ pairs
  rw [History.replay, ← Context.ofList_eq_insertAll, Context.withAngleUnit, ← hunit]

/-- One operation does to the contexts what it does to their histories. -/
theorem context_replay (histories : Nat → History) (operation : ContextOperation) :
    operation.context (fun place ↦ (histories place).replay) =
      (operation.history histories).replay := by
  cases operation with
  | new => rfl
  | bind place names values =>
    by_cases hlength : names.length = values.length
    · simp only [context, history, Context.bind?, if_pos hlength, replay_bound]
    · simp only [context, history, Context.bind?, if_neg hlength]
  | collect place pairs => exact (replay_bound pairs).symm
  | insert place name value =>
    simp only [context, history, History.replay, Context.insertAll, List.foldl_append]
    rfl
  | withAngleUnit => rfl
  | clone => rfl

def run {α : Type} (effect : (Nat → α) → ContextOperation → α) (places : Nat → α)
    (operations : List ContextOperation) : Nat → α :=
  operations.foldl
    (fun places operation ↦ Function.update places operation.place (effect places operation)) places

section

variable {α : Type} (effect : (Nat → α) → ContextOperation → α) (places : Nat → α)

theorem run_append (operations later : List ContextOperation) :
    run effect places (operations ++ later) = run effect (run effect places operations) later :=
  List.foldl_append

/-- What is not done in a place is not seen there. -/
theorem run_of_ne {operations : List ContextOperation} {place : Nat}
    (h : ∀ operation ∈ operations, operation.place ≠ place) :
    run effect places operations place = places place := by
  induction operations generalizing places with
  | nil => rfl
  | cons first later ih =>
    obtain ⟨hfirst, hlater⟩ := List.forall_mem_cons.1 h
    calc
      run effect places (first :: later) place =
          Function.update places first.place (effect places first) place := ih _ hlater
      _ = places place := Function.update_of_ne hfirst.symm _ _

end

/-- A run on contexts is the run on their histories, replayed. -/
theorem run_replay (histories : Nat → History) (operations : List ContextOperation) :
    run context (fun place ↦ (histories place).replay) operations =
      fun place ↦ (run history histories operations place).replay := by
  induction operations generalizing histories with
  | nil => rfl
  | cons first later ih =>
    have hfirst : Function.update (fun place ↦ (histories place).replay) first.place
          (first.context fun place ↦ (histories place).replay) =
        fun place ↦
          (Function.update histories first.place (first.history histories) place).replay := by
      rw [context_replay]
      exact (Function.comp_update History.replay histories first.place _).symm
    calc
      run context (fun place ↦ (histories place).replay) (first :: later) =
          run context (Function.update (fun place ↦ (histories place).replay) first.place
            (first.context fun place ↦ (histories place).replay)) later := rfl
      _ = _ := by rw [hfirst, ih]; rfl

end ContextOperation

/-- The contexts after the operations; at first all are empty. -/
def contextsAfter (operations : List ContextOperation) : Nat → Context :=
  ContextOperation.run ContextOperation.context (fun _ ↦ .empty) operations

def historiesAfter (operations : List ContextOperation) : Nat → History :=
  ContextOperation.run ContextOperation.history (fun _ ↦ .new) operations

/-- In every place stands what its history leaves behind. -/
theorem contextsAfter_eq (operations : List ContextOperation) (place : Nat) :
    contextsAfter operations place = (historiesAfter operations place).replay :=
  congrFun (ContextOperation.run_replay (fun _ ↦ .new) operations) place

namespace Context

theorem bind?_of_length_eq {names : List String} {values : List Float}
    (h : names.length = values.length) : bind? names values = .ok (ofList (names.zip values)) :=
  if_pos h

theorem get?_ofList (pairs : List (String × Float)) (name : String) :
    (ofList pairs).get? name = lastValue? pairs name := by
  rw [ofList_eq_insertAll, get?_insertAll, get?_empty, Option.or_none]

/-- A copy is what was copied, and stays so as long as nothing is done in its own place. -/
theorem clone_of_ne (operations : List ContextOperation) {later : List ContextOperation}
    (source : Nat) {place : Nat} (hlater : ∀ operation ∈ later, operation.place ≠ place) :
    contextsAfter (operations ++ .clone source place :: later) place =
      contextsAfter operations source := by
  rw [contextsAfter, ContextOperation.run_append]
  calc
    ContextOperation.run ContextOperation.context (contextsAfter operations)
        (.clone source place :: later) place =
        Function.update (contextsAfter operations) place (contextsAfter operations source) place :=
      ContextOperation.run_of_ne _ _ hlater
    _ = contextsAfter operations source := Function.update_self _ _ _

/-- After any operations a context has for each name the value of the last write since it was made,
and as many names as were written; a write gives back what it replaces and changes nothing else.
Names and values are bound if there are as many of both. Nothing that is done to a context is seen
in a copy of it, and contexts compare equal if their units do and their values do at each name. -/
theorem last_write_wins (operations : List ContextOperation) :
    (∀ place,
      let context := contextsAfter operations place
      let history := historiesAfter operations place
      context.angleUnit = history.angleUnit ∧
      (∀ name, context.get? name = lastValue? history.writes name ∧
        context.contains name = (context.get? name).isSome) ∧
      (context.isEmpty = true ↔ ∀ name, context.get? name = none) ∧
      context.size = (history.writes.map Prod.fst).toFinset.card ∧
      ∀ name value,
        (context.replace name value).1 = context.get? name ∧
        (context.replace name value).2.get? name = some value ∧
        (∀ other, other ≠ name →
          (context.replace name value).2.get? other = context.get? other) ∧
        (context.replace name value).2.angleUnit = context.angleUnit) ∧
    (∀ names values,
      (names.length ≠ values.length →
        bind? names values = .error (.valueCountMismatch names.length values.length)) ∧
      (names.length = values.length →
        ∃ context, bind? names values = .ok context ∧ context.angleUnit = .radians ∧
          ∀ name, context.get? name = lastValue? (names.zip values) name)) ∧
    (∀ pairs, (ofList pairs).angleUnit = .radians ∧
      ∀ name, (ofList pairs).get? name = lastValue? pairs name) ∧
    (∀ source place later, (∀ operation ∈ later, operation.place ≠ place) →
      contextsAfter (operations ++ .clone source place :: later) place =
        contextsAfter operations source) ∧
    ∀ left right, (contextsAfter operations left == contextsAfter operations right) = true ↔
      (contextsAfter operations left).angleUnit = (contextsAfter operations right).angleUnit ∧
        ∀ name, ((contextsAfter operations left).get? name ==
          (contextsAfter operations right).get? name) = true := by
  refine ⟨fun place ↦ ?_, fun names values ↦ ⟨fun hlength ↦ if_neg hlength, fun hlength ↦ ?_⟩,
    fun pairs ↦ ⟨angleUnit_insertAll _ pairs, get?_ofList pairs⟩,
    fun source place later hlater ↦ clone_of_ne operations source hlater,
    fun left right ↦ beq_iff⟩
  · intro context history
    have hcontext : context = history.replay := contextsAfter_eq operations place
    refine ⟨congrArg angleUnit hcontext, fun name ↦ ⟨?_, contains_eq_isSome_get? context name⟩,
      isEmpty_iff, ?_, fun name value ↦ ⟨rfl, get?_insert_self context name value, ?_, rfl⟩⟩
    · rw [hcontext, History.get?_replay]
    · rw [hcontext, History.size_replay]
    · intro other hother
      exact (get?_insert context name other value).trans (if_neg hother.symm)
  · exact ⟨_, bind?_of_length_eq hlength, angleUnit_insertAll _ _, get?_ofList _⟩

end Context

end Formula
