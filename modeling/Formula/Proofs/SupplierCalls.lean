import Formula.Proofs.FirstOccurrences
import Formula.Proofs.Prompting
import Formula.Proofs.Relevance

/-!
# What a supplier is asked for

A supplier may keep a state, answer a name differently each time and fail. It is asked for the names
that need a value, each once and in the order of their first occurrences, until it fails. If it does
not, the expression has a value, and it is the one in every context that holds the answers.
-/

namespace Formula

/-- Gives values for names, from a state that it may change. -/
abbrev Supplier (σ : Type) := String → ExceptT Error (StateM σ) Float

namespace Supplier

variable {σ : Type}

def call (supply : Supplier σ) (name : String) (state : σ) : Except Error Float × σ :=
  (supply name).run.run state

/-- From one state to another the supplier gives these values for these names. -/
inductive Answers (supply : Supplier σ) : σ → List (String × Float) → σ → Prop where
  | nothing {state : σ} : Answers supply state [] state
  | value {state next last : σ} {name : String} {value : Float} {later : List (String × Float)}
      (hcall : supply.call name state = (.ok value, next))
      (hlater : Answers supply next later last) :
      Answers supply state ((name, value) :: later) last

def noting (supply : Supplier σ) : Supplier (σ × List String) := fun name ↦
  ExceptT.mk fun (state, noted) ↦
    let (answer, next) := supply.call name state
    (answer, next, noted ++ [name])

variable {supply : Supplier σ} {state last : σ} {answers : List (String × Float)}

theorem call_noting (name : String) (state : σ) (noted : List String) :
    supply.noting.call name (state, noted) =
      ((supply.call name state).1, (supply.call name state).2, noted ++ [name]) :=
  rfl

/-- A supplier that notes its calls gives the same answers. -/
theorem Answers.noting (h : supply.Answers state answers last) (noted : List String) :
    supply.noting.Answers (state, noted) answers (last, noted ++ answers.map Prod.fst) := by
  induction h generalizing noted with
  | nothing =>
    rw [List.map_nil, List.append_nil]
    exact .nothing
  | @value _ _ _ name _ later hcall _ ih =>
    refine .value (by rw [call_noting, hcall]) ?_
    have hlater := ih (noted ++ [name])
    rwa [List.append_assoc] at hlater

/-- A supplier answers for all names, or for those in front of one for which it fails. -/
theorem exists_answers (supply : Supplier σ) (names : List String) (state : σ) :
    ∃ answers last, supply.Answers state answers last ∧
      (answers.map Prod.fst = names ∨ ∃ name later error after,
        names = answers.map Prod.fst ++ name :: later ∧
        supply.call name last = (.error error, after)) := by
  induction names generalizing state with
  | nil => exact ⟨[], state, .nothing, .inl rfl⟩
  | cons name later ih =>
    rcases hcall : supply.call name state with ⟨error | value, next⟩
    · exact ⟨[], state, .nothing, .inr ⟨name, later, error, next, rfl, hcall⟩⟩
    · obtain ⟨answers, last, hanswers, hend⟩ := ih next
      refine ⟨(name, value) :: answers, last, .value hcall hanswers, ?_⟩
      rcases hend with hall | ⟨failing, rest, error, after, hnames, hfailed⟩
      · exact .inl (by rw [List.map_cons, hall])
      · exact .inr ⟨failing, rest, error, after, by rw [List.map_cons, hnames]; rfl, hfailed⟩

/-- The supplier is called for the first name, and for the others unless it fails. -/
theorem run_fill_cons (context : Context) (name : String) (later : List String) (state : σ) :
    (context.fill supply (name :: later)).run.run state =
      match supply.call name state with
      | (.ok value, next) => ((context.insert name value).fill supply later).run.run next
      | (.error error, next) => (.error error, next) := by
  rw [Context.fill_cons, ExceptT.run_bind, StateT.run_bind]
  unfold call
  rcases (supply name).run.run state with ⟨error | value, next⟩ <;> rfl

theorem Answers.run_fill (h : supply.Answers state answers last) (later : List String)
    (context : Context) :
    (context.fill supply (answers.map Prod.fst ++ later)).run.run state =
      ((context.insertAll answers).fill supply later).run.run last := by
  induction h generalizing context with
  | nothing => rfl
  | value hcall _ ih =>
    rw [List.map_cons, List.cons_append, run_fill_cons, hcall]
    exact ih _

section

variable {source : String} {expr : Expr} (hcompile : (compile source).result = .ok expr)
include hcompile

/-- All names are supplied before anything is evaluated. -/
theorem run_evaluateWith (supply : Supplier σ) (state : σ) :
    (evaluateWith supply source).run.run state =
      match (Context.empty.fill supply expr.unknowns).run.run state with
      | (.ok context, last) => ((expr.value context).mapError .evaluation, last)
      | (.error error, last) => (.error error, last) := by
  unfold evaluateWith
  rw [hcompile]
  change (((Context.empty.fill supply expr.unknowns) >>= fun context ↦
    evaluateWith.liftExcept ((expr.value context).mapError .evaluation)).run.run state) = _
  rw [ExceptT.run_bind, StateT.run_bind]
  rcases (Context.empty.fill supply expr.unknowns).run.run state with ⟨error | context, last⟩ <;> rfl

theorem Answers.run_evaluateWith {result : Float} (h : supply.Answers state answers last)
    (hall : answers.map Prod.fst = expr.unknowns)
    (hvalue : expr.value (Context.empty.insertAll answers) = .ok result) :
    (evaluateWith supply source).run.run state = (.ok result, last) := by
  have hfill := h.run_fill [] Context.empty
  rw [List.append_nil, hall] at hfill
  rw [Supplier.run_evaluateWith hcompile, hfill]
  change ((expr.value (Context.empty.insertAll answers)).mapError Error.evaluation, last) = _
  rw [hvalue]
  rfl

/-- The first failure of a supplier ends the evaluation as it is. -/
theorem Answers.run_evaluateWith_of_failed {name : String} {later : List String} {error : Error}
    {after : σ} (h : supply.Answers state answers last)
    (hnames : expr.unknowns = answers.map Prod.fst ++ name :: later)
    (hfailed : supply.call name last = (.error error, after)) :
    (evaluateWith supply source).run.run state = (.error error, after) := by
  rw [Supplier.run_evaluateWith hcompile, hnames, h.run_fill, run_fill_cons, hfailed]

end

/-- The value of an expression is the same in all contexts that hold the answers for all its names,
and there is one. -/
theorem exists_value_of_answers {expr : Expr} (hall : answers.map Prod.fst = expr.unknowns) :
    ∃ result, expr.value (Context.empty.insertAll answers) = .ok result ∧
      ∀ context : Context, context.angleUnit = .radians →
        (∀ answer ∈ answers, context.get? answer.1 = some answer.2) →
        expr.value context = .ok result := by
  have hanswer (name : String) (hname : name ∈ expr.occurrences) : name ∈ answers.map Prod.fst := by
    rwa [hall, expr.firstOccurrences_unknowns.mem_iff]
  obtain ⟨result, hresult⟩ := Expr.exists_value_insertAll hanswer Context.empty
  refine ⟨result, hresult, fun context hunit hcontext ↦ ?_⟩
  rw [← hresult]
  refine Expr.value_congr_of_get? ?_ fun name hname ↦ ?_
  · rw [hunit, Context.angleUnit_insertAll]
    rfl
  · obtain ⟨answer, hmem, rfl⟩ := List.mem_map.1 (hanswer name hname)
    have hnodup : (answers.map Prod.fst).Nodup := hall ▸ expr.firstOccurrences_unknowns.nodup
    rw [hcontext answer hmem, Context.get?_insertAll, lastValue?_of_mem hnodup hmem,
      Option.some_or]

/-- A source that does not compile leaves the supplier alone. Otherwise it is asked for the names
that need a value, each once and in the order of their first occurrences, up to the first one for
which it fails, and its error is the outcome. If it answers for all of them, the outcome is the
value of the expression in every context that holds the answers. -/
theorem evaluateWith_asks_for_unknowns (supply : Supplier σ) (source : String) (state : σ) :
    let outcome := (evaluateWith supply source).run.run state
    let noted := (evaluateWith supply.noting source).run.run (state, [])
    (∀ error, (compile source).result = .error error →
      outcome = (.error error, state) ∧ noted = (.error error, state, [])) ∧
    ∀ expr, (compile source).result = .ok expr →
      FirstOccurrences expr.unknowns expr.occurrences ∧
      ((∃ answers last result, supply.Answers state answers last ∧
          answers.map Prod.fst = expr.unknowns ∧
          outcome = (.ok result, last) ∧ noted = (.ok result, last, expr.unknowns) ∧
          ∀ context : Context, context.angleUnit = .radians →
            (∀ answer ∈ answers, context.get? answer.1 = some answer.2) →
            expr.value context = .ok result) ∨
        ∃ answers middle name error last, supply.Answers state answers middle ∧
          answers.map Prod.fst ++ [name] <+: expr.unknowns ∧
          supply.call name middle = (.error error, last) ∧
          outcome = (.error error, last) ∧
          noted = (.error error, last, answers.map Prod.fst ++ [name])) := by
  intro outcome noted
  refine ⟨fun error hcompile ↦ ?_, fun expr hcompile ↦ ⟨expr.firstOccurrences_unknowns, ?_⟩⟩
  · simp only [outcome, noted, evaluateWith, hcompile]
    exact ⟨rfl, rfl⟩
  · obtain ⟨answers, last, hanswers, hall | ⟨name, later, error, after, hnames, hfailed⟩⟩ :=
      supply.exists_answers expr.unknowns state
    · left
      obtain ⟨result, hresult, hvalue⟩ := exists_value_of_answers hall
      refine ⟨answers, last, result, hanswers, hall,
        hanswers.run_evaluateWith hcompile hall hresult, ?_, hvalue⟩
      have hnoted := (hanswers.noting []).run_evaluateWith hcompile hall hresult
      rwa [List.nil_append, hall] at hnoted
    · right
      refine ⟨answers, last, name, error, after, hanswers, ⟨later, ?_⟩, hfailed,
        hanswers.run_evaluateWith_of_failed hcompile hnames hfailed, ?_⟩
      · rw [hnames, List.append_assoc]
        rfl
      · have hcall : supply.noting.call name (last, [] ++ answers.map Prod.fst) =
            (.error error, after, answers.map Prod.fst ++ [name]) := by
          rw [call_noting, hfailed]
          rfl
        exact (hanswers.noting []).run_evaluateWith_of_failed hcompile hnames hcall

/-- A supplier that counts its calls: a name that occurs twice is asked for once, a constant not at
all. -/
theorem evaluateWith_asks_for_unknowns_twice :
    let supply : Supplier Nat := fun _ ↦ ExceptT.mk fun count ↦ (.ok 2, count + 1)
    (compile "x * pi + y + x").result.isOk ∧ ∃ result last,
      (evaluateWith supply.noting "x * pi + y + x").run.run (0, []) =
        (.ok result, last, ["x", "y"]) := by
  intro supply
  let join (left : Expr) (operator : Operator) (right : String) : Expr :=
    .binary (.subexpression left) operator (.subexpression (.identifier right))
  have hcompile : (compile "x * pi + y + x").result =
      .ok (join (join (join (.identifier "x") .multiply "pi") .add "y") .add "x") := by
    with_unfolding_all rfl
  obtain ⟨-, hcases⟩ := evaluateWith_asks_for_unknowns supply "x * pi + y + x" 0
  refine ⟨by rw [hcompile]; rfl, ?_⟩
  obtain ⟨-, ⟨_, last, result, -, -, -, hnoted, -⟩ | ⟨_, _, _, _, _, -, -, hfailed, -⟩⟩ :=
    hcases _ hcompile
  · exact ⟨result, last, hnoted⟩
  · cases hfailed

end Supplier

end Formula
