import Formula.Proofs.Prompting
import Formula.Proofs.SupplierCalls

/-!
# Supplying values

The values of an expression's variables come from lines that are asked for, once for each name or
once for each occurrence, from a supplier that is asked, or from a list that is bound to the names
of the occurrences. All of them write to a context, and what it is read as afterwards is the same.
-/

namespace Formula

/-- What is left to read supplies these values if each of them is asked for until a line is a
number, when so many writes were tried before. More input may follow. -/
inductive Input.Supplies (failure : Stream → Nat → Option String) :
    List Input → Nat → List Float → Prop where
  | nothing {unread : List Input} {writes : Nat} : Supplies failure unread writes []
  | number {line : String} {rest : List Input} {writes : Nat} {value : Float} {values : List Float}
      (hvalue : Decimal.readFloat? (Text.trim line) = some value)
      (hlater : Supplies failure rest writes values) :
      Supplies failure (.line line :: rest) writes (value :: values)
  | other {line : String} {rest : List Input} {writes : Nat} {value : Float} {values : List Float}
      (hvalue : Decimal.readFloat? (Text.trim line) = none) (hwrite : failure .err writes = none)
      (hagain : Supplies failure rest (writes + 1) (value :: values)) :
      Supplies failure (.line line :: rest) writes (value :: values)

def Console.Supplies (console : Console) (values : List Float) : Prop :=
  Input.Supplies console.failure console.unread console.writes values

namespace Session

variable {names : List String} {values : List Float}

/-- A console that has the values supplies them to all names. -/
theorem fill_askValue {console : Console} (hsupplies : console.Supplies values)
    (hlength : values.length = names.length) (context : Context) :
    (context.fill askValue names console).1 = .ok (context.insertAll (names.zip values)) := by
  obtain ⟨unread, failure, writes, record⟩ := console
  change Input.Supplies failure unread writes values at hsupplies
  induction hsupplies generalizing context names record with
  | nothing =>
    rw [List.eq_nil_of_length_eq_zero hlength.symm]
    rfl
  | number hvalue _ ih =>
    cases names with
    | nil => cases hlength
    | cons name later =>
      rw [fill_of_accepted context name later rfl hvalue]
      exact ih (Nat.succ.inj hlength) (context.insert name _) _
  | @other line rest writes _ _ hvalue hwrite _ ih =>
    cases names with
    | nil => cases hlength
    | cons name later =>
      let asked : Console := ⟨rest, failure, writes, .prompt (valuePrompt name) :: record⟩
      have hwritten : Dialogue.complain (rejection line) asked =
          (.ok (), asked.told .err (rejection line ++ "\n")) :=
        Dialogue.write_of_none hwrite _
      have hreject : reject line asked = (.ok (), asked.told .err (rejection line ++ "\n")) :=
        Dialogue.mapError_eq hwritten
      rw [fill_of_rejected context name later rfl hvalue]
      refine (congrArg Prod.fst (Dialogue.bind_ok hreject _)).trans ?_
      exact ih hlength context _

/-- An evaluation reports on the context that the values from the console are written to. -/
theorem evaluateOnce_of_supplies {settings : Settings} {source : String} {expr : Expr}
    {console : Console} {context : Context} {result : Float}
    (hcompile : (compile source).result = .ok expr) (hsupplies : console.Supplies values)
    (hlength : values.length = (asked settings expr).length)
    (hcontext : (Context.empty.withAngleUnit settings.angleUnit).insertAll
      ((asked settings expr).zip values) = context)
    (hvalue : expr.value context = .ok result) :
    (evaluateOnce settings source console).1 =
      .ok (.ofContext expr context result settings.showsBindings) := by
  let compiled := Dialogue.perform ((compile source).mapError SessionError.expression)
  have hexpr : (compiled console).1 = .ok expr := congrArg (Except.mapError _) hcompile
  have hleft : (compiled console).2.Supplies values := hsupplies
  have hfill := fill_askValue hleft hlength (Context.empty.withAngleUnit settings.angleUnit)
  rw [hcontext] at hfill
  have hresult (after : Console) : (Dialogue.perform ((expr.evaluate context).mapError fun error ↦
      SessionError.expression (.evaluation error)) after).1 = .ok result :=
    congrArg (Except.mapError _) hvalue
  unfold evaluateOnce
  rw [Dialogue.bind_of_ok hexpr, Dialogue.bind_of_ok hfill, Dialogue.bind_of_ok (hresult _)]
  rfl

end Session

section

variable {σ : Type} {supply : String → ExceptT Error (StateM σ) Float} {value : String → Float}
  {names : List String}

/-- A supplier may answer from a state and change it, provided that it always answers a name with
the same value. -/
theorem Supplier.exists_answers_of_value
    (hsupply : ∀ name ∈ names, ∀ state, ((supply name).run.run state).1 = .ok (value name))
    (state : σ) : ∃ last, Answers supply state (names.zip (names.map value)) last := by
  induction names generalizing state with
  | nil => exact ⟨state, .nothing⟩
  | cons name later ih =>
    have ⟨hname, hlater⟩ := List.forall_mem_cons.1 hsupply
    obtain ⟨last, hanswers⟩ := ih hlater (call supply name state).2
    exact ⟨last, .value (Prod.ext (hname state) rfl) hanswers⟩

/-- A supplier that knows every name leads to the value in the context of its answers. -/
theorem evaluateWith_of_supply {source : String} {expr : Expr} {context : Context} {result : Float}
    (hcompile : (compile source).result = .ok expr) (hnames : expr.unknowns = names)
    (hsupply : ∀ name ∈ names, ∀ state, ((supply name).run.run state).1 = .ok (value name))
    (hcontext : Context.empty.insertAll (names.zip (names.map value)) = context)
    (hvalue : expr.value context = .ok result) (state : σ) :
    ((evaluateWith supply source).run.run state).1 = .ok result := by
  obtain ⟨last, hanswers⟩ := Supplier.exists_answers_of_value hsupply state
  have hall : (names.zip (names.map value)).map Prod.fst = expr.unknowns := by
    rw [hnames, List.map_fst_zip (Nat.le_of_eq (List.length_map value).symm)]
  rw [hanswers.run_evaluateWith hcompile hall (hcontext ▸ hvalue)]

end

theorem Report.ofContext_congr {context other : Context}
    (h : ∀ name, context.get? name = other.get? name) (expr : Expr) (result : Float)
    (showsBindings : Bool) :
    ofContext expr context result showsBindings = ofContext expr other result showsBindings := by
  simp only [ofContext, h]

/-- All ways to supply values agree. For every expression and all values of the occurrences of its
names, an evaluation that asks for each occurrence reports the same as one that asks once for each
name, in the order of first occurrences, and is given its last value. With angles in radians the
result is that of asking a supplier for the last values, and of binding the names of the
occurrences to the values. -/
theorem Session.supplied_values_agree (settings : Settings) {source : String} {expr : Expr}
    {values : List Float} (hcompile : (compile source).result = .ok expr)
    (hlength : values.length = expr.occurrences.length) :
    ∃ (last : String → Float) (report : Report),
      (∀ name ∈ expr.occurrences,
        lastValue? (expr.occurrences.zip values) name = some (last name)) ∧
      report.expression = expr ∧
      (∀ console : Console, console.Supplies values →
        (evaluateOnce { settings with prompting := .everyOccurrence } source console).1 =
          .ok report) ∧
      (∀ console : Console, console.Supplies (expr.occurrences.eraseDups.map last) →
        (evaluateOnce { settings with prompting := .oncePerName } source console).1 =
          .ok report) ∧
      (settings.angleUnit = .radians →
        (∀ (σ : Type) (supply : String → ExceptT Error (StateM σ) Float),
          (∀ name ∈ expr.occurrences, ∀ state,
            ((supply name).run.run state).1 = .ok (last name)) →
          ∀ state, ((evaluateWith supply source).run.run state).1 = .ok report.result) ∧
        ∃ context, Context.bind? expr.occurrences values = .ok context ∧
          expr.value context = .ok report.result) := by
  obtain ⟨last, hlast⟩ := exists_lastValue?_zip hlength
  let start := Context.empty.withAngleUnit settings.angleUnit
  let every := start.insertAll (expr.occurrences.zip values)
  let once := start.insertAll
    (expr.occurrences.eraseDups.zip (expr.occurrences.eraseDups.map last))
  have hsame (name : String) : once.get? name = every.get? name := by
    rw [Context.get?_insertAll, Context.get?_insertAll, lastValue?_eraseDups hlength hlast]
  obtain ⟨result, hevery⟩ : ∃ result, expr.value every = .ok result := by
    refine Expr.exists_value fun name hname ↦ ?_
    rw [Context.get?_insertAll, hlast name hname]
    rfl
  have honce : expr.value once = .ok result := by
    have hunit : once.angleUnit = every.angleUnit := by
      rw [Context.angleUnit_insertAll, Context.angleUnit_insertAll]
    rw [← hevery]
    exact Expr.value_congr hunit expr fun name _ ↦ Context.resolve_congr (hsame name)
  refine ⟨last, .ofContext expr every result settings.showsBindings, hlast, rfl, ?_, ?_, ?_⟩
  · intro console hsupplies
    exact evaluateOnce_of_supplies hcompile hsupplies hlength rfl hevery
  · intro console hsupplies
    have hasked : asked { settings with prompting := .oncePerName } expr =
        expr.occurrences.eraseDups := expr.unknowns_eq
    rw [← Report.ofContext_congr hsame]
    apply evaluateOnce_of_supplies hcompile hsupplies _ _ honce
    · rw [hasked, List.length_map]
    · rw [hasked]
  · intro hradians
    have hstart : start = Context.empty := congrArg Context.empty.withAngleUnit hradians
    refine ⟨fun σ supply hsupply state ↦ ?_, every, ?_, hevery⟩
    · have hanswers : ∀ name ∈ expr.occurrences.eraseDups, ∀ state,
          ((supply name).run.run state).1 = .ok (last name) :=
        fun name hname ↦ hsupply name (List.mem_eraseDups.1 hname)
      exact evaluateWith_of_supply hcompile expr.unknowns_eq hanswers
        (congrArg (Context.insertAll · _) hstart.symm) honce state
    · rw [Context.bind?, if_pos hlength.symm, Context.ofList_eq_insertAll, ← hstart]

/-- A name that occurs twice, around a constant: its second value counts, and one line that is no
number is passed over. -/
theorem Session.supplied_values_agree_twice :
    ∃ report : Report,
      (evaluateOnce { prompting := .everyOccurrence } "x + pi + x"
        (.ofInput [.line "1", .line "two", .line "3"] fun _ _ ↦ none)).1 = .ok report ∧
      (evaluateOnce {} "x + pi + x" (.ofInput [.line "3"] fun _ _ ↦ none)).1 = .ok report := by
  let sum (left : Expr) (right : String) : Expr :=
    .binary (.subexpression left) .add (.subexpression (.identifier right))
  have hcompile : (compile "x + pi + x").result =
      .ok (sum (sum (.identifier "x") "pi") "x") := by with_unfolding_all rfl
  obtain ⟨one, hone⟩ : ∃ value, Decimal.readFloat? (Text.trim "1") = some value :=
    Option.isSome_iff_exists.1 (by rfl)
  obtain ⟨three, hthree⟩ : ∃ value, Decimal.readFloat? (Text.trim "3") = some value :=
    Option.isSome_iff_exists.1 (by rfl)
  have hlength : [one, three].length = (sum (sum (.identifier "x") "pi") "x").occurrences.length :=
    rfl
  obtain ⟨last, report, hlast, -, hevery, honce, -⟩ := supplied_values_agree {} hcompile hlength
  have hx : last "x" = three := (Option.some.inj (hlast "x" List.mem_cons_self)).symm
  refine ⟨report, hevery _ ?_, honce _ ?_⟩
  · exact .number hone (.other rfl rfl (.number hthree .nothing))
  · have hvalues : [last "x"] = [three] := by rw [hx]
    change Input.Supplies _ _ _ [last "x"]
    rw [hvalues]
    exact .number hthree .nothing

end Formula
