import Formula.ParseTree

/-!
# The order of a walk

A visitor may keep a state, give anything for a construct and fail at any of them. A walk through a
tree calls it once for each construct that is no group, children from left to right before their
parent and an index before its radicand, until the first failure. Each call is given what the calls
for the children of its construct returned, and the last call decides what the walk comes to.
-/

namespace Formula

universe u v

/-- A construct other than a group, with something in the place of each of its children. -/
inductive Construct (α : Type u) where
  | number (text : String) (position : Nat)
  | identifier (name : String) (position : Nat)
  | fraction (numerator denominator : α) (position : Nat)
  | call (keyword : String) (argument : α) (position : Nat)
  | root (index : Option α) (radicand : α) (position : Nat)
  | binary (left : α) (operator : Token) (right : α) (position : Nat)
  | negation (operand : α) (position : Nat)
  | factorial (operand : α) (position : Nat)
deriving DecidableEq

def Construct.map {α : Type u} {β : Type v} (f : α → β) : Construct α → Construct β
  | number text position => .number text position
  | identifier name position => .identifier name position
  | fraction numerator denominator position => .fraction (f numerator) (f denominator) position
  | call keyword argument position => .call keyword (f argument) position
  | root index radicand position => .root (index.map f) (f radicand) position
  | binary left operator right position => .binary (f left) operator (f right) position
  | negation operand position => .negation (f operand) position
  | factorial operand position => .factorial (f operand) position

namespace ParseTree

/-- The constructs of a tree in the order of a walk that has visited `earlier` others before. In the
place of a child stands its place in the order; a group has the place of what is inside it. -/
def visitsFrom (earlier : Nat) : ParseTree → List (Construct Nat)
  | number text position => [.number text position]
  | identifier name position => [.identifier name position]
  | fraction numerator denominator position =>
    let first := numerator.visitsFrom earlier
    let second := denominator.visitsFrom (earlier + first.length)
    first ++ (second ++ [.fraction (earlier + first.length - 1)
      (earlier + first.length + second.length - 1) position])
  | call keyword argument position =>
    let inner := argument.visitsFrom earlier
    inner ++ [.call keyword (earlier + inner.length - 1) position]
  | squareRoot radicand position =>
    let inner := radicand.visitsFrom earlier
    inner ++ [.root none (earlier + inner.length - 1) position]
  | root index radicand position =>
    let first := index.visitsFrom earlier
    let second := radicand.visitsFrom (earlier + first.length)
    first ++ (second ++
      [.root (some (earlier + first.length - 1)) (earlier + first.length + second.length - 1)
        position])
  | binary left operator right position =>
    let first := left.visitsFrom earlier
    let second := right.visitsFrom (earlier + first.length)
    first ++ (second ++
      [.binary (earlier + first.length - 1) operator (earlier + first.length + second.length - 1)
        position])
  | negation operand position =>
    let inner := operand.visitsFrom earlier
    inner ++ [.negation (earlier + inner.length - 1) position]
  | factorial operand position =>
    let inner := operand.visitsFrom earlier
    inner ++ [.factorial (earlier + inner.length - 1) position]
  | group inner => inner.visitsFrom earlier

/-- The constructs of a tree in the order of a walk. -/
def visits (tree : ParseTree) : List (Construct Nat) :=
  tree.visitsFrom 0

/-- An index before its radicand, and a group that is gone. -/
example :
    (binary (group (root (number "3" 6) (identifier "c" 9) 1)) .star (negation (number "2" 14) 13)
        11).visits =
      [.number "3" 6, .identifier "c" 9, .root (some 0) 1 1, .number "2" 14, .negation 3 13,
        .binary 2 .star 4 11] := by
  decide

/-! ## Visitors -/

section

variable {m : Type u → Type v} {α : Type u}

/-- What an algebra turns a construct into. -/
def Algebra.visit (algebra : Algebra m α) : Construct α → m α
  | .number text position => algebra.number text position
  | .identifier name position => algebra.identifier name position
  | .fraction numerator denominator position => algebra.fraction numerator denominator position
  | .call keyword argument position => algebra.call keyword argument position
  | .root index radicand position => algebra.root index radicand position
  | .binary left operator right position => algebra.binary left operator right position
  | .negation operand position => algebra.negation operand position
  | .factorial operand position => algebra.factorial operand position

def Algebra.ofVisit (visit : Construct α → m α) : Algebra m α where
  number text position := visit (.number text position)
  identifier name position := visit (.identifier name position)
  fraction numerator denominator position := visit (.fraction numerator denominator position)
  call keyword argument position := visit (.call keyword argument position)
  root index radicand position := visit (.root index radicand position)
  binary left operator right position := visit (.binary left operator right position)
  negation operand position := visit (.negation operand position)
  factorial operand position := visit (.factorial operand position)

end

/-- Gives an output for each construct or fails, from a state that it may change. -/
abbrev Visitor (σ ε α : Type u) := Algebra (ExceptT ε (StateM σ)) α

/-- A call of a visitor: the construct with the outputs for its children, and what was returned. -/
structure Call (ε α : Type u) where
  construct : Construct α
  outcome : Except ε α

variable {σ ε α : Type u}

namespace Visitor

def run (visitor : Visitor σ ε α) (construct : Construct α) (state : σ) : Except ε α × σ :=
  (visitor.visit construct).run.run state

def noting (visitor : Visitor σ ε α) : Visitor (σ × List (Call ε α)) ε α :=
  .ofVisit fun construct ↦ ExceptT.mk fun (state, noted) ↦
    let (outcome, next) := visitor.run construct state
    (outcome, next, noted ++ [⟨construct, outcome⟩])

/-- From one state to another the visitor is called like this. -/
inductive Makes (visitor : Visitor σ ε α) : σ → List (Call ε α) → σ → Prop where
  | nothing {state : σ} : Makes visitor state [] state
  | call {state next last : σ} {construct : Construct α} {outcome : Except ε α}
      {later : List (Call ε α)} (hcall : visitor.run construct state = (outcome, next))
      (hlater : Makes visitor next later last) :
      Makes visitor state (⟨construct, outcome⟩ :: later) last

theorem Makes.append {visitor : Visitor σ ε α} {state middle last : σ}
    {first second : List (Call ε α)} (hfirst : visitor.Makes state first middle)
    (hsecond : visitor.Makes middle second last) :
    visitor.Makes state (first ++ second) last := by
  induction hfirst with
  | nothing => exact hsecond
  | call hcall _ ih => exact .call hcall (ih hsecond)

end Visitor

/-- What the call at this place returned, if there was one and it did not fail. -/
def output? (calls : List (Call ε α)) (place : Nat) : Option α :=
  calls[place]?.bind fun call ↦ call.outcome.toOption

/-- The calls go through the constructs after earlier calls. Each is given the outputs of the calls
at the places of its children; the first that fails is the last, and without one none is missing. -/
structure Follow (earlier : List (Call ε α)) (visits : List (Construct Nat))
    (calls : List (Call ε α)) : Prop where
  given {place : Nat} {call : Call ε α} (h : calls[place]? = some call) :
    ∃ construct, visits[place]? = some construct ∧
      construct.map (output? (earlier ++ calls.take place)) = call.construct.map some
  stop {place : Nat} {call : Call ε α} {error : ε} (h : calls[place]? = some call)
    (hfailed : call.outcome = .error error) : calls.length = place + 1
  complete (h : ∀ call ∈ calls, ∃ output, call.outcome = .ok output) :
    calls.length = visits.length

theorem getElem?_append_of_some {β : Type v} {list : List β} {place : Nat} {element : β}
    (h : list[place]? = some element) (more : List β) : (list ++ more)[place]? = some element := by
  obtain ⟨hlt, -⟩ := List.getElem?_eq_some_iff.1 h
  rwa [List.getElem?_append_left hlt]

theorem output?_append {earlier : List (Call ε α)} {place : Nat} {output : α}
    (h : output? earlier place = some output) (later : List (Call ε α)) :
    output? (earlier ++ later) place = some output := by
  obtain ⟨call, hcall, houtput⟩ := Option.bind_eq_some_iff.1 h
  exact Option.bind_eq_some_iff.2 ⟨call, getElem?_append_of_some hcall later, houtput⟩

/-- What a series of calls comes to is what its last call returned. -/
def EndsWith (calls : List (Call ε α)) (outcome : Except ε α) : Prop :=
  ∃ call, calls.getLast? = some call ∧ call.outcome = outcome

theorem EndsWith.output? {calls : List (Call ε α)} {output : α} (h : EndsWith calls (.ok output)) :
    output? calls (calls.length - 1) = some output := by
  obtain ⟨call, hlast, houtcome⟩ := h
  rw [ParseTree.output?, ← List.getLast?_eq_getElem?, hlast, Option.bind_some, houtcome]
  rfl

theorem EndsWith.append (first : List (Call ε α)) {second : List (Call ε α)}
    {outcome : Except ε α} (h : EndsWith second outcome) : EndsWith (first ++ second) outcome := by
  obtain ⟨call, hlast, houtcome⟩ := h
  exact ⟨call, by rw [List.getLast?_append, hlast, Option.some_or], houtcome⟩

namespace Follow

variable {earlier calls later : List (Call ε α)} {first second : List (Construct Nat)}

theorem single {construct : Construct Nat} {given : Construct α}
    (h : construct.map (output? earlier) = given.map some) (outcome : Except ε α) :
    Follow earlier [construct] [⟨given, outcome⟩] where
  given := by
    intro place call hcall
    obtain ⟨rfl, rfl⟩ : place = 0 ∧ (⟨given, outcome⟩ : Call ε α) = call := by
      simpa [List.getElem?_singleton] using hcall
    exact ⟨construct, rfl, by simpa using h⟩
  stop := by
    intro place call error hcall _
    obtain ⟨rfl, -⟩ : place = 0 ∧ (⟨given, outcome⟩ : Call ε α) = call := by
      simpa [List.getElem?_singleton] using hcall
    rfl
  complete _ := rfl

/-- Calls that end well have not failed before. -/
theorem exists_output (h : Follow earlier first calls) {output : α}
    (hends : EndsWith calls (.ok output)) :
    ∀ call ∈ calls, ∃ output, call.outcome = .ok output := by
  intro call hmem
  obtain ⟨place, hcall⟩ := List.mem_iff_getElem?.1 hmem
  cases houtcome : call.outcome with
  | ok output => exact ⟨output, rfl⟩
  | error error =>
    obtain ⟨last, hlast, hok⟩ := hends
    have hlength := h.stop hcall houtcome
    rw [List.getLast?_eq_getElem?, hlength, Nat.add_sub_cancel, hcall] at hlast
    obtain rfl : call = last := Option.some.inj hlast
    rw [houtcome] at hok
    cases hok

/-- After calls that ended well the next ones go on with the next constructs. -/
theorem append {output : α} (h : Follow earlier first calls) (hends : EndsWith calls (.ok output))
    (hlater : Follow (earlier ++ calls) second later) :
    Follow earlier (first ++ second) (calls ++ later) := by
  have houtputs := h.exists_output hends
  have hlength := h.complete houtputs
  refine ⟨?_, ?_, ?_⟩
  · intro place call hcall
    rcases Nat.lt_or_ge place calls.length with hlt | hge
    · rw [List.getElem?_append_left hlt] at hcall
      obtain ⟨construct, hconstruct, hgiven⟩ := h.given hcall
      refine ⟨construct, getElem?_append_of_some hconstruct second, ?_⟩
      rwa [List.take_append_of_le_length (Nat.le_of_lt hlt)]
    · rw [List.getElem?_append_right hge] at hcall
      obtain ⟨construct, hconstruct, hgiven⟩ := hlater.given hcall
      refine ⟨construct, ?_, ?_⟩
      · rwa [List.getElem?_append_right (hlength ▸ hge), ← hlength]
      · rwa [List.take_append, List.take_of_length_le hge, ← List.append_assoc]
  · intro place call error hcall hfailed
    rcases Nat.lt_or_ge place calls.length with hlt | hge
    · rw [List.getElem?_append_left hlt] at hcall
      obtain ⟨output, houtput⟩ := houtputs call (List.mem_of_getElem? hcall)
      rw [hfailed] at houtput
      cases houtput
    · rw [List.getElem?_append_right hge] at hcall
      rw [List.length_append, hlater.stop hcall hfailed]
      omega
  · intro hall
    have hcomplete := hlater.complete fun call hmem ↦ hall call (List.mem_append_right _ hmem)
    rw [List.length_append, List.length_append, hlength, hcomplete]

/-- After a failure nothing is called. -/
theorem append_of_error {error : ε} (h : Follow earlier first calls)
    (hends : EndsWith calls (.error error)) (second : List (Construct Nat)) :
    Follow earlier (first ++ second) calls := by
  refine ⟨?_, h.stop, ?_⟩
  · intro place call hcall
    obtain ⟨construct, hconstruct, hgiven⟩ := h.given hcall
    exact ⟨construct, getElem?_append_of_some hconstruct second, hgiven⟩
  · intro hall
    obtain ⟨last, hlast, hfailed⟩ := hends
    obtain ⟨output, houtput⟩ := hall last (List.mem_of_getLast? hlast)
    rw [hfailed] at houtput
    cases houtput

end Follow

/-- A computation of a visitor, and the one of the visitor that notes its calls, make the same calls
and come to the outcome of the last one. The calls follow the constructs after earlier calls. -/
def Performs (visitor : Visitor σ ε α) (earlier : List (Call ε α)) (visits : List (Construct Nat))
    (plain : ExceptT ε (StateM σ) α) (noted : ExceptT ε (StateM (σ × List (Call ε α))) α) : Prop :=
  ∀ state, ∃ calls outcome last,
    plain.run.run state = (outcome, last) ∧
    noted.run.run (state, earlier) = (outcome, last, earlier ++ calls) ∧
    visitor.Makes state calls last ∧ Follow earlier visits calls ∧ EndsWith calls outcome

section

variable {visitor : Visitor σ ε α} {earlier : List (Call ε α)} {first second : List (Construct Nat)}

/-- One call on outputs that are known performs one construct. -/
theorem performs_visit {construct : Construct Nat} (given : Construct α)
    (h : construct.map (output? earlier) = given.map some) :
    Performs visitor earlier [construct] (visitor.visit given) (visitor.noting.visit given) := by
  intro state
  refine ⟨[⟨given, (visitor.run given state).1⟩], _, (visitor.run given state).2, rfl, ?_,
    .call rfl .nothing, .single h _, ⟨_, rfl, rfl⟩⟩
  cases given <;> rfl

/-- A second part that performs with what the first has made known performs after it. -/
theorem Performs.bind {plain : ExceptT ε (StateM σ) α}
    {noted : ExceptT ε (StateM (σ × List (Call ε α))) α}
    {next : α → ExceptT ε (StateM σ) α}
    {notedNext : α → ExceptT ε (StateM (σ × List (Call ε α))) α}
    (h : Performs visitor earlier first plain noted)
    (hnext : ∀ (known : List (Call ε α)) (output : α), earlier <+: known →
      known.length = earlier.length + first.length →
      output? known (known.length - 1) = some output →
      Performs visitor known second (next output) (notedNext output)) :
    Performs visitor earlier (first ++ second) (plain >>= next) (noted >>= notedNext) := by
  intro state
  obtain ⟨calls, outcome, middle, hplain, hnoted, hmakes, hfollow, hends⟩ := h state
  rw [ExceptT.run_bind, StateT.run_bind, ExceptT.run_bind, StateT.run_bind, hplain, hnoted]
  cases outcome with
  | error error =>
    exact ⟨calls, .error error, middle, rfl, rfl, hmakes, hfollow.append_of_error hends second,
      hends⟩
  | ok output =>
    have hlength : (earlier ++ calls).length = earlier.length + first.length := by
      rw [List.length_append, hfollow.complete (hfollow.exists_output hends)]
    obtain ⟨later, result, last, hplain', hnoted', hmakes', hfollow', hends'⟩ :=
      hnext (earlier ++ calls) output (List.prefix_append _ _) hlength
        (hends.append earlier).output? middle
    rw [List.append_assoc] at hnoted'
    exact ⟨calls ++ later, result, last, hplain', hnoted', hmakes.append hmakes',
      hfollow.append hends hfollow', hends'.append calls⟩

/-- The walks through a tree, after any earlier calls, follow its order. -/
def Walks (visitor : Visitor σ ε α) (tree : ParseTree) : Prop :=
  ∀ earlier : List (Call ε α), Performs visitor earlier (tree.visitsFrom earlier.length)
    (tree.foldM visitor) (tree.foldM visitor.noting)

/-- A construct is visited after its child and given the output of the child. -/
theorem Walks.parent {child : ParseTree} (h : Walks visitor child)
    (construct : Nat → Construct Nat) (given : α → Construct α)
    (hgiven : ∀ (f : Nat → Option α) (place : Nat) (output : α), f place = some output →
      (construct place).map f = (given output).map some) :
    Performs visitor earlier
      (let inner := child.visitsFrom earlier.length
       inner ++ [construct (earlier.length + inner.length - 1)])
      (child.foldM visitor >>= fun output ↦ visitor.visit (given output))
      (child.foldM visitor.noting >>= fun output ↦ visitor.noting.visit (given output)) := by
  refine (h earlier).bind fun known output _ hlength houtput ↦ performs_visit (given output) ?_
  rw [hlength] at houtput
  exact hgiven _ _ _ houtput

/-- A construct is visited after both of its children and given their outputs. -/
theorem Walks.parent₂ {left right : ParseTree} (hleft : Walks visitor left)
    (hright : Walks visitor right) (construct : Nat → Nat → Construct Nat)
    (given : α → α → Construct α)
    (hgiven : ∀ (f : Nat → Option α) (place place' : Nat) (l r : α), f place = some l →
      f place' = some r → (construct place place').map f = (given l r).map some) :
    Performs visitor earlier
      (let first := left.visitsFrom earlier.length
       let second := right.visitsFrom (earlier.length + first.length)
       first ++ (second ++ [construct (earlier.length + first.length - 1)
          (earlier.length + first.length + second.length - 1)]))
      (left.foldM visitor >>= fun l ↦ right.foldM visitor >>= fun r ↦ visitor.visit (given l r))
      (left.foldM visitor.noting >>= fun l ↦
        right.foldM visitor.noting >>= fun r ↦ visitor.noting.visit (given l r)) := by
  refine (hleft earlier).bind fun known l _ hlength hl ↦ ?_
  rw [← hlength]
  refine (hright known).bind fun known' r hstart hlength' hr ↦ performs_visit (given l r) ?_
  obtain ⟨later, rfl⟩ := hstart
  rw [hlength'] at hr
  exact hgiven _ _ _ _ _ (output?_append hl later) hr

end

/-- Every walk follows the order of its tree. -/
theorem walks (visitor : Visitor σ ε α) (tree : ParseTree) : Walks visitor tree := by
  induction tree with
  | number text position => exact fun _ ↦ performs_visit (.number text position) rfl
  | identifier name position => exact fun _ ↦ performs_visit (.identifier name position) rfl
  | fraction numerator denominator position ihn ihd =>
    exact fun _ ↦ ihn.parent₂ ihd (.fraction · · position) (.fraction · · position)
      fun f place place' n d hn hd ↦ by simp only [Construct.map, hn, hd]
  | call keyword argument position ih =>
    exact fun _ ↦ ih.parent (.call keyword · position) (.call keyword · position)
      fun f place a ha ↦ by simp only [Construct.map, ha]
  | squareRoot radicand position ih =>
    exact fun _ ↦ ih.parent (.root none · position) (.root none · position)
      fun f place r hr ↦ by simp only [Construct.map, hr, Option.map_none]
  | root index radicand position ihi ihr =>
    exact fun _ ↦ ihi.parent₂ ihr (fun i r ↦ .root (some i) r position)
      (fun i r ↦ .root (some i) r position)
      fun f place place' i r hi hr ↦ by simp only [Construct.map, Option.map_some, hi, hr]
  | binary left operator right position ihl ihr =>
    exact fun _ ↦ ihl.parent₂ ihr (.binary · operator · position) (.binary · operator · position)
      fun f place place' l r hl hr ↦ by simp only [Construct.map, hl, hr]
  | negation operand position ih =>
    exact fun _ ↦ ih.parent (.negation · position) (.negation · position)
      fun f place x hx ↦ by simp only [Construct.map, hx]
  | factorial operand position ih =>
    exact fun _ ↦ ih.parent (.factorial · position) (.factorial · position)
      fun f place x hx ↦ by simp only [Construct.map, hx]
  | group inner ih => exact ih

/-- A walk calls the visitor for the constructs of a tree in their order, in one state after the
other, each time with what the calls for the children returned. If a call fails it is the last one
and the walk comes to its error. If none does, every construct has been visited, and the walk comes
to what the last call returned. -/
theorem foldM_visits_in_order (tree : ParseTree) (visitor : Visitor σ ε α) (state : σ) :
    ∃ (calls : List (Call ε α)) (outcome : Except ε α) (last : σ),
      (tree.foldM visitor).run.run state = (outcome, last) ∧
      (tree.foldM visitor.noting).run.run (state, []) = (outcome, last, calls) ∧
      visitor.Makes state calls last ∧
      (∀ place (call : Call ε α), calls[place]? = some call →
        ∃ construct : Construct Nat, tree.visits[place]? = some construct ∧
          construct.map (output? (calls.take place)) = call.construct.map some) ∧
      (∀ place (call : Call ε α) error, calls[place]? = some call → call.outcome = .error error →
        calls.length = place + 1 ∧ outcome = .error error) ∧
      ((∀ call ∈ calls, ∃ output, call.outcome = .ok output) →
        calls.length = tree.visits.length ∧
          ∃ call, calls.getLast? = some call ∧ call.outcome = outcome) := by
  obtain ⟨calls, outcome, last, hplain, hnoted, hmakes, hfollow, hends⟩ :=
    walks visitor tree [] state
  refine ⟨calls, outcome, last, hplain, hnoted, hmakes, fun place call hcall ↦ hfollow.given hcall,
    fun place call error hcall hfailed ↦ ?_, fun hall ↦ ⟨hfollow.complete hall, hends⟩⟩
  have hlength := hfollow.stop hcall hfailed
  obtain ⟨final, hfinal, rfl⟩ := hends
  rw [List.getLast?_eq_getElem?, hlength, Nat.add_sub_cancel, hcall] at hfinal
  obtain rfl : call = final := Option.some.inj hfinal
  exact ⟨hlength, hfailed⟩

end ParseTree

end Formula
