import Formula.ParseTree.Grammar

/-!
# The parser with a meter

The parser once more, one procedure for each step of the descent, and with the depth as a number
that is passed on and checked. A call spends one unit of fuel, so that the fuel bounds how many
calls are open at a time, and a note is taken of each call that has ended and of each tree whose
height is looked at. Reading never goes back, which is part of the type: the loops end because each
turn takes a lexeme.
-/

namespace Formula

/-- What is called while an expression is read. A group, a fraction, a root and what follows an
identifier are read by procedures of their own, behind the lexeme at `position`. -/
inductive Procedure where
  | expression
  | sum
  | product
  | unary
  | power
  | factorial
  | primary
  | afterIdentifier (name : String) (position : Nat)
  | parenthesized
  | group (position : Nat)
  | fraction (position : Nat)
  | root (position : Nat)

/-- Why a metered reading has no result. -/
inductive Halt where
  | outOfFuel
  | failed (error : ParseError)

/-- A call that has ended: the lexemes that it found and those that it left. -/
structure Call where
  procedure : Procedure
  depth : Nat
  found : List Lexeme
  left : List Lexeme
  result : Except Halt ParseTree

inductive Note where
  | called (call : Call)
  | measured (tree : ParseTree)

/-- What a metered reading comes to, and the notes on its way, oldest first. -/
structure Trail (α : Type) where
  result : Except Halt α
  rest : List Lexeme
  notes : List Note

/-- A reading that leaves a trail and puts nothing back. -/
structure Metered (α : Type) where
  run : List Lexeme → Trail α
  length_le (lexemes : List Lexeme) : (run lexemes).rest.length ≤ lexemes.length

variable {α β : Type}

/-- Goes on from a result; the notes of both parts are kept. -/
def Trail.andThen (first : Trail α) (next : α → Trail β) : Trail β :=
  match first.result with
  | .ok value => { next value with notes := first.notes ++ (next value).notes }
  | .error halt => ⟨.error halt, first.rest, first.notes⟩

theorem Trail.length_andThen_le {first : Trail α} {next : α → Trail β} {length : Nat}
    (hfirst : first.rest.length ≤ length) (hnext : ∀ value, (next value).rest.length ≤ length) :
    (first.andThen next).rest.length ≤ length := by
  unfold andThen
  split
  · exact hnext _
  · exact hfirst

namespace Metered

instance : Monad Metered where
  pure value := ⟨fun lexemes ↦ ⟨.ok value, lexemes, []⟩, fun _ ↦ Nat.le_refl _⟩
  bind first next :=
    ⟨fun lexemes ↦
        (first.run lexemes).andThen fun value ↦ (next value).run (first.run lexemes).rest,
      fun lexemes ↦ Trail.length_andThen_le (first.length_le lexemes) fun value ↦
        Nat.le_trans ((next value).length_le _) (first.length_le lexemes)⟩

def halt (reason : Halt) : Metered α where
  run lexemes := ⟨.error reason, lexemes, []⟩
  length_le _ := Nat.le_refl _

def peek : Metered (Option Lexeme) where
  run lexemes := ⟨.ok lexemes.head?, lexemes, []⟩
  length_le _ := Nat.le_refl _

def take : Metered Lexeme where
  run
    | [] => ⟨.error (.failed .unexpectedEnd), [], []⟩
    | next :: rest => ⟨.ok next, rest, []⟩
  length_le lexemes := by cases lexemes <;> simp

/-- A procedure runs on what the one in front of it leaves. -/
theorem run_bind (first : Metered α) (next : α → Metered β) (lexemes : List Lexeme) :
    (first >>= next).run lexemes =
      (first.run lexemes).andThen fun value ↦ (next value).run (first.run lexemes).rest := rfl

theorem run_peek_bind (next : Option Lexeme → Metered α) (lexemes : List Lexeme) :
    (peek >>= next).run lexemes = (next lexemes.head?).run lexemes := rfl

theorem run_take_bind_cons (next : Lexeme → Metered α) (first : Lexeme) (rest : List Lexeme) :
    (take >>= next).run (first :: rest) = (next first).run rest := rfl

def demand (wanted : Token) : Metered Unit := do
  let found ← take
  if found.token = wanted then return () else halt (.failed (.expected wanted found))

/-- Stops where the depth is above the limit; the next lexeme is nested too deeply. -/
def checkDepth (limit depth : Nat) : Metered Unit := do
  let next ← peek
  if limit < depth then halt (.failed (.tooDeep ((next.map Lexeme.position).getD 0)))

/-- Looks at the height of a tree, which must not be above the limit. -/
def bounded (limit position : Nat) (tree : ParseTree) : Metered ParseTree where
  run lexemes := ⟨(tree.bounded limit position).mapError .failed, lexemes, [.measured tree]⟩
  length_le _ := Nat.le_refl _

/-- Takes one lexeme after the other as long as they bind, each together with what follows it. -/
def gatherFrom (binds : Token → Bool) (step : α → Lexeme → Metered α) (value : α)
    (lexemes : List Lexeme) : Trail α :=
  match lexemes with
  | [] => ⟨.ok value, [], []⟩
  | next :: rest =>
    if binds next.token then
      let turn := (step value next).run rest
      turn.andThen fun result ↦ gatherFrom binds step result turn.rest
    else ⟨.ok value, next :: rest, []⟩
termination_by lexemes.length
decreasing_by
  have := (step value next).length_le rest
  simp only [List.length_cons]
  omega

theorem length_gatherFrom_le (binds : Token → Bool) (step : α → Lexeme → Metered α) (value : α)
    (lexemes : List Lexeme) :
    (gatherFrom binds step value lexemes).rest.length ≤ lexemes.length := by
  fun_induction gatherFrom binds step value lexemes with
  | case1 => exact Nat.le_refl _
  | case2 value next rest _ turn ih =>
    have hturn : turn.rest.length ≤ rest.length := (step value next).length_le rest
    apply Nat.le_succ_of_le
    exact Trail.length_andThen_le hturn fun value ↦ Nat.le_trans (ih value) hturn
  | case3 => exact Nat.le_refl _

def gather (binds : Token → Bool) (step : α → Lexeme → Metered α) (value : α) : Metered α where
  run := gatherFrom binds step value
  length_le := length_gatherFrom_le binds step value

/-- The denominator after a numerator: past a comma, or in parentheses of its own. -/
def denominator (expression parenthesized : Metered ParseTree) : Metered ParseTree := do
  match ← take with
  | ⟨.comma, _⟩ =>
    let tree ← expression
    demand .rightParen
    return tree
  | ⟨.rightParen, _⟩ => parenthesized
  | found => halt (.failed (.expected .comma found))

def finish (tree : ParseTree) : Metered ParseTree := do
  match ← peek with
  | none => return tree
  | some found => halt (.failed (.trailing found))

def noted (procedure : Procedure) (depth : Nat) (body : Metered ParseTree) : Metered ParseTree where
  run lexemes :=
    let trail := body.run lexemes
    { trail with
      notes := trail.notes ++ [.called ⟨procedure, depth, lexemes, trail.rest, trail.result⟩] }
  length_le := body.length_le

end Metered

/-- What a procedure does at a depth, given how it calls the others. -/
def Procedure.body (limit : Nat) (call : Procedure → Nat → Metered ParseTree) (depth : Nat) :
    Procedure → Metered ParseTree
  | expression => do
    Metered.checkDepth limit depth
    call sum depth
  | sum => do
    let left ← call product depth
    Metered.gather Token.isAdditive (fun left operator ↦ do
      let right ← call product depth
      Metered.bounded limit operator.position
        (.binary left operator.token right operator.position)) left
  | product => do
    let left ← call unary depth
    Metered.gather Token.isMultiplicative (fun left operator ↦ do
      let right ← call unary depth
      Metered.bounded limit operator.position
        (.binary left operator.token right operator.position)) left
  | unary => do
    Metered.checkDepth limit depth
    match ← Metered.peek with
    | some ⟨.minus, position⟩ =>
      let _ ← Metered.take
      let operand ← call unary (depth + 1)
      Metered.bounded limit position (.negation operand position)
    | _ => call power depth
  | power => do
    let base ← call factorial depth
    match ← Metered.peek with
    | some ⟨.caret, position⟩ =>
      let _ ← Metered.take
      let exponent ← call unary (depth + 1)
      Metered.bounded limit position (.binary base .caret exponent position)
    | _ => return base
  | factorial => do
    let operand ← call primary depth
    Metered.gather (fun token ↦ token = .bang) (fun operand bang ↦
      Metered.bounded limit bang.position (.factorial operand bang.position)) operand
  | primary => do
    match ← Metered.take with
    | ⟨.number text, position⟩ => return .number text position
    | ⟨.identifier name, position⟩ => call (afterIdentifier name position) (depth + 1)
    | ⟨.leftParen, position⟩ => call (group position) (depth + 1)
    | ⟨.frac, position⟩ => call (fraction position) (depth + 1)
    | ⟨.root, position⟩ => call (root position) (depth + 1)
    | found => Metered.halt (.failed (.unexpected found))
  | afterIdentifier name position => do
    match ← Metered.peek with
    | some ⟨.leftParen, _⟩ =>
      let argument ← call parenthesized depth
      Metered.bounded limit position (.call name argument position)
    | _ => return .identifier name position
  | parenthesized => do
    Metered.demand .leftParen
    let inner ← call expression depth
    Metered.demand .rightParen
    return inner
  | group position => do
    let inner ← call expression depth
    Metered.demand .rightParen
    Metered.bounded limit position (.group inner)
  | fraction position => do
    Metered.demand .leftParen
    let numerator ← call expression depth
    let denominator ← Metered.denominator (call expression depth) (call parenthesized depth)
    Metered.bounded limit position (.fraction numerator denominator position)
  | root position => do
    match ← Metered.peek with
    | some ⟨.leftBracket, _⟩ =>
      let _ ← Metered.take
      let index ← call expression depth
      Metered.demand .rightBracket
      let radicand ← call parenthesized depth
      Metered.bounded limit position (.root index radicand position)
    | _ =>
      let radicand ← call parenthesized depth
      Metered.bounded limit position (.squareRoot radicand position)

/-- Calls a procedure at a depth; the calls that it makes have one unit of fuel less. -/
def Procedure.run (limit : Nat) : Nat → Procedure → Nat → Metered ParseTree
  | 0, _, _ => Metered.halt .outOfFuel
  | fuel + 1, procedure, depth =>
    Metered.noted procedure depth (procedure.body limit (run limit fuel) depth)

/-- Reads lexemes that form exactly one expression. -/
def ParseTree.metered (limit fuel : Nat) : Metered ParseTree := do
  let tree ← Procedure.run limit fuel .expression 0
  Metered.finish tree

end Formula
