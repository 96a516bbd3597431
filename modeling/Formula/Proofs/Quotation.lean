import Formula.Proofs.BuildFailures
import Formula.Proofs.NumberLiterals

/-!
# Trees that quote an expression

A tree quotes an expression if it is built to it and every minus in it belongs to a number. The
tokens of such a tree, read from left to right, say what the literals of the expression are and in
which order they are written, wherever its groups are. A minus that becomes a product adds a literal
that no token stands for, so trees that do not quote what they are built to have too few numbers.
-/

namespace Formula

/-- A comma as the two tokens that can stand in its place in a fraction. -/
def Token.curried : Token → List Token
  | comma => [rightParen, leftParen]
  | token => [token]

/-- The tokens of a tree, with `)(` for each comma: both ways to write a fraction are one. -/
def ParseTree.spelling (tree : ParseTree) : List Token :=
  tree.tokens.flatMap Token.curried

/-- Whatever lexemes a tree is derived from, they are spelled like the tree. -/
theorem Derives.spelling_eq {category : Category} {lexemes : List Lexeme} {tree : ParseTree}
    (h : Derives category lexemes tree) :
    (lexemes.map Lexeme.token).flatMap Token.curried = tree.spelling := by
  unfold ParseTree.spelling
  induction h with
  | ofProduct _ ih | ofUnary _ ih | ofPower _ ih | ofFactorial _ ih | ofPrimary _ ih => exact ih
  | number | identifier => rfl
  | sum | product | power | negation | factorial | call | group | fraction | curriedFraction
  | squareRoot | root => simp [ParseTree.tokens, Token.curried, *]

theorem Token.eq_ofOperator {token : Token} {operator : Operator}
    (h : token.operator? = some operator) : token = ofOperator operator := by
  cases token <;> cases h <;> rfl

@[simp] theorem Token.curried_ofOperator (operator : Operator) :
    (ofOperator operator).curried = [ofOperator operator] := by
  cases operator <;> rfl

mutual

def Operand.written : Operand → List Float
  | .literal value => [value]
  | .reference _ => []
  | .subexpression expr => expr.written

/-- The literals that are written for an expression, from left to right: an index stands before the
radicand, and the default one is not written. -/
def Expr.written : Expr → List Float
  | .number value => [value]
  | .identifier _ => []
  | .call _ argument => argument.written
  | .factorial argument => argument.written
  | .root radicand index =>
    (if index.isDefaultIndex then [] else index.written) ++ radicand.written
  | .fraction numerator denominator => numerator.written ++ denominator.written
  | .binary left _ right => left.written ++ right.written

end

theorem Operand.isDefaultIndex_literal : (literal Expr.defaultIndex).isDefaultIndex = true :=
  isDefaultIndex_iff.2 rfl

/-- Equal operands are both the default index or neither is. -/
theorem Operand.isDefaultIndex_eq_of_beq {operand other : Operand} (h : operand.beq other = true) :
    operand.isDefaultIndex = other.isDefaultIndex := by
  cases operand with
  | literal x =>
    cases other with
    | literal y =>
      rw [Operand.beq] at h
      rw [Bool.eq_iff_iff, isDefaultIndex_iff, isDefaultIndex_iff, Operand.literal.injEq,
        Operand.literal.injEq]
      constructor
      · rintro rfl
        exact (Binary64.beq_two_iff y).1 ((Binary64.beq_comm y 2).trans h)
      · rintro rfl
        exact (Binary64.beq_two_iff x).1 h
    | _ => cases h
  | reference name => cases other <;> first | rfl | cases h
  | subexpression expr => cases other <;> first | rfl | cases h

/-- Two lists are as long as each other, and something holds if they are the same list. -/
structure DecidedBy (first second : List Float) (same : Prop) : Prop where
  length_eq : first.length = second.length
  of_eq (h : first = second) : same

/-- What two lists decide is decided by both together. -/
theorem DecidedBy.append {first second more others : List Float} {same alike : Prop}
    (h : DecidedBy first second same) (hmore : DecidedBy more others alike) :
    DecidedBy (first ++ more) (second ++ others) (same ∧ alike) where
  length_eq := by rw [List.length_append, List.length_append, h.length_eq, hmore.length_eq]
  of_eq heq := by
    obtain ⟨hfirst, hsecond⟩ := List.append_inj heq h.length_eq
    exact ⟨h.of_eq hfirst, hmore.of_eq hsecond⟩

theorem DecidedBy.imp {first second : List Float} {same alike : Prop}
    (h : DecidedBy first second same) (himp : same → alike) : DecidedBy first second alike :=
  ⟨h.length_eq, fun heq ↦ himp (h.of_eq heq)⟩

theorem decidedBy_singleton {x y : Float} : DecidedBy [x] [y] (x = y) :=
  ⟨rfl, fun h ↦ List.singleton_inj.1 h⟩

mutual

/-- Operands that compare equal are the same if they are written with the same literals. -/
theorem Operand.decidedBy_written : ∀ {operand other : Operand}, operand.beq other = true →
    DecidedBy operand.written other.written (operand = other)
  | .literal _, .literal _, _ => decidedBy_singleton.imp (congrArg Operand.literal)
  | .reference _, .reference _, h => ⟨rfl, fun _ ↦ congrArg Operand.reference (eq_of_beq h)⟩
  | .subexpression _, .subexpression _, h =>
    (Expr.decidedBy_written h).imp (congrArg Operand.subexpression)

/-- Only in the signs of its zeros can a tree differ from one that it is equal to, so the literals
decide whether they are the same. -/
theorem Expr.decidedBy_written : ∀ {expr other : Expr}, expr.beq other = true →
    DecidedBy expr.written other.written (expr = other)
  | .number x, .number y, _ => decidedBy_singleton.imp (congrArg Expr.number)
  | .identifier x, .identifier y, h => ⟨rfl, fun _ ↦ congrArg Expr.identifier (eq_of_beq h)⟩
  | .call f x, .call g y, h => by
    obtain ⟨hfunction, hargument⟩ := Bool.and_eq_true_iff.1 h
    exact (Operand.decidedBy_written hargument).imp fun hsame ↦ by
      rw [eq_of_beq hfunction, hsame]
  | .factorial x, .factorial y, h =>
    (Operand.decidedBy_written h).imp (congrArg Expr.factorial)
  | .root x i, .root y j, h => by
    obtain ⟨hradicand, hindex⟩ := Bool.and_eq_true_iff.1 h
    have hwritten : DecidedBy (if i.isDefaultIndex then [] else i.written)
        (if j.isDefaultIndex then [] else j.written) (i = j) := by
      rw [Operand.isDefaultIndex_eq_of_beq hindex]
      split
      · next hdefault =>
        have hsame := Operand.isDefaultIndex_eq_of_beq hindex
        rw [hdefault] at hsame
        exact ⟨rfl, fun _ ↦ by
          rw [Operand.isDefaultIndex_iff.1 hsame, Operand.isDefaultIndex_iff.1 hdefault]⟩
      · exact Operand.decidedBy_written hindex
    exact (hwritten.append (Operand.decidedBy_written hradicand)).imp fun ⟨hi, hx⟩ ↦ by
      rw [hi, hx]
  | .fraction n d, .fraction m c, h => by
    obtain ⟨hn, hd⟩ := Bool.and_eq_true_iff.1 h
    exact ((Operand.decidedBy_written hn).append (Operand.decidedBy_written hd)).imp
      fun ⟨hnumerator, hdenominator⟩ ↦ by rw [hnumerator, hdenominator]
  | .binary l f r, .binary k g q, h => by
    obtain ⟨hboth, hr⟩ := Bool.and_eq_true_iff.1 h
    obtain ⟨hl, hoperator⟩ := Bool.and_eq_true_iff.1 hboth
    exact ((Operand.decidedBy_written hl).append (Operand.decidedBy_written hr)).imp
      fun ⟨hleft, hright⟩ ↦ by rw [hleft, eq_of_beq hoperator, hright]

end

/-- The tree is built to the expression, and every minus in it is one of a number. -/
inductive Quotes : ParseTree → Expr → Prop where
  | number {text : String} {position : Nat} {value : Float}
      (hread : Decimal.readFloat? text = some value)
      (hpositive : Binary64.isNegative value = false) :
      Quotes (.number text position) (.number value)
  | identifier {name : String} {position : Nat} :
      Quotes (.identifier name position) (.identifier name)
  | fraction {numerator denominator : ParseTree} {position : Nat} {n d : Expr}
      (hnumerator : Quotes numerator n) (hdenominator : Quotes denominator d) :
      Quotes (.fraction numerator denominator position)
        (.fraction (.subexpression n) (.subexpression d))
  | call {keyword : String} {argument : ParseTree} {position : Nat} {function : Function} {a : Expr}
      (hargument : Quotes argument a) :
      Quotes (.call keyword argument position) (.call function (.subexpression a))
  | squareRoot {radicand : ParseTree} {position : Nat} {r : Expr} (hradicand : Quotes radicand r) :
      Quotes (.squareRoot radicand position)
        (.root (.subexpression r) (.literal Expr.defaultIndex))
  | root {index radicand : ParseTree} {position : Nat} {i r : Expr} (hindex : Quotes index i)
      (hradicand : Quotes radicand r) :
      Quotes (.root index radicand position) (.root (.subexpression r) (.subexpression i))
  | binary {left right : ParseTree} {operator : Token} {position : Nat} {infixed : Operator}
      {l r : Expr} (hleft : Quotes left l) (hoperator : operator.operator? = some infixed)
      (hright : Quotes right r) :
      Quotes (.binary left operator right position)
        (.binary (.subexpression l) infixed (.subexpression r))
  | negation {operand : ParseTree} {position : Nat} {value : Float}
      (hoperand : Quotes operand (.number value)) :
      Quotes (.negation operand position) (.number (-value))
  | factorial {operand : ParseTree} {position : Nat} {x : Expr} (hoperand : Quotes operand x) :
      Quotes (.factorial operand position) (.factorial (.subexpression x))
  | group {inner : ParseTree} {x : Expr} (hinner : Quotes inner x) : Quotes (.group inner) x

def Token.numeral? : Token → Option String
  | number text => some text
  | _ => none

@[simp] theorem Token.numeral?_ofOperator (operator : Operator) :
    (ofOperator operator).numeral? = none := by
  cases operator <;> rfl

theorem Token.filterMap_numeral?_curried (tokens : List Token) :
    (tokens.flatMap curried).filterMap numeral? = tokens.filterMap numeral? := by
  induction tokens with
  | nil => rfl
  | cons token tokens ih => cases token <;> simp [curried, numeral?, List.filterMap_cons, ih]

def ParseTree.numerals : ParseTree → List String
  | number text _ => [text]
  | identifier _ _ => []
  | fraction numerator denominator _ => numerator.numerals ++ denominator.numerals
  | call _ argument _ => argument.numerals
  | squareRoot radicand _ => radicand.numerals
  | root index radicand _ => index.numerals ++ radicand.numerals
  | binary left _ right _ => left.numerals ++ right.numerals
  | negation operand _ => operand.numerals
  | factorial operand _ => operand.numerals
  | group inner => inner.numerals

/-- The text stands for no double with a minus. -/
def Decimal.Unsigned (text : String) : Prop :=
  ∀ value, readFloat? text = some value → Binary64.isNegative value = false

/-- No number of a source has a minus of its own. -/
theorem Token.unsigned_of_lex {source : String} {lexemes : List Lexeme}
    (hlex : lex source = .ok lexemes) :
    ∀ text ∈ (lexemes.map Lexeme.token).filterMap numeral?, Decimal.Unsigned text := by
  intro text hmem value hread
  obtain ⟨token, htoken, hnumeral⟩ := List.mem_filterMap.1 hmem
  obtain ⟨lexeme, hlexeme, rfl⟩ := List.mem_map.1 htoken
  obtain ⟨_, _, _, -, -, hlongest⟩ := exists_longestToken_of_lex hlex hlexeme
  have hspells := hlongest.spells
  cases hnumber : lexeme.token with
  | number literal =>
    rw [hnumber] at hspells hnumeral
    obtain ⟨hpattern, rfl⟩ := isNumber_of_spells hspells
    obtain ⟨number, -, hvalue⟩ := Decimal.exists_ofText? hpattern
    cases hnumeral
    obtain rfl : number.toFloat false = value := Option.some.inj (hvalue.symm.trans hread)
    exact Binary64.isNegative_ofSignBits false number.nearestBits_le
  | _ =>
    rw [hnumber] at hnumeral
    cases hnumeral

/-- A minus becomes a part of a number or a product with one more literal. -/
theorem Expr.length_written_negate (expr : Expr) :
    (∃ value, expr = .number value) ∨
      expr.negate.written.length = expr.written.length + 1 := by
  cases expr with
  | number value => exact .inl ⟨value, rfl⟩
  | _ => exact .inr rfl

namespace Built

variable {tree : ParseTree} {expr : Expr}

/-- The numerals of a tree are those among its tokens. -/
theorem numerals_eq (h : Built tree expr) :
    tree.numerals = tree.spelling.filterMap Token.numeral? := by
  unfold ParseTree.spelling
  rw [Token.filterMap_numeral?_curried]
  induction h with
  | binary _ hoperator _ ihl ihr =>
    rw [Token.eq_ofOperator hoperator]
    simp [ParseTree.numerals, ParseTree.tokens, ihl, ihr]
  | _ => simp [ParseTree.numerals, ParseTree.tokens, Token.numeral?, List.filterMap_cons, *]

/-- Each numeral is a literal of what is built; a minus may add others. -/
theorem length_numerals_le (h : Built tree expr) :
    tree.numerals.length ≤ expr.written.length := by
  have hboth {first second : List String} {x y : List Float} (hx : first.length ≤ x.length)
      (hy : second.length ≤ y.length) : (first ++ second).length ≤ (x ++ y).length := by
    rw [List.length_append, List.length_append]
    exact Nat.add_le_add hx hy
  induction h with
  | number | identifier => exact Nat.le_refl _
  | call _ _ ih | squareRoot _ ih | factorial _ ih | group _ ih => exact ih
  | fraction _ _ ihl ihr | binary _ _ _ ihl ihr | root _ _ ihl ihr => exact hboth ihl ihr
  | @negation _ _ x _ ih =>
    obtain ⟨value, rfl⟩ | hlength := x.length_written_negate
    · exact ih
    · rw [hlength]
      exact Nat.le_succ_of_le ih

/-- A tree quotes what is built of it if no minus has added a literal. -/
theorem quotes (h : Built tree expr) (hunsigned : ∀ text ∈ tree.numerals, Decimal.Unsigned text)
    (hlength : tree.numerals.length = expr.written.length) : Quotes tree expr := by
  have hboth {first second : ParseTree} {x y : Expr} (hx : Built first x) (hy : Built second y)
      (hsum : (first.numerals ++ second.numerals).length = (x.written ++ y.written).length) :
      first.numerals.length = x.written.length ∧ second.numerals.length = y.written.length := by
    have hfirst := hx.length_numerals_le
    have hsecond := hy.length_numerals_le
    rw [List.length_append, List.length_append] at hsum
    omega
  induction h with
  | number hread => exact .number hread (hunsigned _ (List.mem_singleton.2 rfl) _ hread)
  | identifier => exact .identifier
  | fraction hn hd ihn ihd =>
    obtain ⟨hnumerator, hdenominator⟩ := hboth hn hd hlength
    obtain ⟨hfirst, hsecond⟩ := List.forall_mem_append.1 hunsigned
    exact .fraction (ihn hfirst hnumerator) (ihd hsecond hdenominator)
  | call _ _ ih => exact .call (ih hunsigned hlength)
  | squareRoot _ ih => exact .squareRoot (ih hunsigned hlength)
  | root hi hr ihi ihr =>
    obtain ⟨hindex, hradicand⟩ := hboth hi hr hlength
    obtain ⟨hfirst, hsecond⟩ := List.forall_mem_append.1 hunsigned
    exact .root (ihi hfirst hindex) (ihr hsecond hradicand)
  | binary hl hoperator hr ihl ihr =>
    obtain ⟨hleft, hright⟩ := hboth hl hr hlength
    obtain ⟨hfirst, hsecond⟩ := List.forall_mem_append.1 hunsigned
    exact .binary (ihl hfirst hleft) hoperator (ihr hsecond hright)
  | @negation _ _ x hx ih =>
    obtain ⟨value, rfl⟩ | hadded := x.length_written_negate
    · exact .negation (ih hunsigned hlength)
    · have hle := hx.length_numerals_le
      rw [hadded, ParseTree.numerals] at hlength
      omega
  | factorial _ ih => exact .factorial (ih hunsigned hlength)
  | group _ ih => exact .group (ih hunsigned hlength)

end Built

/-! ## Reading the literals off the tokens -/

/-- What is known after some tokens: whether an operand has just ended, how many minuses stand
before the next number, and the literals so far. -/
structure Scan where
  complete : Bool
  minuses : Nat
  literals : List Float

/-- A minus belongs to the next number unless an operand has just ended. -/
def Scan.next (scan : Scan) : Token → Scan
  | .number text =>
    let magnitude := (Decimal.readFloat? text).getD 0
    ⟨true, 0, scan.literals ++ [Neg.neg^[scan.minuses] magnitude]⟩
  | .minus =>
    if scan.complete then { scan with complete := false }
    else { scan with minuses := scan.minuses + 1 }
  | .identifier _ | .rightParen | .bang => { scan with complete := true }
  | _ => { scan with complete := false }

theorem Scan.next_ofOperator (operator : Operator) (literals : List Float) :
    next ⟨true, 0, literals⟩ (.ofOperator operator) = ⟨false, 0, literals⟩ := by
  cases operator <;> rfl

namespace Quotes

variable {tree : ParseTree} {expr : Expr}

/-- Minuses before a number are those of the number, groups or not. -/
theorem foldl_number {value : Float} (h : Quotes tree (.number value)) (minuses : Nat)
    (literals : List Float) :
    tree.spelling.foldl Scan.next ⟨false, minuses, literals⟩ =
      ⟨true, 0, literals ++ [Neg.neg^[minuses] value]⟩ := by
  generalize hexpr : Expr.number value = expr at h
  unfold ParseTree.spelling
  induction h generalizing value minuses with
  | number hread =>
    cases hexpr
    simp [ParseTree.tokens, Token.curried, Scan.next, hread]
  | negation _ ih =>
    cases hexpr
    simpa [ParseTree.tokens, Token.curried, Scan.next] using ih (minuses + 1) rfl
  | group _ ih =>
    simp [ParseTree.tokens, Token.curried, Scan.next, ih minuses hexpr]
  | _ => cases hexpr

/-- Reading the tokens of a tree that quotes an expression gives its literals. -/
theorem foldl_eq (h : Quotes tree expr) (literals : List Float) :
    tree.spelling.foldl Scan.next ⟨false, 0, literals⟩ =
      ⟨true, 0, literals ++ expr.written⟩ := by
  induction h generalizing literals with
  | number hread hpositive => exact foldl_number (.number hread hpositive) 0 literals
  | negation hoperand => exact foldl_number (.negation hoperand) 0 literals
  | binary _ hoperator _ ihl ihr =>
    unfold ParseTree.spelling at *
    rw [Token.eq_ofOperator hoperator]
    simp [ParseTree.tokens, ihl, ihr, Scan.next_ofOperator, Expr.written, Operand.written]
  | squareRoot _ ih =>
    unfold ParseTree.spelling at *
    simp [ParseTree.tokens, Token.curried, Scan.next, Expr.written, Operand.written,
      Operand.isDefaultIndex_literal, ih]
  | _ =>
    unfold ParseTree.spelling at *
    simp [ParseTree.tokens, Token.curried, Scan.next, Expr.written, Operand.written,
      Operand.isDefaultIndex, *]

end Quotes

end Formula
