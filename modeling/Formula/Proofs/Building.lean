import Formula.Expr.Build
import Formula.Expr.Surface
import Formula.Expr.Variables
import Formula.Proofs.Grouping

/-!
# What is built

Building as a relation between parse trees and expressions, with one case for each construct. It
shows that positions do not matter to what is built, that the variables of an expression are names
in its tree, and that all operands of a built expression are expressions, but for the index of a
root that is written without one.
-/

namespace Formula

inductive Built : ParseTree → Expr → Prop where
  | number {text : String} {position : Nat} {value : Float}
      (hread : Decimal.readFloat? text = some value) :
      Built (.number text position) (.number value)
  | identifier {name : String} {position : Nat} :
      Built (.identifier name position) (.identifier name)
  | fraction {numerator denominator : ParseTree} {position : Nat} {n d : Expr}
      (hnumerator : Built numerator n) (hdenominator : Built denominator d) :
      Built (.fraction numerator denominator position)
        (.fraction (.subexpression n) (.subexpression d))
  | call {keyword : String} {argument : ParseTree} {position : Nat} {function : Function} {a : Expr}
      (hkeyword : Function.ofKeyword? keyword = some function) (hargument : Built argument a) :
      Built (.call keyword argument position) (.call function (.subexpression a))
  | squareRoot {radicand : ParseTree} {position : Nat} {r : Expr} (hradicand : Built radicand r) :
      Built (.squareRoot radicand position)
        (.root (.subexpression r) (.literal Expr.defaultIndex))
  | root {index radicand : ParseTree} {position : Nat} {i r : Expr} (hindex : Built index i)
      (hradicand : Built radicand r) :
      Built (.root index radicand position) (.root (.subexpression r) (.subexpression i))
  | binary {left right : ParseTree} {operator : Token} {position : Nat} {infixed : Operator}
      {l r : Expr} (hleft : Built left l) (hoperator : operator.operator? = some infixed)
      (hright : Built right r) :
      Built (.binary left operator right position)
        (.binary (.subexpression l) infixed (.subexpression r))
  | negation {operand : ParseTree} {position : Nat} {x : Expr} (hoperand : Built operand x) :
      Built (.negation operand position) x.negate
  | factorial {operand : ParseTree} {position : Nat} {x : Expr} (hoperand : Built operand x) :
      Built (.factorial operand position) (.factorial (.subexpression x))
  | group {inner : ParseTree} {x : Expr} (hinner : Built inner x) : Built (.group inner) x

namespace Built

/-- Building gives what the relation says. -/
theorem ofParseTree?_eq {tree : ParseTree} {expr : Expr} (h : Built tree expr) :
    Expr.ofParseTree? tree = .ok expr := by
  induction h with
  | number hread => simp [Expr.readNumber, hread, Except.map]
  | identifier => rfl
  | fraction _ _ ihn ihd => rw [Expr.ofParseTree?_fraction, ihn, ihd]; rfl
  | call hkeyword _ ih => rw [Expr.ofParseTree?_call, ih, hkeyword]; rfl
  | squareRoot _ ih => rw [Expr.ofParseTree?_squareRoot, ih]; rfl
  | root _ _ ihi ihr => rw [Expr.ofParseTree?_root, ihi, ihr]; rfl
  | binary _ hoperator _ ihl ihr => rw [Expr.ofParseTree?_binary, ihl, ihr, hoperator]; rfl
  | negation _ ih => rw [Expr.ofParseTree?_negation, ih]; rfl
  | factorial _ ih => rw [Expr.ofParseTree?_factorial, ih]; rfl
  | group _ ih => exact ih

/-- Nothing else is built. -/
theorem of_ofParseTree? {tree : ParseTree} {expr : Expr}
    (h : Expr.ofParseTree? tree = .ok expr) : Built tree expr := by
  induction tree generalizing expr with
  | number text position =>
    rw [Expr.ofParseTree?_number, Expr.readNumber] at h
    cases hread : Decimal.readFloat? text with
    | none =>
      rw [hread] at h
      cases h
    | some value =>
      rw [hread] at h
      cases h
      exact .number hread
  | identifier name position =>
    cases h
    exact .identifier
  | fraction numerator denominator position ihn ihd =>
    obtain ⟨n, hn, hrest⟩ := bind_eq_ok_iff.1 h
    obtain ⟨d, hd, hbuilt⟩ := bind_eq_ok_iff.1 hrest
    cases hbuilt
    exact .fraction (ihn hn) (ihd hd)
  | call keyword argument position ih =>
    rw [Expr.ofParseTree?_call] at h
    obtain ⟨a, ha, hbuilt⟩ := bind_eq_ok_iff.1 h
    split at hbuilt
    · next hkeyword =>
      cases hbuilt
      exact .call hkeyword (ih ha)
    · cases hbuilt
  | squareRoot radicand position ih =>
    obtain ⟨r, hr, hbuilt⟩ := bind_eq_ok_iff.1 h
    cases hbuilt
    exact .squareRoot (ih hr)
  | root index radicand position ihi ihr =>
    obtain ⟨i, hi, hrest⟩ := bind_eq_ok_iff.1 h
    obtain ⟨r, hr, hbuilt⟩ := bind_eq_ok_iff.1 hrest
    cases hbuilt
    exact .root (ihi hi) (ihr hr)
  | binary left operator right position ihl ihr =>
    rw [Expr.ofParseTree?_binary] at h
    obtain ⟨l, hl, hrest⟩ := bind_eq_ok_iff.1 h
    obtain ⟨r, hr, hbuilt⟩ := bind_eq_ok_iff.1 hrest
    split at hbuilt
    · next hoperator =>
      cases hbuilt
      exact .binary (ihl hl) hoperator (ihr hr)
    · cases hbuilt
  | negation operand position ih =>
    obtain ⟨x, hx, hbuilt⟩ := bind_eq_ok_iff.1 h
    cases hbuilt
    exact .negation (ih hx)
  | factorial operand position ih =>
    obtain ⟨x, hx, hbuilt⟩ := bind_eq_ok_iff.1 h
    cases hbuilt
    exact .factorial (ih hx)
  | group inner ih => exact .group (ih h)

theorem iff {tree : ParseTree} {expr : Expr} :
    Expr.ofParseTree? tree = .ok expr ↔ Built tree expr :=
  ⟨of_ofParseTree?, ofParseTree?_eq⟩

/-- Positions have no part in what is built. -/
theorem unplaced {tree : ParseTree} {expr : Expr} (h : Built tree expr) :
    Built tree.unplaced expr := by
  induction h with
  | number hread => exact .number hread
  | identifier => exact .identifier
  | fraction _ _ ihn ihd => exact .fraction ihn ihd
  | call hkeyword _ ih => exact .call hkeyword ih
  | squareRoot _ ih => exact .squareRoot ih
  | root _ _ ihi ihr => exact .root ihi ihr
  | binary _ hoperator _ ihl ihr => exact .binary ihl hoperator ihr
  | negation _ ih => exact .negation ih
  | factorial _ ih => exact .factorial ih
  | group _ ih => exact .group ih

theorem of_unplaced {tree : ParseTree} {expr : Expr} (h : Built tree.unplaced expr) :
    Built tree expr := by
  induction tree generalizing expr with
  | number text position =>
    cases h with
    | number hread => exact .number hread
  | identifier name position =>
    cases h with
    | identifier => exact .identifier
  | fraction numerator denominator position ihn ihd =>
    cases h with
    | fraction hn hd => exact .fraction (ihn hn) (ihd hd)
  | call keyword argument position ih =>
    cases h with
    | call hkeyword ha => exact .call hkeyword (ih ha)
  | squareRoot radicand position ih =>
    cases h with
    | squareRoot hr => exact .squareRoot (ih hr)
  | root index radicand position ihi ihr =>
    cases h with
    | root hi hr => exact .root (ihi hi) (ihr hr)
  | binary left operator right position ihl ihr =>
    cases h with
    | binary hl hoperator hr => exact .binary (ihl hl) hoperator (ihr hr)
  | negation operand position ih =>
    cases h with
    | negation hx => exact .negation (ih hx)
  | factorial operand position ih =>
    cases h with
    | factorial hx => exact .factorial (ih hx)
  | group inner ih =>
    cases h with
    | group hx => exact .group (ih hx)

/-- Trees that differ in positions only are built to the same expression. -/
theorem congr {tree other : ParseTree} {expr : Expr} (h : Built tree expr)
    (hsame : other.unplaced = tree.unplaced) : Built other expr := by
  apply of_unplaced
  rw [hsame]
  exact h.unplaced

end Built

def ParseTree.names : ParseTree → List String
  | number _ _ => []
  | identifier name _ => [name]
  | fraction numerator denominator _ => numerator.names ++ denominator.names
  | call _ argument _ => argument.names
  | squareRoot radicand _ => radicand.names
  | root index radicand _ => index.names ++ radicand.names
  | binary left _ right _ => left.names ++ right.names
  | negation operand _ => operand.names
  | factorial operand _ => operand.names
  | group inner => inner.names

/-- The names of a tree are among the tokens it is derived from. -/
theorem Derives.identifier_mem {category : Category} {lexemes : List Lexeme} {tree : ParseTree}
    (h : Derives category lexemes tree) {name : String} (hname : name ∈ tree.names) :
    .identifier name ∈ lexemes.map Lexeme.token := by
  induction h with
  | ofProduct _ ih | ofUnary _ ih | ofPower _ ih | ofFactorial _ ih | ofPrimary _ ih =>
    exact ih hname
  | number => cases hname
  | identifier => simpa [ParseTree.names] using hname
  | negation _ ih | call _ ih | group _ ih | squareRoot _ ih | factorial _ ih =>
    simp [ih hname]
  | sum _ _ _ ihl ihr | product _ _ _ ihl ihr | power _ _ ihl ihr | fraction _ _ ihl ihr
  | curriedFraction _ _ ihl ihr | root _ _ ihl ihr =>
    rcases List.mem_append.1 hname with hfirst | hsecond
    · simp [ihl hfirst]
    · simp [ihr hsecond]

theorem Expr.variables_negate (expr : Expr) : expr.negate.variables = expr.variables := by
  cases expr <;> simp [negate, Expr.variables, Operand.variables]

/-- What is built mentions no other names than the tree. -/
theorem Built.mem_names {tree : ParseTree} {expr : Expr} (h : Built tree expr) {name : String}
    (hname : name ∈ expr.variables) : name ∈ tree.names := by
  induction h with
  | number => cases hname
  | identifier => exact hname
  | call _ _ ih | factorial _ ih | group _ ih => exact ih hname
  | squareRoot _ ih =>
    rcases List.mem_append.1 hname with hradicand | hindex
    · exact ih hradicand
    · cases hindex
  | negation _ ih =>
    rw [Expr.variables_negate] at hname
    exact ih hname
  | fraction _ _ ihl ihr | binary _ _ _ ihl ihr =>
    rcases List.mem_append.1 hname with hleft | hright
    · exact List.mem_append_left _ (ihl hleft)
    · exact List.mem_append_right _ (ihr hright)
  | root _ _ ihi ihr =>
    rcases List.mem_append.1 hname with hradicand | hindex
    · exact List.mem_append_right _ (ihr hradicand)
    · exact List.mem_append_left _ (ihi hindex)

mutual

def Operand.normal : Operand → Expr
  | .literal value => .number value
  | .reference name => .identifier name
  | .subexpression expr => expr.normal

/-- The expression with an expression in the place of every bare literal and reference. The index
of a root stays bare if it is the default one, that is the literal 2. -/
def Expr.normal : Expr → Expr
  | .number value => .number value
  | .identifier name => .identifier name
  | .call function argument => .call function (.subexpression argument.normal)
  | .factorial argument => .factorial (.subexpression argument.normal)
  | .root radicand index =>
    .root (.subexpression radicand.normal)
      (if index.isDefaultIndex then index else .subexpression index.normal)
  | .fraction numerator denominator =>
    .fraction (.subexpression numerator.normal) (.subexpression denominator.normal)
  | .binary left operator right =>
    .binary (.subexpression left.normal) operator (.subexpression right.normal)

end

theorem Operand.isDefaultIndex_iff {index : Operand} :
    index.isDefaultIndex = true ↔ index = .literal 2 := by
  cases index with
  | literal value =>
    rw [Operand.literal.injEq]
    exact Binary64.beq_two_iff value
  | reference | subexpression => simp [isDefaultIndex]

theorem Expr.normal_negate {expr : Expr} (h : expr.normal = expr) :
    expr.negate.normal = expr.negate := by
  have hproduct (operand : Expr) (hnormal : operand.normal = operand) :
      (binary (.subexpression (number (-1))) .multiply (.subexpression operand)).normal =
        binary (.subexpression (number (-1))) .multiply (.subexpression operand) := by
    simp only [normal, Operand.normal, hnormal]
  cases expr with
  | number value => rfl
  | _ => exact hproduct _ h

/-- What is built is in normal form. -/
theorem Built.normal_eq {tree : ParseTree} {expr : Expr} (h : Built tree expr) :
    expr.normal = expr := by
  induction h with
  | number | identifier => rfl
  | group _ ih => exact ih
  | negation _ ih => exact Expr.normal_negate ih
  | call _ _ ih | factorial _ ih => simp [Expr.normal, Operand.normal, ih]
  | squareRoot _ ih =>
    have hindex : (Operand.literal Expr.defaultIndex).isDefaultIndex = true :=
      Operand.isDefaultIndex_iff.2 rfl
    simp only [Expr.normal, Operand.normal, ih, hindex, if_true]
  | root _ _ ihi ihr => simp [Expr.normal, Operand.normal, Operand.isDefaultIndex, ihi, ihr]
  | fraction _ _ ihl ihr | binary _ _ _ ihl ihr =>
    simp [Expr.normal, Operand.normal, ihl, ihr]

end Formula
