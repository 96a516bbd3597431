import Formula.Compile
import Formula.Expr.Shape

/-!
# Trees that can be obtained

A draft is a tree that has anything in any slot. A construct that is put together freely is checked
by itself, without a look at what is further down; it is shown that drafts which are put together,
checked, taken apart and compiled, in whatever order, are well formed at every depth all the same.
They are exactly the expressions, where the types say so.
-/

namespace Formula

mutual

inductive DraftOperand where
  | literal (value : Float)
  | reference (name : String)
  | subexpression (draft : Draft)

inductive Draft where
  | number (operand : DraftOperand)
  | identifier (operand : DraftOperand)
  | call (function : Function) (argument : DraftOperand)
  | factorial (argument : DraftOperand)
  | root (radicand index : DraftOperand)
  | fraction (numerator denominator : DraftOperand)
  | binary (left : DraftOperand) (operator : Operator) (right : DraftOperand)

end

mutual

def Operand.draft : Operand → DraftOperand
  | .literal value => .literal value
  | .reference name => .reference name
  | .subexpression expr => .subexpression expr.draft

def Expr.draft : Expr → Draft
  | .number value => .number (.literal value)
  | .identifier name => .identifier (.reference name)
  | .call function argument => .call function argument.draft
  | .factorial argument => .factorial argument.draft
  | .root radicand index => .root radicand.draft index.draft
  | .fraction numerator denominator => .fraction numerator.draft denominator.draft
  | .binary left operator right => .binary left.draft operator right.draft

end

def Shape.draft : Shape → Draft
  | .number operand => .number operand.draft
  | .identifier operand => .identifier operand.draft
  | .call function argument => .call function argument.draft
  | .factorial argument => .factorial argument.draft
  | .root radicand index => .root radicand.draft index.draft
  | .fraction numerator denominator => .fraction numerator.draft denominator.draft
  | .binary left operator right => .binary left.draft operator right.draft

/-- If the operand is a tree, then the tree is as required. -/
def DraftOperand.Holds (required : Draft → Prop) (operand : DraftOperand) : Prop :=
  ∀ draft, operand = .subexpression draft → required draft

namespace DraftOperand

variable {required : Draft → Prop}

theorem holds_literal (value : Float) : (literal value).Holds required := nofun

theorem holds_reference (name : String) : (reference name).Holds required := nofun

theorem holds_subexpression {draft : Draft} (h : required draft) :
    (subexpression draft).Holds required := by
  rintro _ ⟨⟩
  exact h

theorem holds_pair {first second : DraftOperand} (hfirst : first.Holds required)
    (hsecond : second.Holds required) : ∀ operand ∈ [first, second], operand.Holds required :=
  List.forall_mem_cons.2 ⟨hfirst, List.forall_mem_singleton.2 hsecond⟩

end DraftOperand

namespace Draft

def operands : Draft → List DraftOperand
  | number operand => [operand]
  | identifier operand => [operand]
  | call _ argument => [argument]
  | factorial argument => [argument]
  | root radicand index => [radicand, index]
  | fraction numerator denominator => [numerator, denominator]
  | binary left _ right => [left, right]

/-- Whether the construct itself holds what it should, whatever is further down. -/
def fits : Draft → Bool
  | number (.literal _) => true
  | number _ => false
  | identifier (.reference _) => true
  | identifier _ => false
  | _ => true

theorem exists_literal_of_fits {operand : DraftOperand} (h : (number operand).fits = true) :
    ∃ value, operand = .literal value := by
  cases operand with
  | literal value => exact ⟨value, rfl⟩
  | reference => cases h
  | subexpression => cases h

theorem exists_reference_of_fits {operand : DraftOperand} (h : (identifier operand).fits = true) :
    ∃ name, operand = .reference name := by
  cases operand with
  | reference name => exact ⟨name, rfl⟩
  | literal => cases h
  | subexpression => cases h

/-- What becomes of a construct that is put together freely. -/
def check? (draft : Draft) : Option Draft :=
  if draft.fits then some draft else none

/-- The root of a radicand, of the default degree if none is given. -/
def nthRoot (radicand : DraftOperand) (index : Option DraftOperand) : Draft :=
  .root radicand (index.getD (.literal Expr.defaultIndex))

/-- The node is in the tree, at some depth. -/
inductive Within (node : Draft) : Draft → Prop where
  | self : Within node node
  | inside {inner outer : Draft} (hinner : Within node inner)
      (hpart : .subexpression inner ∈ outer.operands) : Within node outer

def WellFormed (draft : Draft) : Prop :=
  ∀ node : Draft, node.Within draft → node.fits = true

/-- A draft is well-formed if its top level fits and all its operands are well-formed. -/
theorem wellFormed_iff {draft : Draft} :
    draft.WellFormed ↔
      draft.fits = true ∧ ∀ operand ∈ draft.operands, operand.Holds WellFormed := by
  constructor
  · intro h
    refine ⟨h draft .self, ?_⟩
    rintro _ hpart inner rfl node hnode
    exact h node (.inside hnode hpart)
  · rintro ⟨hfits, hparts⟩ node (_ | ⟨hnode, hpart⟩)
    · exact hfits
    · exact hparts _ hpart _ rfl node hnode

/-- The check of the top level is enough where the operands are well-formed already. -/
theorem wellFormed_of_fits {draft : Draft} (hfits : draft.fits = true)
    (hparts : ∀ operand ∈ draft.operands, operand.Holds WellFormed) : draft.WellFormed :=
  wellFormed_iff.2 ⟨hfits, hparts⟩

theorem WellFormed.fits {draft : Draft} (h : draft.WellFormed) : draft.fits = true :=
  h draft .self

theorem WellFormed.holds {draft : Draft} {operand : DraftOperand} (h : draft.WellFormed)
    (hpart : operand ∈ draft.operands) : operand.Holds WellFormed :=
  (wellFormed_iff.1 h).2 operand hpart

/-! ## What can be obtained -/

/-- A draft that results from any number of operations. A slot takes a literal, a reference or a
draft that has been obtained before. -/
inductive Obtainable : Draft → Prop where
  | number (value : Float) : Obtainable (.number (.literal value))
  | identifier (name : String) : Obtainable (.identifier (.reference name))
  | call (function : Function) {argument : DraftOperand} (hargument : argument.Holds Obtainable) :
      Obtainable (.call function argument)
  | factorial {argument : DraftOperand} (hargument : argument.Holds Obtainable) :
      Obtainable (.factorial argument)
  | nthRoot {radicand : DraftOperand} {index : Option DraftOperand}
      (hradicand : radicand.Holds Obtainable)
      (hindex : ∀ operand ∈ index, operand.Holds Obtainable) :
      Obtainable (.nthRoot radicand index)
  | fraction {numerator denominator : DraftOperand} (hnumerator : numerator.Holds Obtainable)
      (hdenominator : denominator.Holds Obtainable) :
      Obtainable (.fraction numerator denominator)
  | binary {left right : DraftOperand} (operator : Operator) (hleft : left.Holds Obtainable)
      (hright : right.Holds Obtainable) :
      Obtainable (.binary left operator right)
  | checked {draft result : Draft} (hparts : ∀ operand ∈ draft.operands, operand.Holds Obtainable)
      (hcheck : draft.check? = some result) : Obtainable result
  | part {draft inner : Draft} (hdraft : Obtainable draft)
      (hpart : .subexpression inner ∈ draft.operands) : Obtainable inner
  | compiled {source : String} {expr : Expr} (hcompile : (compile source).result = .ok expr) :
      Obtainable expr.draft

end Draft

mutual

theorem Operand.holds_draft {required : Draft → Prop}
    (hclosed : ∀ draft : Draft, draft.fits = true →
      (∀ operand ∈ draft.operands, operand.Holds required) → required draft) :
    ∀ operand : Operand, operand.draft.Holds required
  | .literal value => DraftOperand.holds_literal value
  | .reference name => DraftOperand.holds_reference name
  | .subexpression expr => DraftOperand.holds_subexpression (expr.draft_of_closed hclosed)

/-- What goes from the operands to any construct that fits holds of all expressions. -/
theorem Expr.draft_of_closed {required : Draft → Prop}
    (hclosed : ∀ draft : Draft, draft.fits = true →
      (∀ operand ∈ draft.operands, operand.Holds required) → required draft) :
    ∀ expr : Expr, required expr.draft
  | .number value =>
    hclosed _ rfl (List.forall_mem_singleton.2 (DraftOperand.holds_literal value))
  | .identifier name =>
    hclosed _ rfl (List.forall_mem_singleton.2 (DraftOperand.holds_reference name))
  | .call _ argument => hclosed _ rfl (List.forall_mem_singleton.2 (argument.holds_draft hclosed))
  | .factorial argument =>
    hclosed _ rfl (List.forall_mem_singleton.2 (argument.holds_draft hclosed))
  | .root radicand index =>
    hclosed _ rfl
      (DraftOperand.holds_pair (radicand.holds_draft hclosed) (index.holds_draft hclosed))
  | .fraction numerator denominator =>
    hclosed _ rfl
      (DraftOperand.holds_pair (numerator.holds_draft hclosed) (denominator.holds_draft hclosed))
  | .binary left _ right =>
    hclosed _ rfl
      (DraftOperand.holds_pair (left.holds_draft hclosed) (right.holds_draft hclosed))

end

mutual

/-- A well-formed operand is the draft of a typed one. -/
theorem DraftOperand.exists_operand : ∀ operand : DraftOperand, operand.Holds Draft.WellFormed →
    ∃ typed : Operand, typed.draft = operand
  | .literal value, _ => ⟨.literal value, rfl⟩
  | .reference name, _ => ⟨.reference name, rfl⟩
  | .subexpression draft, h => by
    obtain ⟨expr, rfl⟩ := draft.exists_expr (h draft rfl)
    exact ⟨.subexpression expr, rfl⟩

/-- A draft that is well formed at every depth is an expression. -/
theorem Draft.exists_expr : ∀ draft : Draft, draft.WellFormed → ∃ expr : Expr, expr.draft = draft
  | .number held, h => by
    obtain ⟨value, rfl⟩ := Draft.exists_literal_of_fits h.fits
    exact ⟨.number value, rfl⟩
  | .identifier held, h => by
    obtain ⟨name, rfl⟩ := Draft.exists_reference_of_fits h.fits
    exact ⟨.identifier name, rfl⟩
  | .call function argument, h => by
    obtain ⟨a, rfl⟩ := argument.exists_operand (h.holds List.mem_cons_self)
    exact ⟨.call function a, rfl⟩
  | .factorial argument, h => by
    obtain ⟨a, rfl⟩ := argument.exists_operand (h.holds List.mem_cons_self)
    exact ⟨.factorial a, rfl⟩
  | .root radicand index, h => by
    obtain ⟨r, rfl⟩ := radicand.exists_operand (h.holds List.mem_cons_self)
    obtain ⟨i, rfl⟩ := index.exists_operand (h.holds (.tail _ List.mem_cons_self))
    exact ⟨.root r i, rfl⟩
  | .fraction numerator denominator, h => by
    obtain ⟨n, rfl⟩ := numerator.exists_operand (h.holds List.mem_cons_self)
    obtain ⟨d, rfl⟩ := denominator.exists_operand (h.holds (.tail _ List.mem_cons_self))
    exact ⟨.fraction n d, rfl⟩
  | .binary left operator right, h => by
    obtain ⟨l, rfl⟩ := left.exists_operand (h.holds List.mem_cons_self)
    obtain ⟨r, rfl⟩ := right.exists_operand (h.holds (.tail _ List.mem_cons_self))
    exact ⟨.binary l operator r, rfl⟩

end

namespace Draft

/-- A check that succeeds returns the draft as it is. -/
theorem check?_eq_some_iff {draft result : Draft} :
    draft.check? = some result ↔ draft.fits = true ∧ draft = result := by
  rw [check?, Option.ite_none_right_eq_some, Option.some.injEq]

/-- Every operation keeps well-formedness, and the check need not go deeper than one construct. -/
theorem Obtainable.wellFormed {draft : Draft} (h : Obtainable draft) : draft.WellFormed := by
  induction h with
  | number value =>
    exact wellFormed_of_fits rfl (List.forall_mem_singleton.2 (DraftOperand.holds_literal value))
  | identifier name =>
    exact wellFormed_of_fits rfl (List.forall_mem_singleton.2 (DraftOperand.holds_reference name))
  | call _ _ ih => exact wellFormed_of_fits rfl (List.forall_mem_singleton.2 ih)
  | factorial _ ih => exact wellFormed_of_fits rfl (List.forall_mem_singleton.2 ih)
  | @nthRoot radicand index _ _ ihradicand ihindex =>
    have hindex : (index.getD (.literal Expr.defaultIndex)).Holds WellFormed := by
      cases index with
      | none => exact DraftOperand.holds_literal _
      | some operand => exact ihindex operand rfl
    exact wellFormed_of_fits rfl (DraftOperand.holds_pair ihradicand hindex)
  | fraction _ _ ihnumerator ihdenominator =>
    exact wellFormed_of_fits rfl (DraftOperand.holds_pair ihnumerator ihdenominator)
  | binary _ _ _ ihleft ihright =>
    exact wellFormed_of_fits rfl (DraftOperand.holds_pair ihleft ihright)
  | checked _ hcheck ihparts =>
    obtain ⟨hfits, rfl⟩ := check?_eq_some_iff.1 hcheck
    exact wellFormed_of_fits hfits ihparts
  | part _ hpart ih => exact ih.holds hpart _ rfl
  | @compiled _ expr _ => exact expr.draft_of_closed fun _ ↦ wellFormed_of_fits

/-- The drafts that can be obtained are the expressions. -/
theorem obtainable_iff {draft : Draft} : Obtainable draft ↔ ∃ expr : Expr, expr.draft = draft := by
  constructor
  · intro h
    exact draft.exists_expr h.wellFormed
  · rintro ⟨expr, rfl⟩
    exact expr.draft_of_closed fun draft hfits hparts ↦
      .checked hparts (check?_eq_some_iff.2 ⟨hfits, rfl⟩)

end Draft

/-- The shape itself is a number that holds no literal or an identifier that holds no name. -/
inductive Shape.Malformed : Shape → BuildError → Prop where
  | number {held : Operand} (hheld : ∀ value, held ≠ .literal value) :
      Malformed (.number held) (.malformedNumber held)
  | identifier {held : Operand} (hheld : ∀ name, held ≠ .reference name) :
      Malformed (.identifier held) (.malformedIdentifier held)

namespace Expr

/-- A shape is refused exactly with the error that says what is wrong with it. -/
theorem ofShape?_eq_error_iff {shape : Shape} {error : BuildError} :
    ofShape? shape = .error error ↔ shape.Malformed error := by
  constructor
  · intro h
    cases shape with
    | number held =>
      cases held with
      | literal => cases h
      | _ => cases h; exact .number nofun
    | identifier held =>
      cases held with
      | reference => cases h
      | _ => cases h; exact .identifier nofun
    | _ => cases h
  · intro h
    cases h with
    | @number held hheld =>
      cases held with
      | literal value => exact absurd rfl (hheld value)
      | _ => rfl
    | @identifier held hheld =>
      cases held with
      | reference name => exact absurd rfl (hheld name)
      | _ => rfl

theorem shape_eq_of_ofShape? {shape : Shape} {expr : Expr} (h : ofShape? shape = .ok expr) :
    expr.shape = shape := by
  unfold ofShape? at h
  split at h <;> cases h <;> rfl

theorem exists_shape_eq {shape : Shape} (h : ∀ error, ¬shape.Malformed error) :
    ∃ expr, ofShape? shape = .ok expr ∧ expr.shape = shape := by
  cases hshape : ofShape? shape with
  | ok expr => exact ⟨expr, rfl, shape_eq_of_ofShape? hshape⟩
  | error error => exact absurd (ofShape?_eq_error_iff.1 hshape) (h error)

theorem draft_nthRoot (radicand : Operand) (index : Option Operand) :
    (nthRoot radicand index).draft = .nthRoot radicand.draft (index.map Operand.draft) := by
  cases index <;> rfl

/-- Of a shape and of its draft the same is asked, and they become the same. -/
theorem check?_draft (shape : Shape) :
    shape.draft.check? = (ofShape? shape).toOption.map Expr.draft := by
  cases shape with
  | number held => cases held <;> rfl
  | identifier held => cases held <;> rfl
  | _ => rfl

end Expr

/-- However a tree is obtained, each of its numbers holds a literal and each of its identifiers a
name; the trees that can be obtained are the expressions. A shape becomes an expression unless it
is malformed itself, and the expression has that shape; so an expression that is taken apart becomes
itself again. What is done to expressions is what is done to their drafts. -/
theorem Draft.obtainable_well_formed :
    (∀ draft node : Draft, draft.Obtainable → node.Within draft →
      (∀ held, node = .number held → ∃ value, held = .literal value) ∧
      ∀ held, node = .identifier held → ∃ name, held = .reference name) ∧
    (∀ draft : Draft, draft.Obtainable ↔ ∃ expr : Expr, expr.draft = draft) ∧
    (∀ shape : Shape,
      (∀ error, Expr.ofShape? shape = .error error ↔ shape.Malformed error) ∧
      ((∀ error, ¬shape.Malformed error) →
        ∃ expr, Expr.ofShape? shape = .ok expr ∧ expr.shape = shape) ∧
      shape.draft.check? = (Expr.ofShape? shape).toOption.map Expr.draft) ∧
    (∀ (radicand : Operand) (index : Option Operand), (Expr.nthRoot radicand index).draft =
      .nthRoot radicand.draft (index.map Operand.draft)) ∧
    ∀ expr : Expr, Expr.ofShape? expr.shape = .ok expr := by
  refine ⟨fun draft node hdraft hnode ↦ ?_, fun _ ↦ obtainable_iff, fun shape ↦
    ⟨fun _ ↦ Expr.ofShape?_eq_error_iff, Expr.exists_shape_eq, Expr.check?_draft shape⟩,
    Expr.draft_nthRoot, Expr.ofShape?_shape⟩
  have hfits : node.fits = true := hdraft.wellFormed node hnode
  constructor
  · rintro held rfl
    exact exists_literal_of_fits hfits
  · rintro held rfl
    exact exists_reference_of_fits hfits

end Formula
