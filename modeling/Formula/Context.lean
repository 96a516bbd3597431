import Std.Data.HashMap
import Formula.AngleUnit
import Formula.Error

/-!
# Contexts

The values of the variables of one evaluation, and the unit of its angles. A name has the value
written last; what was written in which order is not remembered.
-/

namespace Formula

structure Context where
  values : Std.HashMap String Float
  angleUnit : AngleUnit

namespace Context

/-- No values, and angles in radians. -/
def empty : Context := ⟨∅, .radians⟩

instance : Inhabited Context := ⟨empty⟩

def get? (context : Context) (name : String) : Option Float :=
  context.values[name]?

def contains (context : Context) (name : String) : Bool :=
  context.values.contains name

/-- The number of names that have a value. -/
def size (context : Context) : Nat :=
  context.values.size

def isEmpty (context : Context) : Bool :=
  context.values.isEmpty

def insert (context : Context) (name : String) (value : Float) : Context :=
  { context with values := context.values.insert name value }

/-- Writes a value and gives the one that it replaces. -/
def replace (context : Context) (name : String) (value : Float) : Option Float × Context :=
  (context.get? name, context.insert name value)

def withAngleUnit (context : Context) (unit : AngleUnit) : Context :=
  { context with angleUnit := unit }

/-- The values of a list of pairs, of which the last with a name counts. -/
def ofList (pairs : List (String × Float)) : Context :=
  pairs.foldl (fun context pair ↦ context.insert pair.1 pair.2) empty

/-- Pairs each name with the value at the same place. -/
def bind? (names : List String) (values : List Float) : Except EvaluationError Context :=
  if names.length = values.length then .ok (ofList (names.zip values))
  else .error (.valueCountMismatch names.length values.length)

/-- Gives a value to each name in turn, asking for it. -/
def fill {m : Type → Type} [Monad m] (ask : String → m Float) (names : List String)
    (context : Context) : m Context :=
  names.foldlM (fun context name ↦ do return context.insert name (← ask name)) context

/-- Same unit, same names, and values that compare equal as doubles. -/
def beq (left right : Context) : Bool :=
  left.angleUnit == right.angleUnit && left.size == right.size &&
    left.values.toList.all fun pair ↦ right.get? pair.1 == some pair.2

instance : BEq Context := ⟨beq⟩

@[simp] theorem get?_empty (name : String) : empty.get? name = none := by
  simp [empty, get?]

theorem get?_insert (context : Context) (name other : String) (value : Float) :
    (context.insert name value).get? other =
      if name = other then some value else context.get? other := by
  simp [get?, insert, Std.HashMap.getElem?_insert]

@[simp] theorem get?_insert_self (context : Context) (name : String) (value : Float) :
    (context.insert name value).get? name = some value := by
  simp [get?_insert]

@[simp] theorem angleUnit_insert (context : Context) (name : String) (value : Float) :
    (context.insert name value).angleUnit = context.angleUnit := rfl

@[simp] theorem get?_withAngleUnit (context : Context) (unit : AngleUnit) (name : String) :
    (context.withAngleUnit unit).get? name = context.get? name := rfl

theorem contains_eq_isSome_get? (context : Context) (name : String) :
    context.contains name = (context.get? name).isSome := by
  simp [contains, get?]

end Context

end Formula
