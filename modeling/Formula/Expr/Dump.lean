import Formula.Expr
import Formula.Decimal.Layout
import Formula.Text.Quoted

/-!
# The structure of an expression as text

Errors about a tree show its operands by structure: every construct with the names of its slots,
names in quotes, and numbers so that they cannot be taken for whole numbers.
-/

namespace Formula

/-- A double with a point or an exponent: positional from `1e-4` up to below `1e16`. -/
def dumpFloat (x : Float) : String :=
  let sign := if Binary64.isNegative x then "-" else ""
  if x.isNaN then "NaN"
  else if Binary64.magnitudeBits x = Binary64.infinityBits then sign ++ "inf"
  else
    let number := Decimal.shortest (Binary64.magnitudeBits x)
    if number.point < -3 ∨ 16 < number.point then sign ++ number.scientific
    else if 0 ≤ number.exponent then sign ++ number.positional ++ ".0"
    else sign ++ number.positional

def Function.dump : Function → String
  | .sin => "Sin"
  | .cos => "Cos"
  | .tan => "Tan"
  | .log => "Log"
  | .sec => "Sec"
  | .csc => "Csc"
  | .cot => "Cot"
  | .hyp => "Hyp"
  | .arcsin => "ArcSin"
  | .arccos => "ArcCos"
  | .arctan => "ArcTan"

def Operator.dump : Operator → String
  | .add => "Add"
  | .subtract => "Subtract"
  | .multiply => "Multiply"
  | .divide => "Divide"
  | .modulus => "Modulus"
  | .power => "Power"

/-- A construct with named slots. -/
def dumpSlots (construct : String) (slots : List (String × String)) : String :=
  construct ++ " \x7b " ++
    String.intercalate ", " (slots.map fun slot ↦ slot.1 ++ ": " ++ slot.2) ++ " \x7d"

mutual

def Operand.dump : Operand → String
  | .literal value => "Literal(" ++ dumpFloat value ++ ")"
  | .reference name => "VariableRef(" ++ Text.quote name ++ ")"
  | .subexpression expr => "Subexpression(" ++ dumpSlots "Node" [("kind", expr.dump)] ++ ")"

/-- The construct with its operands. -/
def Expr.dump : Expr → String
  | .number value => "Number(Literal(" ++ dumpFloat value ++ "))"
  | .identifier name => "Identifier(VariableRef(" ++ Text.quote name ++ "))"
  | .call function argument =>
    dumpSlots "FunctionCall" [("function", function.dump), ("argument", argument.dump)]
  | .factorial argument => dumpSlots "Factorial" [("argument", argument.dump)]
  | .root radicand index =>
    dumpSlots "NthRoot" [("radicand", radicand.dump), ("index", index.dump)]
  | .fraction numerator denominator =>
    dumpSlots "Fraction" [("numerator", numerator.dump), ("denominator", denominator.dump)]
  | .binary left operator right =>
    dumpSlots "BinaryOp"
      [("left", left.dump), ("operator", operator.dump), ("right", right.dump)]

end

end Formula
