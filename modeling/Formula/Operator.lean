/-!
# Infix operators

The six infix operators, how tightly they bind and to which side they group.
-/

namespace Formula

/-- The two sides of an infix operator. -/
inductive Side where
  | left
  | right
deriving DecidableEq, Repr

inductive Operator where
  | add
  | subtract
  | multiply
  | divide
  | modulus
  | power
deriving DecidableEq, Repr

namespace Operator

def symbol : Operator → String
  | add => "+"
  | subtract => "-"
  | multiply => "*"
  | divide => "/"
  | modulus => "%"
  | power => "^"

/-- How tightly the operator binds; a tighter one takes its operands first. -/
def precedence : Operator → Nat
  | add | subtract => 1
  | multiply | divide | modulus => 2
  | power => 3

/-- The side on which a chain of the operator groups without parentheses. -/
def groupingSide : Operator → Side
  | power => .right
  | _ => .left

end Operator

end Formula
