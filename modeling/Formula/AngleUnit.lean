import Formula.Constant

/-!
# Angle units

The unit in which the trigonometric functions read an angle and in which their inverses answer.
-/

namespace Formula

inductive AngleUnit where
  | radians
  | degrees
  | gradians
deriving DecidableEq, Repr, Inhabited

namespace AngleUnit

def all : List AngleUnit :=
  [radians, degrees, gradians]

def name : AngleUnit → String
  | radians => "rad"
  | degrees => "deg"
  | gradians => "grad"

def ofName? (name : String) : Option AngleUnit :=
  all.find? fun unit ↦ unit.name = name

/-- An angle in this unit, in radians. The factor for degrees is itself a rounded constant. -/
def toRadians : AngleUnit → Float → Float
  | radians, angle => angle
  | degrees, angle => angle * (pi / 180)
  | gradians, angle => angle / 200 * pi

/-- An angle in radians, in this unit. -/
def ofRadians : AngleUnit → Float → Float
  | radians, angle => angle
  | degrees, angle => angle * (180 / pi)
  | gradians, angle => angle / pi * 200

end AngleUnit

end Formula
