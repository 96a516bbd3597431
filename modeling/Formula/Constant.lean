/-!
# Named constants

Names with a fixed value. A constant shadows any variable of the same name, so no value is ever
asked for it.
-/

namespace Formula

def pi : Float := 3.141592653589793

def constants : List (String × Float) :=
  [("pi", pi), ("e", 2.718281828459045)]

def constant? (name : String) : Option Float :=
  constants.lookup name

def isConstant (name : String) : Bool :=
  (constant? name).isSome

end Formula
