/-!
# Named functions

The functions of one argument that an expression can call, each with the keyword it is written
with.
-/

namespace Formula

inductive Function where
  | sin
  | cos
  | tan
  | log
  | sec
  | csc
  | cot
  | hyp
  | arcsin
  | arccos
  | arctan
deriving DecidableEq, Repr

namespace Function

/-- The functions in the order in which they are listed. -/
def all : List Function :=
  [sin, cos, tan, log, sec, csc, cot, hyp, arcsin, arccos, arctan]

def keyword : Function → String
  | sin => "sin"
  | cos => "cos"
  | tan => "tan"
  | log => "log"
  | sec => "sec"
  | csc => "csc"
  | cot => "cot"
  | hyp => "hyp"
  | arcsin => "arcsin"
  | arccos => "arccos"
  | arctan => "arctan"

def ofKeyword? (keyword : String) : Option Function :=
  all.find? fun function ↦ function.keyword = keyword

theorem ofKeyword?_keyword (function : Function) : ofKeyword? function.keyword = some function := by
  cases function <;> decide

theorem keyword_of_ofKeyword? {keyword : String} {function : Function}
    (h : ofKeyword? keyword = some function) : function.keyword = keyword := by
  simpa using List.find?_some h

end Function

end Formula
