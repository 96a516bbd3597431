import Formula.Decimal

/-!
# Reading numbers

The written form of a double: an optional sign, then digits with an optional point and an optional
power of ten, or one of the words for infinity and for no number at all. At least one digit stands
before or after the point; spaces and digit separators are not part of a number.
-/

namespace Formula.Decimal

/-- The whole number that a run of digits stands for. -/
def wholeOfDigits (digits : List Char) : Nat :=
  Nat.ofDigitChars 10 digits 0

/-- Splits an optional sign off a text; the flag says whether it is a minus. -/
def splitSign : List Char → Bool × List Char
  | '+' :: rest => (false, rest)
  | '-' :: rest => (true, rest)
  | text => (false, text)

/-- The power of ten after a number's digits, if the whole rest of the text is one. -/
def exponent? : List Char → Option Int
  | [] => some 0
  | mark :: rest =>
    let (negative, digits) := splitSign rest
    if (mark = 'e' ∨ mark = 'E') ∧ digits ≠ [] ∧ digits.all Char.isDigit then
      some (if negative then -wholeOfDigits digits else wholeOfDigits digits)
    else none

/-- Splits the digits after a decimal point off a text; without a point there are none. -/
def splitFraction : List Char → List Char × List Char
  | '.' :: rest => (rest.takeWhile Char.isDigit, rest.dropWhile Char.isDigit)
  | text => ([], text)

/-- The number that an unsigned text of digits stands for. -/
def ofText? (text : List Char) : Option Decimal :=
  let whole := text.takeWhile Char.isDigit
  let (fraction, rest) := splitFraction (text.dropWhile Char.isDigit)
  if whole = [] ∧ fraction = [] then none
  else (exponent? rest).map fun exponent ↦
    ⟨wholeOfDigits (whole ++ fraction), exponent - fraction.length⟩

/-- The words for the doubles that have no digits, in any case. -/
def wordValue? (negative : Bool) (text : List Char) : Option Float :=
  match String.ofList (text.map Char.toLower) with
  | "inf" => some (Binary64.infinity negative)
  | "infinity" => some (Binary64.infinity negative)
  | "nan" => some Binary64.nan
  | _ => none

/-- The double that a text stands for. -/
def readFloat? (text : String) : Option Float :=
  let (negative, body) := splitSign text.toList
  match ofText? body with
  | some number => some (number.toFloat negative)
  | none => wordValue? negative body

end Formula.Decimal
