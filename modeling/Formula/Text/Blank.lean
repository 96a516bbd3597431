/-!
# Blank characters

The characters that surround a line without belonging to it: all that Unicode counts as white
space, beyond the few that core's character class knows.
-/

namespace Formula.Text

/-- The characters with the Unicode property of white space. -/
def isBlank (c : Char) : Bool :=
  let code := c.toNat
  9 ≤ code && code ≤ 13 || code = 0x20 || code = 0x85 || code = 0xa0 || code = 0x1680 ||
    0x2000 ≤ code && code ≤ 0x200a || code = 0x2028 || code = 0x2029 || code = 0x202f ||
    code = 0x205f || code = 0x3000

/-- A list without the entries at its end that satisfy `drops`. -/
def dropEnd (drops : Char → Bool) (text : List Char) : List Char :=
  (text.reverse.dropWhile drops).reverse

/-- The text without the blanks at its two ends. -/
def trim (text : String) : String :=
  String.ofList (dropEnd isBlank (text.toList.dropWhile isBlank))

end Formula.Text
