import Formula.Token

/-!
# Reading tokens

A token is the longest stretch of text, from where it starts, that is a number, a word or a
symbol. A word that is a keyword is never an identifier. Blanks separate tokens; any other
character that starts no token is an error at its byte offset.
-/

namespace Formula

/-- The character that starts no token, and its byte offset. -/
structure LexicalError where
  character : Char
  position : Nat
deriving DecidableEq, Repr

namespace Token

/-- The blanks of an expression: space, tab, line feed, carriage return and form feed. -/
def isSeparator (c : Char) : Bool :=
  c = ' ' || c = '\t' || c = '\n' || c = '\r' || c = '\x0c'

def isWordStart (c : Char) : Bool :=
  c.isAlpha || c = '_'

def isWordChar (c : Char) : Bool :=
  c.isAlphanum || c = '_'

/-- The keyword or identifier with this spelling. -/
def ofWord (word : String) : Token :=
  if word = "frac" ∨ word = "fraction" then frac
  else if word = "sqrt" ∨ word = "root" then root
  else identifier word

def ofSymbol? (c : Char) : Option Token :=
  match c with
  | '+' => some plus
  | '-' => some minus
  | '*' => some star
  | '/' => some slash
  | '%' => some percent
  | '^' => some caret
  | '!' => some bang
  | '(' => some leftParen
  | ')' => some rightParen
  | '[' => some leftBracket
  | ']' => some rightBracket
  | ',' => some comma
  | _ => none

/-- The longest point and digits at the start of a text, if digits follow the point. -/
def pointAndDigits : List Char → List Char
  | '.' :: rest =>
    let digits := rest.takeWhile Char.isDigit
    if digits = [] then [] else '.' :: digits
  | _ => []

/-- The longest number at the start of a text, or nothing. -/
def numberAtStart (text : List Char) : List Char :=
  let digits := text.takeWhile Char.isDigit
  digits ++ pointAndDigits (text.drop digits.length)

/-- The longest word at the start of a text, or nothing. -/
def wordAtStart : List Char → List Char
  | c :: rest => if isWordStart c then c :: rest.takeWhile isWordChar else []
  | [] => []

/-- The token that a text starts with and the stretch of text it takes. -/
def first? (text : List Char) : Option (Token × List Char) :=
  if numberAtStart text ≠ [] then
    some (number (String.ofList (numberAtStart text)), numberAtStart text)
  else if wordAtStart text ≠ [] then
    some (ofWord (String.ofList (wordAtStart text)), wordAtStart text)
  else match text with
    | c :: _ => (ofSymbol? c).map fun token ↦ (token, [c])
    | [] => none

theorem first?_ne_nil {text taken : List Char} {token : Token}
    (h : first? text = some (token, taken)) : taken ≠ [] := by
  unfold first? at h
  split at h
  · simp_all
  · split at h
    · simp_all
    · split at h
      · obtain ⟨symbol, -, htaken⟩ := Option.map_eq_some_iff.1 h
        simp [← (Prod.mk.inj htaken).2]
      · simp at h

/-- The number of bytes of a text in UTF-8. -/
def byteLength (text : List Char) : Nat :=
  text.foldr (fun c length ↦ c.utf8Size + length) 0

/-- The tokens of a text that starts at a given byte offset. -/
def lexFrom (position : Nat) (text : List Char) : Except LexicalError (List Lexeme) :=
  match text with
  | [] => .ok []
  | c :: rest =>
    if isSeparator c then lexFrom (position + c.utf8Size) rest
    else match h : first? (c :: rest) with
      | none => .error ⟨c, position⟩
      | some (token, taken) =>
        have : 0 < taken.length := List.length_pos_iff.2 (first?_ne_nil h)
        (lexFrom (position + byteLength taken) ((c :: rest).drop taken.length)).map
          (⟨token, position⟩ :: ·)
termination_by text.length
decreasing_by
  · simp
  · simp only [List.length_drop, List.length_cons]
    omega

/-- The tokens of a source text with their byte offsets. -/
def lex (source : String) : Except LexicalError (List Lexeme) :=
  lexFrom 0 source.toList

end Token

end Formula
