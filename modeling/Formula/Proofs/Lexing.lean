import Formula.ParseTree
import Formula.Proofs.Numerals
import Formula.Token.Lexer

/-!
# Writing trees and reading their tokens

A tree that is written out reads as its tokens again: the words and numbers in it are always
followed by a character that cannot continue them. Where the tokens end up in the text does not
matter for this.
-/

namespace Formula.Token

def IsWord (text : List Char) : Prop :=
  ∃ first others, text = first :: others ∧ isWordStart first ∧ ∀ c ∈ others, isWordChar c

def IsName (name : String) : Prop :=
  IsWord name.toList ∧ ofWord name = .identifier name

theorem isWord_of_all {text others : List Char} {first : Char} (htext : text = first :: others)
    (hfirst : isWordStart first) (hothers : others.all isWordChar) : IsWord text :=
  ⟨first, others, htext, hfirst, List.all_eq_true.1 hothers⟩

theorem identifier_of_ofWord {word name : String} (h : ofWord word = .identifier name) :
    word = name := by
  unfold ofWord at h
  split at h
  · cases h
  · split at h
    · cases h
    · exact Token.identifier.inj h

theorem isName_of_wordAtStart {text : List Char} {name : String} (hword : wordAtStart text ≠ [])
    (h : ofWord (String.ofList (wordAtStart text)) = .identifier name) : IsName name := by
  have hname := identifier_of_ofWord h
  rw [hname] at h
  refine ⟨?_, h⟩
  rw [← hname, String.toList_ofList]
  cases text with
  | nil => exact absurd rfl hword
  | cons first rest =>
    simp only [wordAtStart] at hword ⊢
    split at hword
    · next hstart =>
      rw [if_pos hstart]
      exact ⟨first, _, rfl, hstart, fun c hc ↦ List.all_eq_true.1 List.all_takeWhile c hc⟩
    · exact absurd rfl hword

theorem ofSymbol?_ne_identifier (c : Char) (name : String) :
    ofSymbol? c ≠ some (.identifier name) := by
  intro h
  unfold ofSymbol? at h
  split at h <;> cases h

/-- Every identifier that the reader takes is a name. -/
theorem isName_of_first? {text taken : List Char} {name : String}
    (h : first? text = some (.identifier name, taken)) : IsName name := by
  unfold first? at h
  split at h
  · simp at h
  · split at h
    · next hword => exact isName_of_wordAtStart hword (congrArg Prod.fst (Option.some.inj h))
    · split at h
      · obtain ⟨symbol, hsymbol, hpair⟩ := Option.map_eq_some_iff.1 h
        rw [(Prod.mk.inj hpair).1] at hsymbol
        exact absurd hsymbol (ofSymbol?_ne_identifier _ name)
      · cases h

/-- Every identifier among the tokens of a text is a name. -/
theorem isName_of_lexFrom {position : Nat} {text : List Char} {lexemes : List Lexeme}
    {name : String} (h : lexFrom position text = .ok lexemes)
    (hname : .identifier name ∈ lexemes.map Lexeme.token) : IsName name := by
  fun_induction lexFrom position text generalizing lexemes with
  | case1 =>
    cases h
    cases hname
  | case2 position c rest hseparator ih => exact ih h hname
  | case3 => cases h
  | case4 position c rest hseparator token taken hfirst hlength ih =>
    cases hrest : lexFrom (position + byteLength taken) ((c :: rest).drop taken.length) with
    | error error =>
      rw [hrest] at h
      cases h
    | ok others =>
      rw [hrest] at h
      cases h
      rcases List.mem_cons.1 hname with hhead | htail
      · cases hhead
        exact isName_of_first? hfirst
      · exact ih hrest htail

/-- What follows a number or a word without being part of it. -/
def Ends (rest : List Char) : Prop :=
  ∀ c ∈ rest.head?, isWordChar c = false ∧ c ≠ '.'

/-- The text has these tokens, wherever it stands, unless what follows continues its last word. -/
def Reads (text : List Char) (tokens : List Token) : Prop :=
  ∀ position rest, Ends rest → ∃ lexemes after, lexemes.map Lexeme.token = tokens ∧
    lexFrom position (text ++ rest) = (lexFrom after rest).map (lexemes ++ ·)

theorem reads_nil : Reads [] [] :=
  fun position rest _ ↦ ⟨[], position, rfl, by
    rw [List.nil_append]
    cases lexFrom position rest <;> rfl⟩

/-- Texts are read one after the other where the first ends in front of the second. -/
theorem Reads.append {text more : List Char} {tokens others : List Token}
    (htext : Reads text tokens) (hmore : Reads more others) (hends : ∀ rest, Ends (more ++ rest)) :
    Reads (text ++ more) (tokens ++ others) := by
  intro position rest hrest
  obtain ⟨first, middle, hfirst, hread⟩ := htext position (more ++ rest) (hends rest)
  obtain ⟨second, after, hsecond, hreadMore⟩ := hmore middle rest hrest
  refine ⟨first ++ second, after, by rw [List.map_append, hfirst, hsecond], ?_⟩
  rw [List.append_assoc, hread, hreadMore]
  cases lexFrom after rest with
  | error error => rfl
  | ok lexemes => exact congrArg Except.ok (List.append_assoc first second lexemes).symm

/-- One token is taken, and the rest is read from behind it. -/
theorem lexFrom_of_first? {position : Nat} {c : Char} {others taken : List Char} {token : Token}
    (hseparator : isSeparator c = false) (hfirst : first? (c :: others) = some (token, taken)) :
    lexFrom position (c :: others) =
      (lexFrom (position + byteLength taken) ((c :: others).drop taken.length)).map
        (⟨token, position⟩ :: ·) := by
  rw [lexFrom, if_neg (by simp [hseparator])]
  split
  · next hnone =>
    rw [hfirst] at hnone
    cases hnone
  · next hsome =>
    rw [hfirst] at hsome
    cases hsome
    rfl

/-- A text that is one token whatever follows it. -/
theorem reads_of_first? {c : Char} {others : List Char} {token : Token}
    (hseparator : isSeparator c = false)
    (hfirst : ∀ rest, Ends rest → first? (c :: others ++ rest) = some (token, c :: others)) :
    Reads (c :: others) [token] := by
  intro position rest hrest
  refine ⟨[⟨token, position⟩], position + byteLength (c :: others), rfl, ?_⟩
  have hdrop : (c :: others ++ rest).drop (c :: others).length = rest := List.drop_left
  have hstep := @lexFrom_of_first? position c (others ++ rest) _ _ hseparator (hfirst rest hrest)
  rw [← List.cons_append, hdrop] at hstep
  exact hstep

theorem Reads.blank_cons {text : List Char} {tokens : List Token} (htext : Reads text tokens) :
    Reads (' ' :: text) tokens := by
  intro position rest hrest
  obtain ⟨lexemes, after, htokens, hread⟩ := htext (position + ' '.utf8Size) rest hrest
  refine ⟨lexemes, after, htokens, ?_⟩
  rw [List.cons_append, lexFrom]
  exact hread

/-- On its own the text has these tokens and no others. -/
theorem Reads.lex {source : String} {tokens : List Token} (h : Reads source.toList tokens) :
    ∃ lexemes, lex source = .ok lexemes ∧ lexemes.map Lexeme.token = tokens := by
  have hends : Ends [] := fun c hc ↦ by cases hc
  obtain ⟨lexemes, after, htokens, hread⟩ := h 0 [] hends
  refine ⟨lexemes, ?_, htokens⟩
  rw [List.append_nil, lexFrom] at hread
  rw [Token.lex, hread]
  exact congrArg Except.ok (List.append_nil lexemes)

section

variable {c : Char} {token : Token}

theorem first?_symbol (h : ofSymbol? c = some token) (rest : List Char) :
    first? (c :: rest) = some (token, [c]) := by
  unfold ofSymbol? at h
  split at h <;> cases h <;> rfl

theorem isSeparator_symbol (h : ofSymbol? c = some token) : isSeparator c = false := by
  unfold ofSymbol? at h
  split at h <;> cases h <;> rfl

/-- A symbol ends every word and every number in front of it. -/
theorem ends_symbol (h : ofSymbol? c = some token) (rest : List Char) : Ends (c :: rest) := by
  intro first hfirst
  cases hfirst
  unfold ofSymbol? at h
  split at h <;> cases h <;> decide

end

theorem ends_blank (rest : List Char) : Ends (' ' :: rest) := by
  intro first hfirst
  cases hfirst
  decide

/-- A symbol ends with itself, so anything may follow it. -/
theorem Reads.symbol_cons {c : Char} {token : Token} {text : List Char} {tokens : List Token}
    (hsymbol : ofSymbol? c = some token) (htext : Reads text tokens) :
    Reads (c :: text) (token :: tokens) := by
  intro position rest hrest
  obtain ⟨lexemes, after, htokens, hread⟩ := htext (position + byteLength [c]) rest hrest
  refine ⟨⟨token, position⟩ :: lexemes, after, by rw [List.map_cons, htokens], ?_⟩
  rw [List.cons_append, lexFrom_of_first? (isSeparator_symbol hsymbol) (first?_symbol hsymbol _)]
  change (lexFrom (position + byteLength [c]) (text ++ rest)).map _ = _
  rw [hread]
  cases lexFrom after rest <;> rfl

section

variable {c : Char}

theorem isWordChar_of_isWordStart (h : isWordStart c) : isWordChar c := by
  simp only [isWordStart, isWordChar, Char.isAlphanum, Bool.or_eq_true] at *
  exact h.imp_left .inl

theorem isWordChar_of_isDigit (h : c.isDigit) : isWordChar c := by
  simp [isWordChar, Char.isAlphanum, h]

theorem isSeparator_of_isWordChar (h : isWordChar c) : isSeparator c = false := by
  cases hseparator : isSeparator c with
  | false => rfl
  | true =>
    simp only [isSeparator, Bool.or_eq_true, decide_eq_true_eq] at hseparator
    rcases hseparator with (((rfl | rfl) | rfl) | rfl) | rfl <;> cases h

theorem isDigit_of_isWordStart (h : isWordStart c) : c.isDigit = false := by
  cases hdigit : c.isDigit with
  | false => rfl
  | true =>
    simp only [isWordStart, Bool.or_eq_true, decide_eq_true_eq] at h
    rcases h with halpha | rfl
    · unfold Char.isAlpha Char.isUpper Char.isLower at halpha
      simp only [Char.isDigit, Bool.or_eq_true,
        Bool.and_eq_true, decide_eq_true_eq, ge_iff_le, UInt32.le_iff_toNat_le] at halpha hdigit
      simp at halpha hdigit
      omega
    · cases hdigit

end

theorem isDigit_of_ends {rest : List Char} (h : Ends rest) :
    ∀ c ∈ rest.head?, c.isDigit = false := by
  intro c hc
  cases hdigit : c.isDigit with
  | false => rfl
  | true =>
    have hword := (h c hc).1
    rw [isWordChar_of_isDigit hdigit] at hword
    cases hword

theorem numberAtStart_word {c : Char} (hstart : isWordStart c) (rest : List Char) :
    numberAtStart (c :: rest) = [] := by
  have hdigit := isDigit_of_isWordStart hstart
  have hpoint : c ≠ '.' := by
    rintro rfl
    cases hstart
  simp [numberAtStart, pointAndDigits, hdigit, hpoint]

/-- A word is one token, keyword or name. -/
theorem reads_of_isWord {word : String} (h : IsWord word.toList) :
    Reads word.toList [ofWord word] := by
  obtain ⟨c, others, htext, hstart, hothers⟩ := h
  rw [htext]
  refine reads_of_first? (isSeparator_of_isWordChar (isWordChar_of_isWordStart hstart))
    fun rest hrest ↦ ?_
  have hnumber := numberAtStart_word hstart (others ++ rest)
  have hword : wordAtStart (c :: (others ++ rest)) = c :: others := by
    have htake := takeWhile_run hothers fun next hnext ↦ (hrest next hnext).1
    rw [wordAtStart, if_pos hstart, htake]
  unfold first?
  rw [List.cons_append, hnumber, hword, if_neg (fun h ↦ h rfl), if_pos (List.cons_ne_nil c others),
    ← htext, String.ofList_toList]

theorem reads_of_isName {name : String} (h : IsName name) :
    Reads name.toList [.identifier name] := by
  rw [← h.2]
  exact reads_of_isWord h.1

/-- A name is what has itself as its only token. -/
theorem isName_iff {name : String} :
    IsName name ↔ ∃ lexemes, lex name = .ok lexemes ∧
      lexemes.map Lexeme.token = [.identifier name] := by
  constructor
  · intro h
    exact (reads_of_isName h).lex
  · rintro ⟨lexemes, hlex, htokens⟩
    exact isName_of_lexFrom hlex (by rw [htokens]; exact List.mem_singleton_self _)

theorem pointAndDigits_ends {rest : List Char} (h : Ends rest) : pointAndDigits rest = [] := by
  cases rest with
  | nil => rfl
  | cons c rest => simp [pointAndDigits, (h c rfl).2]

/-- A numeral is taken as a whole if what follows ends it. -/
theorem numberAtStart_numeral {text rest : List Char} (h : Decimal.IsNumeral text)
    (hrest : Ends rest) : numberAtStart (text ++ rest) = text := by
  have hdigit := isDigit_of_ends hrest
  cases h with
  | whole hdigits =>
    rw [numberAtStart, takeWhile_run hdigits.2 hdigit, List.drop_left, pointAndDigits_ends hrest,
      List.append_nil]
  | pointed hdigits hfraction =>
    rename_i digits fraction
    have hpoint : ∀ c ∈ ('.' :: (fraction ++ rest)).head?, c.isDigit = false := by
      intro c hc
      cases hc
      rfl
    rw [List.append_assoc, List.cons_append, numberAtStart, takeWhile_run hdigits.2 hpoint,
      List.drop_left, pointAndDigits, takeWhile_run hfraction.2 hdigit, if_neg hfraction.1]

/-- A numeral is one token, with its text. -/
theorem reads_of_isNumeral {text : String} (h : Decimal.IsNumeral text.toList) :
    Reads text.toList [.number text] := by
  obtain ⟨c, others, htext, hc⟩ := h.exists_digit
  rw [htext]
  refine reads_of_first? (isSeparator_of_isWordChar (isWordChar_of_isDigit hc)) fun rest hrest ↦ ?_
  unfold first?
  rw [← htext, numberAtStart_numeral h hrest, if_pos (by simp [htext]), String.ofList_toList]

theorem Reads.append_symbol {c : Char} {token : Token} {text more : List Char}
    {tokens others : List Token} (htext : Reads text tokens) (hsymbol : ofSymbol? c = some token)
    (hmore : Reads more others) : Reads (text ++ c :: more) (tokens ++ token :: others) :=
  htext.append (hmore.symbol_cons hsymbol) fun rest ↦ ends_symbol hsymbol (more ++ rest)

theorem Reads.parenthesized {text : List Char} {tokens : List Token} (h : Reads text tokens) :
    Reads ('(' :: (text ++ [')'])) (.leftParen :: (tokens ++ [.rightParen])) :=
  (h.append_symbol rfl reads_nil).symbol_cons rfl

theorem Reads.append_parenthesized {word text : List Char} {first tokens : List Token}
    (hword : Reads word first) (h : Reads text tokens) :
    Reads (word ++ '(' :: (text ++ [')'])) (first ++ .leftParen :: (tokens ++ [.rightParen])) :=
  hword.append_symbol rfl (h.append_symbol rfl reads_nil)

theorem reads_ofOperator (operator : Operator) :
    Reads (ofOperator operator).text.toList [ofOperator operator] := by
  cases operator <;> exact reads_nil.symbol_cons rfl

/-- Operators are written between blanks and read as one token. -/
theorem Reads.append_operator {left right : List Char} {first second : List Token}
    (hleft : Reads left first) (operator : Operator) (hright : Reads right second) :
    Reads (left ++ ' ' :: ((ofOperator operator).text.toList ++ ' ' :: right))
      (first ++ ofOperator operator :: second) := by
  have hmiddle := (reads_ofOperator operator).append hright.blank_cons fun rest ↦ ends_blank _
  exact hleft.append hmiddle.blank_cons fun rest ↦ ends_blank _

theorem reads_frac : Reads "frac".toList [.frac] :=
  reads_of_isWord (isWord_of_all rfl rfl rfl)

theorem reads_sqrt : Reads "sqrt".toList [.root] :=
  reads_of_isWord (isWord_of_all rfl rfl rfl)

theorem reads_root : Reads "root".toList [.root] :=
  reads_of_isWord (isWord_of_all rfl rfl rfl)

end Formula.Token

namespace Formula.ParseTree

open Token

/-! ## Trees -/

def tokens : ParseTree → List Token
  | number text _ => [.number text]
  | identifier name _ => [.identifier name]
  | fraction numerator denominator _ =>
    .frac :: .leftParen ::
      (numerator.tokens ++ .comma :: (denominator.tokens ++ [.rightParen]))
  | call keyword argument _ =>
    .identifier keyword :: .leftParen :: (argument.tokens ++ [.rightParen])
  | squareRoot radicand _ => .root :: .leftParen :: (radicand.tokens ++ [.rightParen])
  | root index radicand _ =>
    .root :: .leftBracket ::
      (index.tokens ++ .rightBracket :: .leftParen :: (radicand.tokens ++ [.rightParen]))
  | binary left operator right _ => left.tokens ++ operator :: right.tokens
  | negation operand _ => .minus :: operand.tokens
  | factorial operand _ => operand.tokens ++ [.bang]
  | group inner => .leftParen :: (inner.tokens ++ [.rightParen])

/-- Whether each number, name and operator in the tree is written as one token of its kind. -/
def Legible : ParseTree → Prop
  | number text _ => Decimal.IsNumeral text.toList
  | identifier name _ => IsName name
  | fraction numerator denominator _ => numerator.Legible ∧ denominator.Legible
  | call keyword argument _ => IsName keyword ∧ argument.Legible
  | squareRoot radicand _ => radicand.Legible
  | root index radicand _ => index.Legible ∧ radicand.Legible
  | binary left operator right _ =>
    left.Legible ∧ (∃ infixed, operator = .ofOperator infixed) ∧ right.Legible
  | negation operand _ => operand.Legible
  | factorial operand _ => operand.Legible
  | group inner => inner.Legible

/-- The text of a legible tree is read as the tokens of the tree. -/
theorem reads_text (tree : ParseTree) (h : tree.Legible) : Reads tree.text.toList tree.tokens := by
  induction tree with
  | number text position => exact reads_of_isNumeral h
  | identifier name position => exact reads_of_isName h
  | fraction numerator denominator position ihn ihd =>
    have hdenominator := (ihd h.2).append_symbol (rfl : ofSymbol? ')' = some .rightParen) reads_nil
    have harguments := (ihn h.1).append_symbol (rfl : ofSymbol? ',' = some .comma)
      hdenominator.blank_cons
    simpa [text, tokens] using reads_frac.append_symbol rfl harguments
  | call keyword argument position ih =>
    simpa [text, tokens] using (reads_of_isName h.1).append_parenthesized (ih h.2)
  | squareRoot radicand position ih =>
    simpa [text, tokens] using reads_sqrt.append_parenthesized (ih h)
  | root index radicand position ihi ihr =>
    have hindex := (ihi h.1).append_symbol (rfl : ofSymbol? ']' = some .rightBracket)
      (ihr h.2).parenthesized
    simpa [text, tokens] using reads_root.append_symbol rfl hindex
  | binary left operator right position ihl ihr =>
    obtain ⟨infixed, rfl⟩ := h.2.1
    simpa [text, tokens] using (ihl h.1).append_operator infixed (ihr h.2.2)
  | negation operand position ih =>
    simpa [text, tokens] using (ih h).symbol_cons rfl
  | factorial operand position ih =>
    simpa [text, tokens] using (ih h).append_symbol rfl reads_nil
  | group inner ih =>
    simpa [text, tokens] using (ih h).parenthesized

end Formula.ParseTree
