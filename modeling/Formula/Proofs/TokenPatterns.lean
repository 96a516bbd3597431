import Formula.Proofs.Lexing

/-!
# The patterns of tokens

What is written for each token, without a way to find it. The token at the start of a text is the
longest stretch there that any pattern has; no pattern begins where none is found. A number, a word
and a symbol differ in their first characters, so a stretch is never two of them, and its text says
which token it is.
-/

namespace Formula.Token

def keywords : List (String × Token) :=
  [("frac", frac), ("fraction", frac), ("sqrt", root), ("root", root)]

def symbols : List (Char × Token) :=
  [('+', plus), ('-', minus), ('*', star), ('/', slash), ('%', percent), ('^', caret), ('!', bang),
    ('(', leftParen), (')', rightParen), ('[', leftBracket), (']', rightBracket), (',', comma)]

/-- The whole text is one token. Nothing is said about how it is found in a longer text. -/
inductive Spells : List Char → Token → Prop where
  | numeral {text : List Char} (h : Decimal.IsNumeral text) :
      Spells text (.number (String.ofList text))
  | fraction {digits : List Char} (h : Decimal.IsDigits digits) :
      Spells ('.' :: digits) (.number (String.ofList ('.' :: digits)))
  | keyword {word : String} {token : Token} (h : (word, token) ∈ keywords) :
      Spells word.toList token
  | identifier {word : List Char} (hword : IsWord word)
      (hname : ∀ token, (String.ofList word, token) ∉ keywords) :
      Spells word (.identifier (String.ofList word))
  | symbol {c : Char} {token : Token} (h : (c, token) ∈ symbols) : Spells [c] token

/-- The stretch is the longest at the start of the text that is a token. -/
structure LongestToken (text taken : List Char) (token : Token) : Prop where
  starts : taken <+: text
  spells : Spells taken token
  longest : ∀ other spelled, other <+: text → Spells other spelled → other.length ≤ taken.length

theorem ofSymbol?_eq_some_iff {c : Char} {token : Token} :
    ofSymbol? c = some token ↔ (c, token) ∈ symbols := by
  constructor
  · intro h
    unfold ofSymbol? at h
    split at h <;> cases h <;> decide
  · intro h
    simp only [symbols, List.mem_cons, Prod.mk.injEq, List.not_mem_nil, or_false] at h
    rcases h with ⟨rfl, rfl⟩ | ⟨rfl, rfl⟩ | ⟨rfl, rfl⟩ | ⟨rfl, rfl⟩ | ⟨rfl, rfl⟩ | ⟨rfl, rfl⟩ |
      ⟨rfl, rfl⟩ | ⟨rfl, rfl⟩ | ⟨rfl, rfl⟩ | ⟨rfl, rfl⟩ | ⟨rfl, rfl⟩ | ⟨rfl, rfl⟩ <;> rfl

/-- Every keyword is a word, and read as its token. -/
theorem keyword_spec {word : String} {token : Token} (h : (word, token) ∈ keywords) :
    IsWord word.toList ∧ ofWord word = token := by
  simp only [keywords, List.mem_cons, Prod.mk.injEq, List.not_mem_nil, or_false] at h
  rcases h with ⟨rfl, rfl⟩ | ⟨rfl, rfl⟩ | ⟨rfl, rfl⟩ | ⟨rfl, rfl⟩ <;>
    exact ⟨isWord_of_all rfl rfl rfl, by decide⟩

theorem ofWord_of_not_keyword {word : String} (h : ∀ token, (word, token) ∉ keywords) :
    ofWord word = .identifier word := by
  have hfrac := h frac
  have hroot := h root
  simp only [keywords, List.mem_cons, Prod.mk.injEq, List.not_mem_nil, or_false, and_true,
    reduceCtorEq, and_false, false_or] at hfrac hroot
  rw [ofWord, if_neg hfrac, if_neg hroot]

theorem spells_ofWord {word : List Char} (h : IsWord word) :
    Spells word (ofWord (String.ofList word)) := by
  by_cases hkeyword : ∃ token, (String.ofList word, token) ∈ keywords
  · obtain ⟨token, htoken⟩ := hkeyword
    rw [(keyword_spec htoken).2]
    simpa using Spells.keyword htoken
  · rw [not_exists] at hkeyword
    rw [ofWord_of_not_keyword hkeyword]
    exact .identifier h hkeyword

/-- Digits with a point inside or in front, or without one. -/
def IsNumber (text : List Char) : Prop :=
  Decimal.IsNumeral text ∨ ∃ digits, text = '.' :: digits ∧ Decimal.IsDigits digits

/-- A token is a number, a word or a symbol, and its text says which token it is. -/
theorem spells_iff {text : List Char} {token : Token} :
    Spells text token ↔
      IsNumber text ∧ token = .number (String.ofList text) ∨
      IsWord text ∧ token = ofWord (String.ofList text) ∨
      ∃ c, text = [c] ∧ ofSymbol? c = some token := by
  constructor
  · intro h
    cases h with
    | numeral h => exact .inl ⟨.inl h, rfl⟩
    | fraction h => exact .inl ⟨.inr ⟨_, rfl, h⟩, rfl⟩
    | keyword h =>
      obtain ⟨hword, htoken⟩ := keyword_spec h
      exact .inr (.inl ⟨hword, by rw [String.ofList_toList, htoken]⟩)
    | identifier hword hname => exact .inr (.inl ⟨hword, (ofWord_of_not_keyword hname).symm⟩)
    | symbol h => exact .inr (.inr ⟨_, rfl, ofSymbol?_eq_some_iff.2 h⟩)
  · rintro (⟨h | ⟨digits, rfl, h⟩, rfl⟩ | ⟨h, rfl⟩ | ⟨c, rfl, h⟩)
    · exact .numeral h
    · exact .fraction h
    · exact spells_ofWord h
    · exact .symbol (ofSymbol?_eq_some_iff.1 h)

theorem numberAtStart_eq (text : List Char) :
    numberAtStart text =
      text.takeWhile Char.isDigit ++ pointAndDigits (text.dropWhile Char.isDigit) := by
  have hsplit : text.takeWhile Char.isDigit ++ text.dropWhile Char.isDigit = text :=
    List.takeWhile_append_dropWhile
  have hdrop : text.drop (text.takeWhile Char.isDigit).length = text.dropWhile Char.isDigit := by
    conv_lhs => arg 2; rw [← hsplit]
    exact List.drop_left
  rw [numberAtStart, hdrop]

theorem isDigits_takeWhile {text : List Char} (h : text.takeWhile Char.isDigit ≠ []) :
    Decimal.IsDigits (text.takeWhile Char.isDigit) :=
  ⟨h, List.all_eq_true.1 List.all_takeWhile⟩

/-- A point is taken only with digits behind it. -/
theorem pointAndDigits_cases (text : List Char) :
    pointAndDigits text = [] ∨ ∃ digits, pointAndDigits text = '.' :: digits ∧
      Decimal.IsDigits digits ∧ '.' :: digits <+: text := by
  unfold pointAndDigits
  split
  · next rest =>
    by_cases hdigits : rest.takeWhile Char.isDigit = []
    · exact .inl (if_pos hdigits)
    · exact .inr ⟨_, if_neg hdigits, isDigits_takeWhile hdigits,
        (List.cons_prefix_cons.2 ⟨rfl, List.takeWhile_prefix _⟩)⟩
  · exact .inl rfl

theorem numberAtStart_starts (text : List Char) : numberAtStart text <+: text := by
  rw [numberAtStart_eq]
  conv_rhs => rw [← @List.takeWhile_append_dropWhile _ Char.isDigit text]
  rw [List.prefix_append_right_inj]
  rcases pointAndDigits_cases (text.dropWhile Char.isDigit) with hnone | ⟨digits, heq, -, hstarts⟩
  · rw [hnone]
    exact List.nil_prefix
  · rwa [heq]

/-- What is taken as a number is one. -/
theorem isNumber_numberAtStart {text : List Char} (h : numberAtStart text ≠ []) :
    IsNumber (numberAtStart text) := by
  rw [numberAtStart_eq] at h ⊢
  by_cases hwhole : text.takeWhile Char.isDigit = []
  · rw [hwhole, List.nil_append] at h ⊢
    rcases pointAndDigits_cases (text.dropWhile Char.isDigit) with hnone | ⟨digits, heq, hdigits, -⟩
    · exact absurd hnone h
    · exact .inr ⟨digits, heq, hdigits⟩
  · have hdigits := isDigits_takeWhile hwhole
    rcases pointAndDigits_cases (text.dropWhile Char.isDigit) with hnone | ⟨fraction, heq, hf, -⟩
    · rw [hnone, List.append_nil]
      exact .inl (.whole hdigits)
    · rw [heq]
      exact .inl (.pointed hdigits hf)

/-- A number is continued with all digits that follow its point. -/
theorem numberAtStart_pointed {digits fraction : List Char} (hdigits : ∀ c ∈ digits, c.isDigit)
    (hfraction : Decimal.IsDigits fraction) (rest : List Char) :
    numberAtStart (digits ++ '.' :: (fraction ++ rest)) =
      digits ++ '.' :: fraction ++ rest.takeWhile Char.isDigit := by
  have hpoint : ∀ c ∈ ('.' :: (fraction ++ rest)).head?, c.isDigit = false := by
    rintro c ⟨⟩
    rfl
  have hsome : fraction ++ rest.takeWhile Char.isDigit ≠ [] :=
    List.append_ne_nil_of_left_ne_nil hfraction.1 _
  rw [numberAtStart_eq, takeWhile_run hdigits hpoint, dropWhile_run hdigits hpoint, pointAndDigits,
    List.takeWhile_append_of_pos hfraction.2, if_neg hsome, List.append_assoc, List.cons_append]

/-- No number at the start of a text is longer than the one taken. -/
theorem IsNumber.starts_numberAtStart {text : List Char} (h : IsNumber text) (rest : List Char) :
    text <+: numberAtStart (text ++ rest) := by
  rcases h with hnumeral | ⟨digits, rfl, hdigits⟩
  · cases hnumeral with
    | whole hdigits =>
      rw [numberAtStart_eq, List.takeWhile_append_of_pos hdigits.2, List.append_assoc]
      exact List.prefix_append _ _
    | pointed hdigits hfraction =>
      rw [List.append_assoc, List.cons_append, numberAtStart_pointed hdigits.2 hfraction]
      exact List.prefix_append _ _
  · have hread := @numberAtStart_pointed [] digits (by simp) hdigits rest
    rw [List.nil_append, List.nil_append] at hread
    rw [List.cons_append, hread]
    exact List.prefix_append _ _

theorem IsNumber.numberAtStart_eq_self {text : List Char} (h : IsNumber text) :
    numberAtStart text = text := by
  have hstarts := h.starts_numberAtStart []
  rw [List.append_nil] at hstarts
  exact (numberAtStart_starts text).eq_of_length_le hstarts.length_le

theorem IsNumber.ne_nil {text : List Char} (h : IsNumber text) : text ≠ [] := by
  rcases h with hnumeral | ⟨digits, rfl, -⟩
  · obtain ⟨c, rest, rfl, -⟩ := hnumeral.exists_digit
    exact List.cons_ne_nil c rest
  · exact List.cons_ne_nil _ digits

theorem wordAtStart_starts (text : List Char) : wordAtStart text <+: text := by
  unfold wordAtStart
  split
  · split
    · exact List.cons_prefix_cons.2 ⟨rfl, List.takeWhile_prefix _⟩
    · exact List.nil_prefix
  · exact List.nil_prefix

/-- What is taken as a word is one. -/
theorem isWord_wordAtStart {text : List Char} (h : wordAtStart text ≠ []) :
    IsWord (wordAtStart text) := by
  unfold wordAtStart at h ⊢
  split at h
  · next c rest =>
    split at h
    · next hstart =>
      rw [if_pos hstart]
      exact ⟨c, _, rfl, hstart, List.all_eq_true.1 List.all_takeWhile⟩
    · exact absurd rfl h
  · exact absurd rfl h

/-- No word at the start of a text is longer than the one taken. -/
theorem IsWord.starts_wordAtStart {text : List Char} (h : IsWord text) (rest : List Char) :
    text <+: wordAtStart (text ++ rest) := by
  obtain ⟨c, others, rfl, hstart, hothers⟩ := h
  rw [List.cons_append, wordAtStart, if_pos hstart, List.takeWhile_append_of_pos hothers]
  exact List.prefix_append (c :: others) _

theorem IsWord.wordAtStart_eq_self {text : List Char} (h : IsWord text) :
    wordAtStart text = text := by
  have hstarts := h.starts_wordAtStart []
  rw [List.append_nil] at hstarts
  exact (wordAtStart_starts text).eq_of_length_le hstarts.length_le

theorem IsWord.numberAtStart_eq_nil {text : List Char} (h : IsWord text) (rest : List Char) :
    numberAtStart (text ++ rest) = [] := by
  obtain ⟨c, others, rfl, hstart, -⟩ := h
  exact numberAtStart_word hstart (others ++ rest)

theorem IsWord.ne_nil {text : List Char} (h : IsWord text) : text ≠ [] := by
  obtain ⟨c, others, rfl, -⟩ := h
  exact List.cons_ne_nil c others

/-! ## The first token of a text -/

theorem first?_of_number {text : List Char} (h : numberAtStart text ≠ []) :
    first? text = some (.number (String.ofList (numberAtStart text)), numberAtStart text) := by
  rw [first?.eq_def, if_pos h]

theorem first?_of_word {text : List Char} (hnumber : numberAtStart text = [])
    (hword : wordAtStart text ≠ []) :
    first? text = some (ofWord (String.ofList (wordAtStart text)), wordAtStart text) := by
  rw [first?.eq_def, if_neg (not_not.2 hnumber), if_pos hword]

/-- What is found at the start of a text is there, and it is a token. -/
theorem starts_and_spells_of_first? {text taken : List Char} {token : Token}
    (h : first? text = some (token, taken)) : taken <+: text ∧ Spells taken token := by
  unfold first? at h
  split at h
  · next hnumber =>
    cases h
    exact ⟨numberAtStart_starts text, spells_iff.2 (.inl ⟨isNumber_numberAtStart hnumber, rfl⟩)⟩
  · split at h
    · next hword =>
      cases h
      exact ⟨wordAtStart_starts text, spells_ofWord (isWord_wordAtStart hword)⟩
    · split at h
      · obtain ⟨symbol, hsymbol, hpair⟩ := Option.map_eq_some_iff.1 h
        cases hpair
        exact ⟨⟨_, rfl⟩, .symbol (ofSymbol?_eq_some_iff.1 hsymbol)⟩
      · cases h

/-- Where a text starts with a token, one at least as long is found. -/
theorem Spells.exists_first? {text : List Char} {token : Token} (h : Spells text token)
    (rest : List Char) :
    ∃ found taken, first? (text ++ rest) = some (found, taken) ∧ text <+: taken := by
  rcases spells_iff.1 h with ⟨hnumber, -⟩ | ⟨hword, -⟩ | ⟨c, rfl, hsymbol⟩
  · have hstarts := hnumber.starts_numberAtStart rest
    exact ⟨_, _, first?_of_number (hstarts.ne_nil hnumber.ne_nil), hstarts⟩
  · have hstarts := hword.starts_wordAtStart rest
    exact ⟨_, _, first?_of_word (hword.numberAtStart_eq_nil rest) (hstarts.ne_nil hword.ne_nil),
      hstarts⟩
  · exact ⟨_, _, first?_symbol hsymbol rest, List.prefix_rfl⟩

/-- A text that spells a token is read as that token. -/
theorem Spells.first?_eq {text : List Char} {token : Token} (h : Spells text token) :
    first? text = some (token, text) := by
  rcases spells_iff.1 h with ⟨hnumber, rfl⟩ | ⟨hword, rfl⟩ | ⟨c, rfl, hsymbol⟩
  · have hself := hnumber.numberAtStart_eq_self
    rw [first?_of_number (by rw [hself]; exact hnumber.ne_nil), hself]
  · have hself := hword.wordAtStart_eq_self
    have hnil := hword.numberAtStart_eq_nil []
    rw [List.append_nil] at hnil
    rw [first?_of_word hnil (by rw [hself]; exact hword.ne_nil), hself]
  · exact first?_symbol hsymbol []

theorem Spells.ne_nil {text : List Char} {token : Token} (h : Spells text token) : text ≠ [] :=
  first?_ne_nil h.first?_eq

theorem Spells.isSeparator_eq_false {c : Char} {others : List Char} {token : Token}
    (h : Spells (c :: others) token) : isSeparator c = false := by
  rcases spells_iff.1 h with
    ⟨hnumeral | ⟨digits, hpoint, -⟩, -⟩ | ⟨hword, -⟩ | ⟨symbol, hc, hsymbol⟩
  · obtain ⟨first, rest, hfirst, hdigit⟩ := hnumeral.exists_digit
    cases hfirst
    exact isSeparator_of_isWordChar (isWordChar_of_isDigit hdigit)
  · cases hpoint
    rfl
  · obtain ⟨first, rest, hfirst, hstart, -⟩ := hword
    cases hfirst
    exact isSeparator_of_isWordChar (isWordChar_of_isWordStart hstart)
  · cases hc
    exact isSeparator_symbol hsymbol

/-- No text spells two tokens. -/
theorem Spells.unique {text : List Char} {first second : Token} (hfirst : Spells text first)
    (hsecond : Spells text second) : first = second := by
  have h := hfirst.first?_eq.symm.trans hsecond.first?_eq
  exact (Prod.mk.inj (Option.some.inj h)).1

/-- What is found is the longest token, whichever pattern it has. -/
theorem first?_eq_some_iff {text taken : List Char} {token : Token} :
    first? text = some (token, taken) ↔ LongestToken text taken token := by
  constructor
  · intro h
    obtain ⟨hstarts, hspells⟩ := starts_and_spells_of_first? h
    refine ⟨hstarts, hspells, ?_⟩
    rintro other spelled ⟨rest, rfl⟩ hother
    obtain ⟨found, longer, hfound, hlonger⟩ := hother.exists_first? rest
    cases h.symm.trans hfound
    exact hlonger.length_le
  · rintro ⟨⟨rest, rfl⟩, hspells, hlongest⟩
    obtain ⟨found, longer, hfound, hlonger⟩ := hspells.exists_first? rest
    obtain ⟨hstarts, hspelled⟩ := starts_and_spells_of_first? hfound
    obtain rfl : taken = longer := hlonger.eq_of_length_le (hlongest longer found hstarts hspelled)
    rw [hfound, hspells.unique hspelled]

/-- Nothing is taken exactly if no token starts the text. -/
theorem first?_eq_none_iff {text : List Char} :
    first? text = none ↔ ∀ taken token, taken <+: text → ¬ Spells taken token := by
  constructor
  · rintro h taken token ⟨rest, rfl⟩ hspells
    obtain ⟨found, longer, hfound, -⟩ := hspells.exists_first? rest
    rw [h] at hfound
    cases hfound
  · intro h
    cases hfirst : first? text with
    | none => rfl
    | some found =>
      obtain ⟨hstarts, hspells⟩ := starts_and_spells_of_first? hfirst
      exact absurd hspells (h _ _ hstarts)

end Formula.Token
