import Mathlib.Data.List.Basic
import Mathlib.Data.String.Basic
import Formula.Proofs.TokenPatterns

/-!
# Reading all tokens of a text

Stretches of a text are its tokens if each is the longest token where it starts, they do not
overlap, and only separators are outside them. Reading gives these tokens, or else the first
character that begins no token after such stretches. Everything before that character reads on its
own as well, since the longest stretch stays the longest where the text is cut behind it.
-/

namespace Formula.Token

@[simp] theorem byteLength_nil : byteLength [] = 0 := rfl

@[simp] theorem byteLength_cons (c : Char) (text : List Char) :
    byteLength (c :: text) = c.utf8Size + byteLength text := rfl

@[simp] theorem byteLength_append (first second : List Char) :
    byteLength (first ++ second) = byteLength first + byteLength second := by
  induction first with
  | nil => simp
  | cons c first ih => rw [List.cons_append, byteLength_cons, ih, byteLength_cons, Nat.add_assoc]

theorem byteLength_eq (text : List Char) : byteLength text = (String.ofList text).utf8ByteSize := by
  rw [String.utf8ByteSize_ofList]
  induction text with
  | nil => rfl
  | cons c text ih => rw [byteLength_cons, ih, String.utf8Len_cons, Nat.add_comm]

theorem eq_nil_of_byteLength_eq_zero {text : List Char} (h : byteLength text = 0) : text = [] := by
  cases text with
  | nil => rfl
  | cons c text =>
    have hsize := c.utf8Size_pos
    rw [byteLength_cons] at h
    omega

theorem byteLength_pos {text : List Char} (h : text ≠ []) : 0 < byteLength text :=
  Nat.pos_of_ne_zero fun hzero ↦ h (eq_nil_of_byteLength_eq_zero hzero)

/-- Of two starts of a text, the one of fewer bytes is a start of the other. -/
theorem exists_append_of_byteLength_le {first second left right : List Char}
    (h : first ++ left = second ++ right) (hle : byteLength first ≤ byteLength second) :
    ∃ middle, second = first ++ middle ∧ left = middle ++ right := by
  rcases List.append_eq_append_iff.1 h with ⟨middle, hsecond, hleft⟩ | ⟨middle, hfirst, hright⟩
  · exact ⟨middle, hsecond, hleft⟩
  · have hmiddle : middle = [] := by
      rw [hfirst, byteLength_append] at hle
      exact eq_nil_of_byteLength_eq_zero (by omega)
    subst hmiddle
    exact ⟨[], by simpa using hfirst.symm, by simpa using hright.symm⟩

/-- A stretch of text that is a token, and the byte offset at which it starts. -/
structure Span where
  token : Token
  start : Nat
  text : List Char

namespace Span

def stop (span : Span) : Nat :=
  span.start + byteLength span.text

def lexeme (span : Span) : Lexeme :=
  ⟨span.token, span.start⟩

end Span

/-- The stretches are the tokens of a text that starts at a byte offset. What follows the text is
only there to be seen: it can continue a token, so it counts for which stretch is the longest. -/
structure Tokenized (start : Nat) (text rest : List Char) (spans : List Span) : Prop where
  longest : ∀ span ∈ spans, ∃ before after, text = before ++ (span.text ++ after) ∧
    span.start = start + byteLength before ∧
    LongestToken (span.text ++ (after ++ rest)) span.text span.token
  ordered : spans.Pairwise fun first second ↦
    first.start < second.start ∧ first.stop ≤ second.start
  separated : ∀ before c after, text = before ++ c :: after → isSeparator c ∨
    ∃ span ∈ spans, span.start ≤ start + byteLength before ∧
      start + byteLength before + c.utf8Size ≤ span.stop

namespace Tokenized

variable {start : Nat} {c : Char} {text rest taken : List Char} {token : Token}
  {span : Span} {spans : List Span}

theorem nil : Tokenized start [] rest [] where
  longest _ h := absurd h List.not_mem_nil
  ordered := .nil
  separated before c after h := absurd h (by simp)

theorem cons_separator (hc : isSeparator c)
    (h : Tokenized (start + c.utf8Size) text rest spans) :
    Tokenized start (c :: text) rest spans where
  longest span hspan := by
    obtain ⟨before, after, htext, hstart, hlongest⟩ := h.longest span hspan
    refine ⟨c :: before, after, by rw [htext, List.cons_append], ?_, hlongest⟩
    rw [hstart, byteLength_cons, Nat.add_assoc]
  ordered := h.ordered
  separated before next after htext := by
    cases before with
    | nil =>
      cases htext
      exact .inl hc
    | cons first before =>
      obtain ⟨rfl, hrest⟩ := List.cons.inj htext
      have hnext := h.separated before next after hrest
      rwa [Nat.add_assoc, ← byteLength_cons] at hnext

/-- A longest token in front of a text is its first span. -/
theorem append_token (hlongest : LongestToken (taken ++ (text ++ rest)) taken token)
    (h : Tokenized (start + byteLength taken) text rest spans) :
    Tokenized start (taken ++ text) rest (⟨token, start, taken⟩ :: spans) where
  longest span hspan := by
    rcases List.mem_cons.1 hspan with rfl | hspan
    · exact ⟨[], text, rfl, rfl, hlongest⟩
    · obtain ⟨before, after, htext, hstart, hspanLongest⟩ := h.longest span hspan
      refine ⟨taken ++ before, after, by rw [htext, List.append_assoc], ?_, hspanLongest⟩
      rw [hstart, byteLength_append, Nat.add_assoc]
  ordered := by
    refine List.pairwise_cons.2 ⟨fun span hspan ↦ ?_, h.ordered⟩
    obtain ⟨before, -, -, hstart, -⟩ := h.longest span hspan
    have hpos := byteLength_pos hlongest.spells.ne_nil
    simp only [Span.stop]
    omega
  separated before next after htext := by
    rcases Nat.lt_or_ge (byteLength before) (byteLength taken) with hlt | hge
    · obtain ⟨middle, htaken, hnext⟩ :=
        exists_append_of_byteLength_le htext.symm (Nat.le_of_lt hlt)
      rw [htaken, byteLength_append] at hlt
      cases middle with
      | nil => exact absurd hlt (Nat.lt_irrefl _)
      | cons first middle =>
        obtain ⟨rfl, -⟩ := List.cons.inj hnext
        refine .inr ⟨_, List.mem_cons_self, Nat.le_add_right _ _, ?_⟩
        simp only [Span.stop, htaken, byteLength_append, byteLength_cons]
        omega
    · obtain ⟨middle, rfl, hmiddle⟩ := exists_append_of_byteLength_le htext hge
      have hnext := h.separated middle next after hmiddle
      rw [byteLength_append, ← Nat.add_assoc]
      exact hnext.imp_right fun ⟨span, hspan, hinside⟩ ↦
        ⟨span, List.mem_cons_of_mem _ hspan, hinside⟩

theorem eq_nil (h : Tokenized start [] rest spans) : spans = [] := by
  cases spans with
  | nil => rfl
  | cons span spans =>
    obtain ⟨before, after, htext, -, hlongest⟩ := h.longest span List.mem_cons_self
    exact absurd htext (by simp [hlongest.spells.ne_nil])

theorem of_cons_separator (hc : isSeparator c) (h : Tokenized start (c :: text) rest spans) :
    Tokenized (start + c.utf8Size) text rest spans where
  longest span hspan := by
    obtain ⟨before, after, htext, hstart, hlongest⟩ := h.longest span hspan
    cases before with
    | nil =>
      -- no token starts with a separator
      obtain ⟨first, others, hfirst⟩ := List.exists_cons_of_ne_nil hlongest.spells.ne_nil
      rw [hfirst] at htext
      obtain ⟨rfl, -⟩ := List.cons.inj htext
      have hspells := hlongest.spells
      rw [hfirst] at hspells
      rw [hspells.isSeparator_eq_false] at hc
      cases hc
    | cons first before =>
      obtain ⟨rfl, hrest⟩ := List.cons.inj htext
      refine ⟨before, after, hrest, ?_, hlongest⟩
      rw [hstart, byteLength_cons, Nat.add_assoc]
  ordered := h.ordered
  separated before next after htext := by
    have hnext := h.separated (c :: before) next after (by rw [htext, List.cons_append])
    rwa [byteLength_cons, ← Nat.add_assoc] at hnext

theorem of_append_token
    (h : Tokenized start (taken ++ text) rest (⟨token, start, taken⟩ :: spans)) :
    Tokenized (start + byteLength taken) text rest spans where
  longest span hspan := by
    obtain ⟨before, after, htext, hstart, hlongest⟩ :=
      h.longest span (List.mem_cons_of_mem _ hspan)
    have hstop := ((List.pairwise_cons.1 h.ordered).1 span hspan).2
    rw [Span.stop, hstart] at hstop
    obtain ⟨middle, rfl, hmiddle⟩ :=
      exists_append_of_byteLength_le htext (Nat.le_of_add_le_add_left hstop)
    refine ⟨middle, after, hmiddle, ?_, hlongest⟩
    rw [hstart, byteLength_append, Nat.add_assoc]
  ordered := (List.pairwise_cons.1 h.ordered).2
  separated before next after htext := by
    have hsize := next.utf8Size_pos
    have hnext := h.separated (taken ++ before) next after (by rw [htext, List.append_assoc])
    rw [byteLength_append, ← Nat.add_assoc] at hnext
    refine hnext.imp_right fun ⟨span, hspan, hinside⟩ ↦ ⟨span, ?_, hinside⟩
    rcases List.mem_cons.1 hspan with rfl | hlater
    · -- the first token ends before the character
      simp only [Span.stop] at hinside
      omega
    · exact hlater

/-- Where a text does not start with a separator, it starts with its first token. -/
theorem exists_token (hc : isSeparator c = false) (h : Tokenized start (c :: text) rest spans) :
    ∃ token taken after later, c :: text = taken ++ after ∧
      LongestToken (taken ++ (after ++ rest)) taken token ∧
      spans = ⟨token, start, taken⟩ :: later ∧
      Tokenized (start + byteLength taken) after rest later := by
  obtain hseparator | ⟨span, hspan, hle, -⟩ := h.separated [] c text rfl
  · rw [hc] at hseparator
    cases hseparator
  · cases spans with
    | nil => cases hspan
    | cons first later =>
      obtain ⟨token, position, taken⟩ := first
      obtain ⟨before, after, htext, hstart, hlongest⟩ := h.longest _ List.mem_cons_self
      have hfirst : position ≤ start := by
        rcases List.mem_cons.1 hspan with rfl | hlater
        · exact hle
        · have hbefore := ((List.pairwise_cons.1 h.ordered).1 span hlater).1
          exact Nat.le_of_lt (Nat.lt_of_lt_of_le hbefore hle)
      obtain rfl : before = [] := eq_nil_of_byteLength_eq_zero (by dsimp only at hstart; omega)
      obtain rfl : position = start := hstart
      rw [htext] at h
      exact ⟨token, taken, after, later, htext, hlongest, rfl, h.of_append_token⟩

end Tokenized

/-! ## Reading -/

theorem lexFrom_separator {start : Nat} {c : Char} (hc : isSeparator c) (text : List Char) :
    lexFrom start (c :: text) = lexFrom (start + c.utf8Size) text := by
  rw [lexFrom, if_pos hc]

theorem lexFrom_token {start : Nat} {taken text : List Char} {token : Token}
    (h : LongestToken (taken ++ text) taken token) :
    lexFrom start (taken ++ text) =
      (lexFrom (start + byteLength taken) text).map (⟨token, start⟩ :: ·) := by
  obtain ⟨c, others, rfl⟩ := List.exists_cons_of_ne_nil h.spells.ne_nil
  have hstep := @lexFrom_of_first? start c (others ++ text) _ _ h.spells.isSeparator_eq_false
    (first?_eq_some_iff.2 h)
  have hdrop : (c :: others ++ text).drop (c :: others).length = text := List.drop_left
  rw [← List.cons_append, hdrop] at hstep
  exact hstep

/-- The tokens of a text are read first, whatever follows it. -/
theorem Tokenized.lexFrom_append {start : Nat} {text rest : List Char} {spans : List Span}
    (h : Tokenized start text rest spans) :
    lexFrom start (text ++ rest) =
      (lexFrom (start + byteLength text) rest).map (spans.map Span.lexeme ++ ·) := by
  induction hlength : text.length using Nat.strong_induction_on generalizing start text spans with
  | h length ih =>
    cases text with
    | nil =>
      obtain rfl := h.eq_nil
      rw [List.nil_append, byteLength_nil, Nat.add_zero]
      cases lexFrom start rest <;> rfl
    | cons c text =>
      rw [List.length_cons] at hlength
      cases hc : isSeparator c with
      | true =>
        have hrest := ih text.length (by omega) (h.of_cons_separator hc) rfl
        rw [List.cons_append, lexFrom_separator hc, hrest, byteLength_cons, Nat.add_assoc]
      | false =>
        obtain ⟨token, taken, after, later, htext, hlongest, rfl, hlater⟩ := h.exists_token hc
        have hpos := List.length_pos_of_ne_nil hlongest.spells.ne_nil
        have htotal := congrArg List.length htext
        rw [List.length_cons, List.length_append] at htotal
        have hrest := ih after.length (by omega) hlater rfl
        rw [htext, List.append_assoc, lexFrom_token hlongest, hrest, byteLength_append,
          Nat.add_assoc]
        cases lexFrom (start + (byteLength taken + byteLength after)) rest <;> rfl

/-- Neither a token nor a separator stands at the start of the text. -/
def Stuck (text : List Char) : Prop :=
  ∀ c ∈ text.head?, isSeparator c = false ∧
    ∀ taken token, taken <+: text → ¬ Spells taken token

/-- Where no token starts, the character there is reported. -/
theorem lexFrom_stuck {start : Nat} {c : Char} {after : List Char} (h : Stuck (c :: after)) :
    lexFrom start (c :: after) = .error ⟨c, start⟩ := by
  obtain ⟨hc, hnone⟩ := h c rfl
  rw [lexFrom, if_neg (by simp [hc])]
  split
  · rfl
  · next token taken hfirst =>
    obtain ⟨hstarts, hspells⟩ := starts_and_spells_of_first? hfirst
    exact absurd hspells (hnone taken token hstarts)

/-- Every text is tokenized up to its end or up to where it is stuck. -/
theorem exists_tokenized (start : Nat) (text : List Char) :
    ∃ before rest spans, text = before ++ rest ∧ Tokenized start before rest spans ∧
      Stuck rest := by
  fun_induction lexFrom start text with
  | case1 => exact ⟨[], [], [], rfl, .nil, by simp [Stuck]⟩
  | case2 start c text hc ih =>
    obtain ⟨before, rest, spans, rfl, hbefore, hstuck⟩ := ih
    exact ⟨c :: before, rest, spans, rfl, hbefore.cons_separator hc, hstuck⟩
  | case3 start c text hc hnone =>
    refine ⟨[], c :: text, [], rfl, .nil, ?_⟩
    rintro first ⟨⟩
    exact ⟨by simpa using hc, first?_eq_none_iff.1 hnone⟩
  | case4 start c text hc token taken hfirst hlength ih =>
    obtain ⟨before, rest, spans, hdrop, hbefore, hstuck⟩ := ih
    have hlongest := first?_eq_some_iff.1 hfirst
    obtain ⟨after, htext⟩ := hlongest.starts
    rw [← htext, List.drop_left] at hdrop
    rw [← htext, hdrop] at hlongest ⊢
    exact ⟨taken ++ before, rest, _, (List.append_assoc _ _ _).symm,
      hbefore.append_token hlongest, hstuck⟩

/-- The reader succeeds exactly on texts that are all tokens and separators. -/
theorem lexFrom_eq_ok_iff {start : Nat} {text : List Char} {lexemes : List Lexeme} :
    lexFrom start text = .ok lexemes ↔
      ∃ spans, spans.map Span.lexeme = lexemes ∧ Tokenized start text [] spans := by
  constructor
  · intro h
    obtain ⟨before, rest, spans, rfl, hbefore, hstuck⟩ := exists_tokenized start text
    rw [hbefore.lexFrom_append] at h
    cases rest with
    | nil =>
      rw [lexFrom] at h
      obtain rfl := Except.ok.inj h
      exact ⟨spans, (List.append_nil _).symm, by rwa [List.append_nil]⟩
    | cons c after =>
      rw [lexFrom_stuck hstuck] at h
      cases h
  · rintro ⟨spans, rfl, h⟩
    have hread := h.lexFrom_append
    rw [List.append_nil, lexFrom] at hread
    rw [hread]
    exact congrArg Except.ok (List.append_nil _)

/-- The lexemes of a text are written where they stand, each as the longest token there. -/
theorem exists_longestToken_of_lex {source : String} {lexemes : List Lexeme} {lexeme : Lexeme}
    (hlex : lex source = .ok lexemes) (hmem : lexeme ∈ lexemes) :
    ∃ before taken after, source.toList = before ++ (taken ++ after) ∧
      lexeme.position = byteLength before ∧
      LongestToken (taken ++ after) taken lexeme.token := by
  obtain ⟨spans, rfl, htokenized⟩ := lexFrom_eq_ok_iff.1 hlex
  obtain ⟨span, hspan, rfl⟩ := List.mem_map.1 hmem
  obtain ⟨before, after, hsource, hstart, hlongest⟩ := htokenized.longest span hspan
  rw [List.append_nil] at hlongest
  exact ⟨before, span.text, after, hsource, hstart.trans (Nat.zero_add _), hlongest⟩

/-- The error is at the character at which a text is stuck. -/
theorem lexFrom_eq_error_iff {start : Nat} {text : List Char} {error : LexicalError} :
    lexFrom start text = .error error ↔
      ∃ before after spans, text = before ++ error.character :: after ∧
        error.position = start + byteLength before ∧
        Tokenized start before (error.character :: after) spans ∧
        Stuck (error.character :: after) := by
  constructor
  · intro h
    obtain ⟨before, rest, spans, rfl, hbefore, hstuck⟩ := exists_tokenized start text
    rw [hbefore.lexFrom_append] at h
    cases rest with
    | nil =>
      rw [lexFrom] at h
      cases h
    | cons c after =>
      rw [lexFrom_stuck hstuck] at h
      cases h
      exact ⟨before, after, spans, rfl, rfl, hbefore, hstuck⟩
  · rintro ⟨before, after, spans, rfl, hposition, hbefore, hstuck⟩
    rw [hbefore.lexFrom_append, lexFrom_stuck hstuck, ← hposition]
    rfl

theorem LongestToken.of_append {text rest taken : List Char} {token : Token}
    (h : LongestToken (taken ++ (text ++ rest)) taken token) :
    LongestToken (taken ++ text) taken token where
  starts := List.prefix_append taken text
  spells := h.spells
  longest other spelled hother := by
    refine h.longest other spelled ?_
    rw [← List.append_assoc]
    exact hother.trans (List.prefix_append _ rest)

/-- A text has the same tokens if nothing follows it. -/
theorem Tokenized.cut {start : Nat} {text rest : List Char} {spans : List Span}
    (h : Tokenized start text rest spans) : Tokenized start text [] spans where
  longest span hspan := by
    obtain ⟨before, after, htext, hstart, hlongest⟩ := h.longest span hspan
    rw [← after.append_nil] at hlongest
    exact ⟨before, after, htext, hstart, by simpa using hlongest.of_append⟩
  ordered := h.ordered
  separated := h.separated

/-- Reading is exact. The lexemes of a source are those of its tokens; an error is at the first
character, in the order of reading, that begins neither a token nor a separator, and what stands
before that character reads without an error. Either there are lexemes or there is an error. -/
theorem lex_exact (source : String) :
    (∀ lexemes, lex source = .ok lexemes ↔
      ∃ spans, spans.map Span.lexeme = lexemes ∧ Tokenized 0 source.toList [] spans) ∧
    (∀ error, lex source = .error error ↔
      ∃ before after spans, source.toList = before ++ error.character :: after ∧
        error.position = byteLength before ∧
        Tokenized 0 before (error.character :: after) spans ∧
        Stuck (error.character :: after)) ∧
    (∀ error, lex source = .error error →
      ∃ before after, source = String.ofList before ++ String.ofList (error.character :: after) ∧
        error.position = (String.ofList before).utf8ByteSize ∧
        ∃ lexemes, lex (String.ofList before) = .ok lexemes) ∧
    Xor (∃ lexemes, lex source = .ok lexemes) (∃ error, lex source = .error error) := by
  have herrors (error : LexicalError) : lex source = .error error ↔
      ∃ before after spans, source.toList = before ++ error.character :: after ∧
        error.position = byteLength before ∧
        Tokenized 0 before (error.character :: after) spans ∧
        Stuck (error.character :: after) := by
    simp only [lex, lexFrom_eq_error_iff, Nat.zero_add]
  refine ⟨fun lexemes ↦ lexFrom_eq_ok_iff, herrors, ?_, ?_⟩
  · intro error herror
    obtain ⟨before, after, spans, hsource, hposition, hbefore, -⟩ := (herrors error).1 herror
    refine ⟨before, after, ?_, by rw [hposition, byteLength_eq], spans.map Span.lexeme, ?_⟩
    · rw [← String.ofList_append, ← hsource, String.ofList_toList]
    · rw [lex, String.toList_ofList]
      exact lexFrom_eq_ok_iff.2 ⟨spans, rfl, hbefore.cut⟩
  · cases hlex : lex source with
    | ok lexemes => exact .inl ⟨⟨lexemes, rfl⟩, by simp⟩
    | error error => exact .inr ⟨⟨error, rfl⟩, by simp⟩

/-- A point that no digit follows is an error, wherever the number before it ends. -/
theorem lex_exact_trailing_point :
    lex "1.2.3 .x" = .error ⟨'.', 6⟩ ∧
    ∃ before after, "1.2.3 .x" = String.ofList before ++ String.ofList ('.' :: after) ∧
      6 = (String.ofList before).utf8ByteSize ∧
      ∃ lexemes, lex (String.ofList before) = .ok lexemes := by
  have herror : lex "1.2.3 .x" = .error ⟨'.', 6⟩ := by decide +kernel
  exact ⟨herror, (lex_exact _).2.2.1 _ herror⟩

end Formula.Token
