import Mathlib.Order.Basic
import Formula.Proofs.Relocation
import Formula.Proofs.Tokenization

/-!
# Spacing and spelling

A text has the same tokens wherever it stands, in front of whatever does not continue its last one.
So the tokens of a text can be written again with one blank between any two, each keyword in the
spelling that is shown for it, and are read as the same tokens; and since positions are for errors
only, the rewritten text compiles to the same expression or fails with the same error, at the place
to which the token in question was moved.
-/

namespace Formula.Token

/-- All but the first character of a token are letters, digits, underscores and points. -/
theorem Spells.tail {text : List Char} {token : Token} (h : Spells text token) :
    ∀ c ∈ text.tail, isWordChar c ∨ c = '.' := by
  have hdigits {digits : List Char} (h : Decimal.IsDigits digits) :
      ∀ c ∈ digits, isWordChar c ∨ c = '.' :=
    fun c hc ↦ .inl (isWordChar_of_isDigit (h.2 c hc))
  intro c hc
  rcases spells_iff.1 h with
    ⟨hnumeral | ⟨digits, rfl, hfraction⟩, -⟩ | ⟨hword, -⟩ | ⟨symbol, rfl, -⟩
  · have hmem := List.mem_of_mem_tail hc
    cases hnumeral with
    | whole hwhole => exact hdigits hwhole c hmem
    | pointed hwhole hfraction =>
      rcases List.mem_append.1 hmem with hmem | hmem
      · exact hdigits hwhole c hmem
      · rcases List.mem_cons.1 hmem with rfl | hmem
        · exact .inr rfl
        · exact hdigits hfraction c hmem
  · exact hdigits hfraction c hc
  · obtain ⟨first, others, rfl, -, hothers⟩ := hword
    exact .inl (hothers c hc)
  · cases hc

/-- The longest token of a text stays the longest in front of what cannot continue a token: a longer
one would have the first character of that inside it. -/
theorem LongestToken.append_of_ends {text rest taken : List Char} {token : Token}
    (h : LongestToken text taken token) (hrest : Ends rest) :
    LongestToken (text ++ rest) taken token where
  starts := h.starts.trans (List.prefix_append text rest)
  spells := h.spells
  longest other spelled hother hspelled := by
    rcases Nat.le_total other.length text.length with hle | hle
    · exact h.longest other spelled
        (List.prefix_of_prefix_length_le hother (List.prefix_append text rest) hle) hspelled
    · obtain ⟨more, rfl⟩ :=
        List.prefix_of_prefix_length_le (List.prefix_append text rest) hother hle
      cases more with
      | nil => exact h.longest _ spelled (by simp) hspelled
      | cons c more =>
        have htext : text ≠ [] := h.starts.ne_nil h.spells.ne_nil
        have hinside : c ∈ (text ++ c :: more).tail := by
          rw [List.tail_append_of_ne_nil htext]
          simp
        have hhead : c ∈ rest.head? := by
          obtain ⟨after, hafter⟩ := (List.prefix_append_right_inj text).1 hother
          rw [← hafter]
          rfl
        obtain ⟨hword, hpoint⟩ := hrest c hhead
        rcases hspelled.tail c hinside with hc | hc
        · rw [hword] at hc
          cases hc
        · exact absurd hc hpoint

/-- The stretches of a text are its tokens also in front of what cannot continue the last one. -/
theorem Tokenized.append_of_ends {start : Nat} {text rest : List Char} {spans : List Span}
    (h : Tokenized start text [] spans) (hrest : Ends rest) : Tokenized start text rest spans where
  longest span hspan := by
    obtain ⟨before, after, htext, hstart, hlongest⟩ := h.longest span hspan
    rw [List.append_nil] at hlongest
    refine ⟨before, after, htext, hstart, ?_⟩
    rw [← List.append_assoc]
    exact hlongest.append_of_ends hrest
  ordered := h.ordered
  separated := h.separated

/-- A text that stands at another byte offset has the same tokens there. -/
theorem lexFrom_add (start offset : Nat) (text : List Char) :
    lexFrom (start + offset) text =
      mapBoth (LexicalError.relocate (· + offset)) (List.map (Lexeme.relocate (· + offset)))
        (lexFrom start text) := by
  fun_induction lexFrom start text with
  | case1 => rw [lexFrom]; rfl
  | case2 start c rest hc ih =>
    rw [lexFrom_separator hc, ← ih, Nat.add_right_comm]
  | case3 start c rest hc hnone =>
    refine lexFrom_stuck ?_
    rintro first ⟨⟩
    exact ⟨by simpa using hc, first?_eq_none_iff.1 hnone⟩
  | case4 start c rest hc token taken hfirst hlength ih =>
    rw [lexFrom_of_first? (by simpa using hc) hfirst, Nat.add_right_comm, ih]
    cases lexFrom (start + byteLength taken) ((c :: rest).drop taken.length) <;> rfl

/-- A text that is read on its own is read the same wherever it stands. -/
theorem reads_of_lex {source : String} {lexemes : List Lexeme} (h : lex source = .ok lexemes) :
    Reads source.toList (lexemes.map Lexeme.token) := by
  intro position rest hrest
  have hmoved : lexFrom position source.toList =
      .ok (lexemes.map (Lexeme.relocate (· + position))) := by
    have hadd := lexFrom_add 0 position source.toList
    rw [Nat.zero_add] at hadd
    rw [hadd, ← lex, h]
    rfl
  obtain ⟨spans, hspans, htokenized⟩ := lexFrom_eq_ok_iff.1 hmoved
  refine ⟨lexemes.map (Lexeme.relocate (· + position)), position + byteLength source.toList,
    Lexeme.map_token_relocate _ lexemes, ?_⟩
  rw [(htokenized.append_of_ends hrest).lexFrom_append, hspans]

def spaced (tokens : List Token) : String :=
  " ".intercalate (tokens.map text)

theorem toList_spaced_cons_cons (first second : Token) (others : List Token) :
    (spaced (first :: second :: others)).toList =
      first.text.toList ++ ' ' :: (spaced (second :: others)).toList := by
  simp [spaced, String.toList_intercalate]

/-- A token that has been spelled out alone is the longest one there. -/
theorem Spells.longestToken {text : List Char} {token : Token} (h : Spells text token) :
    LongestToken text text token :=
  first?_eq_some_iff.1 h.first?_eq

/-- A token is shown with a spelling of its own. -/
theorem Spells.text {spelling : List Char} {token : Token} (h : Spells spelling token) :
    Spells token.text.toList token := by
  cases h with
  | numeral h => simpa [Token.text] using Spells.numeral h
  | fraction h => simpa [Token.text] using Spells.fraction h
  | keyword h =>
    have hshown : ∀ keyword ∈ keywords, (keyword.2.text, keyword.2) ∈ keywords := by decide
    exact .keyword (hshown _ h)
  | identifier hword hname => simpa [Token.text] using Spells.identifier hword hname
  | symbol h =>
    have hshown : ∀ symbol ∈ symbols, symbol.2.text.toList = [symbol.1] := by decide
    rw [hshown _ h]
    exact .symbol h

end Formula.Token

namespace Formula

/-- The lexemes of tokens with a blank between any two, from a byte offset on. -/
def Lexeme.spacedFrom (position : Nat) : List Token → List Lexeme
  | [] => []
  | token :: others =>
    ⟨token, position⟩ :: spacedFrom (position + token.text.utf8ByteSize + 1) others

theorem Lexeme.map_token_spacedFrom (position : Nat) (tokens : List Token) :
    (spacedFrom position tokens).map Lexeme.token = tokens := by
  induction tokens generalizing position with
  | nil => rfl
  | cons token others ih => rw [spacedFrom, List.map_cons, ih]

theorem Token.byteLength_toList (source : String) :
    byteLength source.toList = source.utf8ByteSize := by
  rw [byteLength_eq, String.ofList_toList]

/-- Tokens with a blank between any two are read again, each where it stands. -/
theorem Token.lexFrom_spaced {tokens : List Token}
    (h : ∀ token ∈ tokens, Spells token.text.toList token) (position : Nat) :
    lexFrom position (spaced tokens).toList = .ok (Lexeme.spacedFrom position tokens) := by
  induction tokens generalizing position with
  | nil =>
    change lexFrom position [] = _
    rw [lexFrom, Lexeme.spacedFrom]
  | cons token others ih =>
    have hspells := (h token List.mem_cons_self).longestToken
    have hothers := ih fun other hother ↦ h other (List.mem_cons_of_mem _ hother)
    cases others with
    | nil =>
      have hread := @lexFrom_token position token.text.toList [] token (by simpa using hspells)
      rw [List.append_nil] at hread
      rw [spaced, List.map_singleton, String.intercalate_singleton, hread, lexFrom]
      rfl
    | cons second others =>
      rw [toList_spaced_cons_cons, lexFrom_token (hspells.append_of_ends (ends_blank _)),
        lexFrom_separator rfl, byteLength_toList, hothers]
      rfl

/-- The position of each lexeme is that of the lexeme at the same place of the second list; a
position that no lexeme has is kept. -/
def Lexeme.relocation (lexemes placed : List Lexeme) (position : Nat) : Nat :=
  (((lexemes.map Lexeme.position).zip (placed.map Lexeme.position)).lookup position).getD position

theorem Lexeme.relocation_of_not_mem {lexemes placed : List Lexeme} {position : Nat}
    (h : ∀ lexeme ∈ lexemes, lexeme.position ≠ position) :
    relocation lexemes placed position = position := by
  have hnone : ((lexemes.map Lexeme.position).zip (placed.map Lexeme.position)).lookup position =
      none := by
    refine List.lookup_eq_none_iff.2 fun pair hpair ↦ ?_
    obtain ⟨lexeme, hlexeme, heq⟩ := List.mem_map.1 (List.of_mem_zip hpair).1
    simpa [← heq] using (h lexeme hlexeme).symm
  rw [relocation, hnone, Option.getD_none]

/-- Moving each lexeme to its place in the other list gives that list. -/
theorem Lexeme.map_relocate_relocation {lexemes placed : List Lexeme}
    (hordered : lexemes.Pairwise fun first second ↦ first.position < second.position)
    (htokens : placed.map Lexeme.token = lexemes.map Lexeme.token) :
    lexemes.map (relocate (relocation lexemes placed)) = placed := by
  induction lexemes generalizing placed with
  | nil => exact (List.map_eq_nil_iff.1 htokens).symm
  | cons lexeme others ih =>
    obtain ⟨⟨token, position⟩, rest, rfl, htoken, hrest⟩ := List.map_eq_cons_iff.1 htokens
    obtain ⟨hafter, hothers⟩ := List.pairwise_cons.1 hordered
    have hhead : relocate (relocation (lexeme :: others) (⟨token, position⟩ :: rest)) lexeme =
        ⟨token, position⟩ := by
      simp [relocate, relocation, ← htoken]
    have htail : others.map (relocate (relocation (lexeme :: others) (⟨token, position⟩ :: rest))) =
        others.map (relocate (relocation others rest)) := by
      refine List.map_congr_left fun other hother ↦ ?_
      have hne : (other.position == lexeme.position) = false :=
        beq_eq_false_iff_ne.2 (Nat.ne_of_gt (hafter other hother))
      simp [relocate, relocation, List.lookup_cons, hne]
    rw [List.map_cons, hhead, htail, ih hothers hrest]

/-- The lexemes of a text stand one behind the other. -/
theorem Token.ordered_of_lex {source : String} {lexemes : List Lexeme}
    (h : lex source = .ok lexemes) :
    lexemes.Pairwise fun first second ↦ first.position < second.position := by
  obtain ⟨spans, rfl, htokenized⟩ := lexFrom_eq_ok_iff.1 h
  exact List.pairwise_map.2 (htokenized.ordered.imp And.left)

/-- Each token of a source text is spelled by the text that is printed for it. -/
theorem Token.spells_of_lex {source : String} {lexemes : List Lexeme}
    (h : lex source = .ok lexemes) :
    ∀ token ∈ lexemes.map Lexeme.token, Spells token.text.toList token := by
  intro token htoken
  obtain ⟨lexeme, hlexeme, rfl⟩ := List.mem_map.1 htoken
  obtain ⟨_, _, _, -, -, hlongest⟩ := exists_longestToken_of_lex h hlexeme
  exact hlongest.spells.text

/-- The start of the text stays where it is: if a lexeme stands there, it is the first one. -/
theorem Lexeme.relocation_zero {lexemes : List Lexeme}
    (hordered : lexemes.Pairwise fun first second ↦ first.position < second.position) :
    relocation lexemes (spacedFrom 0 (lexemes.map Lexeme.token)) 0 = 0 := by
  cases lexemes with
  | nil => rfl
  | cons lexeme others =>
    rcases Nat.eq_zero_or_pos lexeme.position with hzero | hpos
    · simp [relocation, spacedFrom, hzero]
    · refine relocation_of_not_mem fun other hother ↦ ?_
      rcases List.mem_cons.1 hother with rfl | hother
      · exact Nat.ne_of_gt hpos
      · exact Nat.ne_of_gt (hpos.trans ((List.pairwise_cons.1 hordered).1 other hother))

/-- Spacing and spelling do not matter. A text that is read as tokens can be written again as they
are shown, with one blank between any two, and has the same tokens in the same order. It compiles to
the same expression or fails with the same error, whose position is that of the same token in the
new text; a position at which no token stands, the one that is given when no token is left, is
kept. -/
theorem compile_spaced {source : String} {lexemes : List Lexeme}
    (hlex : Token.lex source = .ok lexemes) :
    ∃ placed move,
      Token.lex (Token.spaced (lexemes.map Lexeme.token)) = .ok placed ∧
      placed.map Lexeme.token = lexemes.map Lexeme.token ∧
      placed.map Lexeme.position = lexemes.map (move ∘ Lexeme.position) ∧
      (∀ position, (∀ lexeme ∈ lexemes, lexeme.position ≠ position) → move position = position) ∧
      move 0 = 0 ∧
      (compile (Token.spaced (lexemes.map Lexeme.token))).result =
        (compile source).result.mapError (Error.relocate move) := by
  let placed := Lexeme.spacedFrom 0 (lexemes.map Lexeme.token)
  let move := Lexeme.relocation lexemes placed
  have hordered := Token.ordered_of_lex hlex
  have hread : Token.lex (Token.spaced (lexemes.map Lexeme.token)) = .ok placed :=
    Token.lexFrom_spaced (Token.spells_of_lex hlex) 0
  have htokens : placed.map Lexeme.token = lexemes.map Lexeme.token :=
    Lexeme.map_token_spacedFrom 0 _
  have hmoved : lexemes.map (Lexeme.relocate move) = placed :=
    Lexeme.map_relocate_relocation hordered htokens
  have hzero : move 0 = 0 := Lexeme.relocation_zero hordered
  refine ⟨placed, move, hread, htokens, ?_, fun _ ↦ Lexeme.relocation_of_not_mem, hzero, ?_⟩
  · rw [← hmoved, List.map_map]
    rfl
  · exact compile_relocate hzero hlex (by rw [hread, hmoved])

/-- A number and a root in its other spelling with nothing between them, which is no expression. -/
theorem compile_spaced_trailing :
    Token.lex "  2sqrt" = .ok [⟨.number "2", 2⟩, ⟨.root, 3⟩] ∧
    (compile "  2sqrt").result = .error (.parse (.trailing ⟨.root, 3⟩)) ∧
    (compile "2 root").result = .error (.parse (.trailing ⟨.root, 2⟩)) := by
  have hspaced : Token.spaced [.number "2", .root] = "2 root" := by decide +kernel
  have hplaced : Token.lex "2 root" = .ok [⟨.number "2", 0⟩, ⟨.root, 2⟩] := by
    decide +kernel
  have hlex : Token.lex "  2sqrt" = .ok [⟨.number "2", 2⟩, ⟨.root, 3⟩] := by
    decide +kernel
  have hparse : ParseTree.parse "  2sqrt" = .error (.trailing ⟨.root, 3⟩) := by decide +kernel
  have hcompile := compile_of_parse_error hparse
  obtain ⟨placed, move, hread, -, hpositions, -, -, hresult⟩ := compile_spaced hlex
  simp only [List.map_cons, List.map_nil, hspaced] at hread hpositions hresult
  obtain rfl := Except.ok.inj (hread.symm.trans hplaced)
  obtain ⟨-, hmove⟩ : 0 = move 2 ∧ 2 = move 3 := by simpa using hpositions
  refine ⟨hlex, hcompile, ?_⟩
  rw [hresult, hcompile, hmove]
  rfl

end Formula
