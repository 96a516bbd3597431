import Formula.Proofs.Parsing
import Formula.Proofs.Prediction

/-!
# Errors name the first lexeme in the way

Lexemes are viable if they start some expression, of whatever height. The lexeme that a failed
parsing names is the first one with which they are no longer viable, and parsing comes to the end of
the input exactly if they all are. Only a nesting that is too deep is reported without regard to
what could follow.
-/

namespace Formula

/-- The lexemes start some lexemes that derive an expression; its height is not limited. -/
def Viable (lexemes : List Lexeme) : Prop :=
  ∃ whole tree, lexemes <+: whole ∧ Derives .expression whole tree

theorem Viable.of_prefix {start lexemes : List Lexeme} (h : Viable lexemes)
    (hstart : start <+: lexemes) : Viable start := by
  obtain ⟨whole, tree, hwhole, htree⟩ := h
  exact ⟨whole, tree, hstart.trans hwhole, htree⟩

theorem viable_of_mem_language {lexemes : List Lexeme}
    (h : ∃ more, lexemes ++ more ∈ Category.expression.language) : Viable lexemes := by
  obtain ⟨more, tree, htree⟩ := h
  exact ⟨lexemes ++ more, tree, List.prefix_append lexemes more, htree⟩

namespace ParseTree

variable {lexemes : List Lexeme} {error : ParseError}

/-- What a failure of parsing says about the lexemes: either their nesting is too deep, or all of
them are viable, or the culprit is found behind viable lexemes and makes parsing fail in the same
way whatever follows it. -/
theorem error_cases {limit : Nat} (h : ofLexemesWithin limit lexemes = .error error) :
    (∃ position, error = .tooDeep position) ∨ (error = .unexpectedEnd ∧ Viable lexemes) ∨
      ∃ before found after, lexemes = before ++ found :: after ∧ error.culprit? = some found ∧
        Viable before ∧
        ∀ other, ofLexemesWithin limit (before ++ found :: other) = .error error := by
  have hjudged := Rule.predicts_expression limit (Rule.predicts_unary limit (limit + 1)) lexemes
  unfold ofLexemesWithin at h ⊢
  generalize hresult :
    (Rule.expression limit (Rule.unary limit (limit + 1))).read lexemes = result at hjudged h
  cases hjudged with
  | @accepted tree taken rest hsplit htaken hsame =>
    cases rest with
    | nil => cases h
    | cons found after =>
      cases h
      refine .inr (.inr ⟨taken, found, after, hsplit, rfl, ?_, fun other ↦ ?_⟩)
      · exact viable_of_mem_language ⟨[], by rwa [List.append_nil]⟩
      · rw [hsame (found :: other) (List.cons_ne_nil found other) rfl]
        rfl
  | tooDeep =>
    cases h
    exact .inl ⟨_, rfl⟩
  | ended hmore =>
    cases h
    exact .inr (.inl ⟨rfl, viable_of_mem_language hmore⟩)
  | @offended before after found error hsplit hfound hmore hsame =>
    cases h
    refine .inr (.inr ⟨before, found, after, hsplit, hfound, viable_of_mem_language hmore,
      fun other ↦ ?_⟩)
    rw [hsame other]
    rfl

/-- Lexemes that derive an expression do not fail to parse but for its height. -/
theorem not_viable_of_error {limit : Nat} {start : List Lexeme}
    (hdeep : ∀ position, error ≠ .tooDeep position)
    (h : ∀ other, ofLexemesWithin limit (start ++ other) = .error error) : ¬ Viable start := by
  rintro ⟨_, tree, ⟨more, rfl⟩, htree⟩
  rcases yieldsUnless_ofLexemesWithin htree limit with hok | ⟨-, position, herror⟩
  · rw [h more] at hok
    cases hok
  · rw [h more] at herror
    exact hdeep position (Except.error.inj herror)

/-- Apart from the height, parsing fails at the end of the input exactly if the lexemes are viable.
Any other failure names the lexeme with which they cease to be so: those before it are viable, those
up to it are not, and it is the first such one. -/
theorem parse_error_names_culprit {source : String} (hlex : Token.lex source = .ok lexemes)
    (herror : parse source = .error error) (hdeep : ∀ position, error ≠ .tooDeep position) :
    (error = .unexpectedEnd ↔ Viable lexemes) ∧
    (error ≠ .unexpectedEnd → ∃ i, ∃ hi : i < lexemes.length,
      (error = .unexpected lexemes[i] ∨ (∃ wanted, error = .expected wanted lexemes[i]) ∨
        error = .trailing lexemes[i]) ∧
      Viable (lexemes.take i) ∧ ¬ Viable (lexemes.take (i + 1)) ∧
      ∀ j < i, Viable (lexemes.take (j + 1))) := by
  have hparse : ofLexemesWithin maxHeight lexemes = .error error := by
    rw [parse, hlex] at herror
    exact herror
  rcases error_cases hparse with ⟨position, rfl⟩ | ⟨rfl, hviable⟩ |
    ⟨before, found, after, hsplit, hfound, hviable, hsame⟩
  · exact absurd rfl (hdeep position)
  · exact ⟨⟨fun _ ↦ hviable, fun _ ↦ rfl⟩, fun hne ↦ absurd rfl hne⟩
  · have hblocked : ¬ Viable (before ++ [found]) :=
      not_viable_of_error hdeep fun other ↦ by simpa using hsame other
    have hstart : before ++ [found] <+: lexemes := ⟨after, by simp [hsplit]⟩
    have hend : error ≠ .unexpectedEnd := by
      rintro rfl
      cases hfound
    have htake : lexemes.take before.length = before := by rw [hsplit, List.take_left]
    have htakeFound : lexemes.take (before.length + 1) = before ++ [found] := by
      simpa using (List.prefix_iff_eq_take.1 hstart).symm
    refine ⟨⟨fun h ↦ absurd h hend, fun h ↦ absurd (h.of_prefix hstart) hblocked⟩, fun _ ↦ ?_⟩
    refine ⟨before.length, by simp [hsplit], ?_, by rwa [htake], by rwa [htakeFound], ?_⟩
    · rw [List.getElem_of_append hsplit rfl]
      exact ParseError.culprit?_eq_some_iff.1 hfound
    · intro j hj
      rw [← htake] at hviable
      exact hviable.of_prefix (List.take_prefix_take_left hj)

/-- A comma is missing between the two parts of a fraction, and the fourth lexeme is named. -/
theorem parse_error_missing_comma :
    let lexemes : List Lexeme := [⟨.frac, 0⟩, ⟨.leftParen, 4⟩, ⟨.number "1", 5⟩, ⟨.number "2", 7⟩,
      ⟨.rightParen, 8⟩]
    Token.lex "frac(1 2)" = .ok lexemes ∧
      parse "frac(1 2)" = .error (.expected .comma ⟨.number "2", 7⟩) ∧
      ¬ Viable lexemes ∧ Viable (lexemes.take 3) ∧ ¬ Viable (lexemes.take 4) := by
  intro lexemes
  have hlex : Token.lex "frac(1 2)" = .ok lexemes := by decide +kernel
  have hparse : parse "frac(1 2)" = .error (.expected .comma ⟨.number "2", 7⟩) := by
    decide +kernel
  obtain ⟨hend, hculprit⟩ := parse_error_names_culprit hlex hparse (fun _ ↦ by simp)
  obtain ⟨i, hi, hnamed, hbefore, hupTo, -⟩ := hculprit (by simp)
  refine ⟨hlex, hparse, fun hviable ↦ by simpa using hend.2 hviable, ?_⟩
  obtain rfl : i = 3 := by
    rcases i with _ | _ | _ | _ | _ | i
    · simp [lexemes] at hnamed
    · simp [lexemes] at hnamed
    · simp [lexemes] at hnamed
    · rfl
    · simp [lexemes] at hnamed
    · exact absurd hi (by simp [lexemes])
  exact ⟨hbefore, hupTo⟩

end ParseTree

end Formula
