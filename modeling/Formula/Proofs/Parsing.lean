import Formula.Proofs.Completeness
import Formula.Proofs.Soundness

/-!
# Parsing and the grammar

Parsing finds the one tree that the lexemes derive, or none if they derive none; a derived tree
above the limit is refused for its height and for nothing else. The limit is free in everything but
the last statement, so the grammar itself is seen to be unambiguous: any two trees of the same
lexemes are found by the parser whose limit both meet.
-/

namespace Formula.ParseTree

/-- What the parser returns is derived, and within the limit. -/
theorem derives_of_ofLexemesWithin {limit : Nat} (hlimit : 1 ≤ limit) {lexemes : List Lexeme}
    {tree : ParseTree} (h : ofLexemesWithin limit lexemes = .ok tree) :
    Derives .expression lexemes tree ∧ tree.height ≤ limit := by
  obtain ⟨⟨found, rest⟩, hread, hrest⟩ := bind_eq_ok_iff.1 h
  obtain ⟨taken, rfl, hderives, hheight⟩ :=
    Rule.sound_expression (Rule.sound_unary hlimit (limit + 1)) hread
  cases rest with
  | nil =>
    cases hrest
    exact ⟨by simpa using hderives, hheight⟩
  | cons next rest => cases hrest

theorem yieldsUnless_ofLexemesWithin {lexemes : List Lexeme} {tree : ParseTree}
    (h : Derives .expression lexemes tree) (limit : Nat) :
    YieldsUnless (limit < tree.height) (ofLexemesWithin limit lexemes) (.ok tree) := by
  have hstops : Category.expression.Stops [] := trivial
  have hread := (h.finds limit).read (limit + 1) hstops
  rw [List.append_nil] at hread
  exact (hread.mono (by omega)).bind (.of_eq rfl)

/-- What is derived within the limit is returned. -/
theorem ofLexemesWithin_of_height_le {limit : Nat} {lexemes : List Lexeme} {tree : ParseTree}
    (h : Derives .expression lexemes tree) (hheight : tree.height ≤ limit) :
    ofLexemesWithin limit lexemes = .ok tree := by
  rcases yieldsUnless_ofLexemesWithin h limit with hok | ⟨htooHigh, -⟩
  · exact hok
  · omega

/-- What is derived beyond the limit is refused as too deep. -/
theorem ofLexemesWithin_eq_tooDeep {limit : Nat} (hlimit : 1 ≤ limit) {lexemes : List Lexeme}
    {tree : ParseTree} (h : Derives .expression lexemes tree) (hheight : limit < tree.height) :
    ∃ position, ofLexemesWithin limit lexemes = .error (.tooDeep position) := by
  rcases yieldsUnless_ofLexemesWithin h limit with hok | ⟨-, htooDeep⟩
  · have := (derives_of_ofLexemesWithin hlimit hok).2
    omega
  · exact htooDeep

/-- The grammar is unambiguous, because the parser returns one tree. -/
theorem derives_unique {lexemes : List Lexeme} {first second : ParseTree}
    (hfirst : Derives .expression lexemes first) (hsecond : Derives .expression lexemes second) :
    first = second := by
  have hf := ofLexemesWithin_of_height_le hfirst (Nat.le_max_left first.height second.height)
  have hs := ofLexemesWithin_of_height_le hsecond (Nat.le_max_right first.height second.height)
  rw [hf] at hs
  exact Except.ok.inj hs

/-- Parsing accepts exactly the derived trees within the limit, of which there is at most one, and
refuses a higher one only for its height. -/
theorem ofLexemes_exact (lexemes : List Lexeme) :
    (∀ tree, ofLexemes lexemes = .ok tree ↔
      Derives .expression lexemes tree ∧ tree.height ≤ maxHeight) ∧
    (∀ first second, Derives .expression lexemes first → Derives .expression lexemes second →
      first = second) ∧
    (∀ tree, Derives .expression lexemes tree → maxHeight < tree.height →
      ∃ position, ofLexemes lexemes = .error (.tooDeep position)) := by
  have hlimit : 1 ≤ maxHeight := by decide
  refine ⟨fun tree ↦ ⟨derives_of_ofLexemesWithin hlimit, ?_⟩, fun _ _ ↦ derives_unique, ?_⟩
  · rintro ⟨hderives, hheight⟩
    exact ofLexemesWithin_of_height_le hderives hheight
  · intro tree hderives hheight
    exact ofLexemesWithin_eq_tooDeep hlimit hderives hheight

/-- The two lexemes of a negated name. -/
theorem ofLexemes_negated_name :
    Derives .expression [⟨.minus, 0⟩, ⟨.identifier "x", 1⟩] (.negation (.identifier "x" 1) 0) ∧
    ofLexemes [⟨.minus, 0⟩, ⟨.identifier "x", 1⟩] = .ok (.negation (.identifier "x" 1) 0) := by
  have hderives :
      Derives .expression [⟨.minus, 0⟩, ⟨.identifier "x", 1⟩] (.negation (.identifier "x" 1) 0) :=
    .ofProduct (.ofUnary (.negation (.ofPower (.ofFactorial (.ofPrimary .identifier)))))
  exact ⟨hderives, ((ofLexemes_exact _).1 _).2 ⟨hderives, by decide⟩⟩

end Formula.ParseTree
