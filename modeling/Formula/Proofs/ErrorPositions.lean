import Formula.Proofs.BuildFailures
import Formula.Proofs.DepthPositions

/-!
# Errors stand at the text they are about

An error of compiling with a position stands where a token of the source starts, and a name in it is
the text of that token; an error of the lexer stands at the character that begins no token. The one
exception is a nesting that is too deep with the end of the source: no token is left there, and the
position is 0.
-/

namespace Formula

def Error.position? : Error → Option Nat
  | .parse (.lexical error) => some error.position
  | .parse (.unexpected found) => some found.position
  | .parse .unexpectedEnd => none
  | .parse (.expected _ found) => some found.position
  | .parse (.trailing found) => some found.position
  | .parse (.tooDeep position) => some position
  | .build (.unknownFunction _ position) => some position
  | .build (.unknownOperator found) => some found.position
  | .build (.invalidNumber _ position) => some position
  | .build (.malformedNumber _) => none
  | .build (.malformedIdentifier _) => none
  | .evaluation _ => none

/-- The token or function that the error names as it was found. -/
def Error.named? : Error → Option String
  | .parse (.lexical error) => some (String.singleton error.character)
  | .parse (.unexpected found) => some found.token.text
  | .parse .unexpectedEnd => none
  | .parse (.expected _ found) => some found.token.text
  | .parse (.trailing found) => some found.token.text
  | .parse (.tooDeep _) => none
  | .build (.unknownFunction keyword _) => some keyword
  | .build (.unknownOperator found) => some found.token.text
  | .build (.invalidNumber text _) => some text
  | .build (.malformedNumber _) => none
  | .build (.malformedIdentifier _) => none
  | .evaluation _ => none

/-- The lexeme is one of a source. Its token is what is written there at its position, a byte
offset, and could not be longer. -/
structure Lexeme.StandsIn (source : String) (lexeme : Lexeme) : Prop where
  lexed : ∃ lexemes, Token.lex source = .ok lexemes ∧ lexeme ∈ lexemes
  written : ∃ before taken after,
    source = String.ofList before ++ String.ofList taken ++ String.ofList after ∧
      lexeme.position = (String.ofList before).utf8ByteSize ∧
      Token.LongestToken (taken ++ after) taken lexeme.token

/-- The error stands at a character of the source at which neither a token nor a separator
starts. -/
structure LexicalError.StandsIn (source : String) (error : LexicalError) : Prop where
  lexed : Token.lex source = .error error
  written : ∃ before after,
    source = String.ofList before ++ String.ofList (error.character :: after) ∧
      error.position = (String.ofList before).utf8ByteSize ∧
      Token.Stuck (error.character :: after)

/-- Each lexeme of a source text stands there, where it says. -/
theorem Lexeme.standsIn_of_mem {source : String} {lexemes : List Lexeme} {lexeme : Lexeme}
    (hlex : Token.lex source = .ok lexemes) (hmem : lexeme ∈ lexemes) : lexeme.StandsIn source := by
  obtain ⟨before, taken, after, hsource, hposition, hlongest⟩ :=
    Token.exists_longestToken_of_lex hlex hmem
  refine ⟨⟨lexemes, hlex, hmem⟩, before, taken, after, ?_, ?_, hlongest⟩
  · rw [← String.ofList_append, ← String.ofList_append, List.append_assoc, ← hsource,
      String.ofList_toList]
  · rw [hposition, Token.byteLength_eq]

theorem LexicalError.standsIn {source : String} {error : LexicalError}
    (hlex : Token.lex source = .error error) : error.StandsIn source := by
  obtain ⟨before, after, -, hsource, hposition, -, hstuck⟩ := Token.lexFrom_eq_error_iff.1 hlex
  refine ⟨hlex, before, after, ?_, ?_, hstuck⟩
  · rw [← String.ofList_append, ← hsource, String.ofList_toList]
  · rw [hposition, Nat.zero_add, Token.byteLength_eq]

/-- A call in a tree is called by a name among the lexemes. -/
theorem Derives.call_mem {category : Category} {lexemes : List Lexeme} {tree : ParseTree}
    (h : Derives category lexemes tree) {keyword : String} {position : Nat}
    (hcall : (keyword, position) ∈ tree.calls) : ⟨.identifier keyword, position⟩ ∈ lexemes := by
  induction h with
  | ofProduct _ ih | ofUnary _ ih | ofPower _ ih | ofFactorial _ ih | ofPrimary _ ih =>
    exact ih hcall
  | number | identifier => cases hcall
  | negation _ ih | group _ ih | squareRoot _ ih | factorial _ ih =>
    simp [ih hcall]
  | call _ ih =>
    rcases List.mem_append.1 hcall with hargument | hself
    · simp [ih hargument]
    · cases List.mem_singleton.1 hself
      exact List.mem_cons_self
  | sum _ _ _ ihl ihr | product _ _ _ ihl ihr | power _ _ ihl ihr | fraction _ _ ihl ihr
  | curriedFraction _ _ ihl ihr | root _ _ ihl ihr =>
    rcases List.mem_append.1 hcall with hfirst | hsecond
    · simp [ihl hfirst]
    · simp [ihr hsecond]

/-- If the error has a position, a token of the source starts there, and a name in the error is the
text of that token; or it is an error of the lexer and stands at a character of the source. -/
def Error.PointsAt (source : String) (error : Error) : Prop :=
  ∀ position, error.position? = some position →
    (∃ lexeme : Lexeme, lexeme.StandsIn source ∧ lexeme.position = position ∧
      ∀ name, error.named? = some name → name = lexeme.token.text) ∨
    ∃ lexical : LexicalError, error = .parse (.lexical lexical) ∧ lexical.StandsIn source

variable {source : String} {lexemes : List Lexeme}

/-- An error with a culprit points at it as it stands in the source. -/
theorem Error.pointsAt_of_culprit {error : ParseError} {found : Lexeme}
    (hfound : error.culprit? = some found) (hstands : found.StandsIn source) :
    (Error.parse error).PointsAt source := by
  intro position hposition
  refine .inl ⟨found, hstands, ?_⟩
  rcases ParseError.culprit?_eq_some_iff.1 hfound with rfl | ⟨wanted, rfl⟩ | rfl <;>
    exact ⟨Option.some.inj hposition, fun name hname ↦ (Option.some.inj hname).symm⟩

theorem Error.pointsAt_of_lex {lexical : LexicalError} (hlex : Token.lex source = .error lexical) :
    (Error.parse (.lexical lexical)).PointsAt source :=
  fun _ _ ↦ .inr ⟨lexical, rfl, LexicalError.standsIn hlex⟩

/-- An error of parsing points at a lexeme, or the lexemes have run out. -/
theorem Error.pointsAt_of_parse (hlex : Token.lex source = .ok lexemes) {error : ParseError}
    (h : ParseTree.ofLexemes lexemes = .error error) :
    (Error.parse error).PointsAt source ∨
      error = .tooDeep 0 ∧ ∀ next more, ParseTree.ofLexemes (lexemes ++ next :: more) =
        .error (.tooDeep next.position) := by
  rcases ParseTree.error_cases h with ⟨position, rfl⟩ | ⟨rfl, -⟩ |
    ⟨before, found, after, rfl, hfound, -, -⟩
  · rcases ParseTree.tooDeep_cases h with ⟨lexeme, hmem, rfl⟩ | ⟨rfl, hnext⟩
    · refine .inl fun position hposition ↦ .inl ⟨lexeme, Lexeme.standsIn_of_mem hlex hmem, ?_⟩
      exact ⟨Option.some.inj hposition, fun name hname ↦ by cases hname⟩
    · exact .inr ⟨rfl, hnext⟩
  · exact .inl fun position hposition ↦ by cases hposition
  · have hmem : found ∈ before ++ found :: after :=
      List.mem_append_right before List.mem_cons_self
    exact .inl (pointsAt_of_culprit hfound (Lexeme.standsIn_of_mem hlex hmem))

/-- An unknown function is reported at its name. -/
theorem Error.pointsAt_of_build {tree : ParseTree} (hparse : ParseTree.parse source = .ok tree)
    {error : Error} (h : (compile source).result = .error error) : error.PointsAt source := by
  obtain ⟨lexemes, hlexed, hread⟩ := bind_eq_ok_iff.1 hparse
  have hlex : Token.lex source = .ok lexemes := mapError_eq_ok_iff.1 hlexed
  have hderives := (ParseTree.derives_of_ofLexemesWithin (by decide) hread).1
  have hfailure := failure?_eq_some_iff.2 h
  rw [failure?_compile_of_parse hparse] at hfailure
  obtain ⟨⟨keyword, place⟩, hfind, rfl⟩ := Option.map_eq_some_iff.1 hfailure
  have hmem := hderives.call_mem (List.mem_of_find?_eq_some hfind)
  intro position hposition
  refine .inl ⟨_, Lexeme.standsIn_of_mem hlex hmem, Option.some.inj hposition, ?_⟩
  exact fun name hname ↦ (Option.some.inj hname).symm

/-- An error of compiling points at the text it is about, unless it says that the nesting is too
deep and there is no text left: with one more token of any kind the error would be about that
token. -/
theorem compile_error_points_at {error : Error} (h : (compile source).result = .error error) :
    error.PointsAt source ∨
      error = .parse (.tooDeep 0) ∧ ∃ lexemes, Token.lex source = .ok lexemes ∧
        ∀ next more, ParseTree.ofLexemes (lexemes ++ next :: more) =
          .error (.tooDeep next.position) := by
  cases hlex : Token.lex source with
  | error lexical =>
    rw [result_compile, hlex] at h
    cases h
    exact .inl (Error.pointsAt_of_lex hlex)
  | ok lexemes =>
    have hparse : ParseTree.parse source = ParseTree.ofLexemes lexemes := by
      rw [ParseTree.parse, hlex]
      rfl
    cases hread : ParseTree.ofLexemes lexemes with
    | ok tree => exact .inl (Error.pointsAt_of_build (hparse.trans hread) h)
    | error refused =>
      rw [result_compile_eq_parse, hparse, hread] at h
      cases h
      rcases Error.pointsAt_of_parse hlex hread with hpoints | ⟨rfl, hnext⟩
      · exact .inl hpoints
      · exact .inr ⟨rfl, lexemes, rfl, hnext⟩

/-- The second argument of a fraction is found where a comma is expected. -/
theorem compile_error_points_at_second_argument :
    (compile "frac(1 2)").result = .error (.parse (.expected .comma ⟨.number "2", 7⟩)) ∧
    ∃ lexeme : Lexeme, lexeme.StandsIn "frac(1 2)" ∧ lexeme.position = 7 ∧
      lexeme.token.text = "2" := by
  have herror : (compile "frac(1 2)").result =
      .error (.parse (.expected .comma ⟨.number "2", 7⟩)) :=
    compile_of_parse_error (by decide +kernel)
  refine ⟨herror, ?_⟩
  rcases compile_error_points_at herror with hpoints | ⟨heq, -⟩
  · rcases hpoints 7 rfl with ⟨lexeme, hstands, hposition, hnamed⟩ | ⟨lexical, heq, -⟩
    · exact ⟨lexeme, hstands, hposition, (hnamed "2" rfl).symm⟩
    · cases heq
  · cases heq

namespace Token

theorem lexFrom_minuses (start count : Nat) :
    lexFrom start (List.replicate count '-') =
      .ok ((List.range' start count).map fun position ↦ ⟨.minus, position⟩) := by
  induction count generalizing start with
  | zero => rw [List.replicate_zero, lexFrom]; rfl
  | succ count ih =>
    have hminus : first? ('-' :: List.replicate count '-') = some (.minus, ['-']) := rfl
    rw [List.replicate_succ, lexFrom_of_first? rfl hminus]
    change (lexFrom (start + 1) (List.replicate count '-')).map _ = _
    rw [ih, List.range'_succ]
    rfl

end Token

/-- As many minus signs as there are levels leave nothing to read, and position 0 is reported. -/
theorem Rule.unary_minuses (limit : Nat) (positions : List Nat) :
    (Rule.unary limit positions.length).read (positions.map fun position ↦ ⟨.minus, position⟩) =
      .error (.tooDeep 0) := by
  induction positions with
  | nil => rfl
  | cons position later ih =>
    rw [List.length_cons, List.map_cons, Rule.unary]
    simp only [Rule.negation, ih]
    rfl

/-- One minus more than the limit is too deep when there is nothing left to read. -/
theorem ParseTree.ofLexemesWithin_minuses {limit : Nat} {positions : List Nat}
    (hlength : positions.length = limit + 1) :
    ofLexemesWithin limit (positions.map fun position ↦ ⟨.minus, position⟩) =
      .error (.tooDeep 0) := by
  have hunary := Rule.unary_minuses limit positions
  rw [hlength] at hunary
  simp only [ofLexemesWithin, Rule.expression, Rule.chain, hunary]
  rfl

/-- A blank and one minus more than the limit: nothing of the source starts where the error is said
to be. -/
theorem compile_error_points_nowhere :
    (compile (String.ofList (' ' :: List.replicate 129 '-'))).result =
      .error (.parse (.tooDeep 0)) ∧
    ¬(Error.parse (.tooDeep 0)).PointsAt (String.ofList (' ' :: List.replicate 129 '-')) := by
  let lexemes : List Lexeme := (List.range' 1 129).map fun position ↦ ⟨.minus, position⟩
  have hlex : Token.lex (String.ofList (' ' :: List.replicate 129 '-')) = .ok lexemes := by
    rw [Token.lex, String.toList_ofList, Token.lexFrom_separator rfl]
    exact Token.lexFrom_minuses 1 129
  refine ⟨compile_eq_tooDeep hlex (ParseTree.ofLexemesWithin_minuses rfl), fun hpoints ↦ ?_⟩
  rcases hpoints 0 rfl with ⟨lexeme, hstands, hposition, -⟩ | ⟨lexical, heq, -⟩
  · obtain ⟨found, hfound, hmem⟩ := hstands.lexed
    cases hlex.symm.trans hfound
    obtain ⟨position, hposition', rfl⟩ := List.mem_map.1 hmem
    rw [List.mem_range'_1] at hposition'
    exact absurd hposition (Nat.ne_of_gt hposition'.1)
  · cases heq

end Formula
