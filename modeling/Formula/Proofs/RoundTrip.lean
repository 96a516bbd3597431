import Formula.Compile
import Formula.Proofs.Building
import Formula.Proofs.Parsing
import Formula.Proofs.Rendering

/-!
# Rendering and compiling

Whatever expression is rendered, compiling its text gives its normal form, to the bit in every
literal, or refuses the text because the tree it is written as is too high. Compiled expressions are
in normal form, so each of them reads back as itself if its text is not refused. That is not always
so: a minus that was compiled into a product is written as one, and in parentheses under a power, so
such a text can nest deeper than the one it came from. How high the tree of a text is alone decides.
-/

namespace Formula

/-- A finite double is built of its written form. -/
theorem built_ofFloat {x : Float} (hfinite : x.isFinite) : Built (.ofFloat x) (.number x) := by
  have hread := (Decimal.showMagnitude_spec hfinite).2
  have hbits := Binary64.magnitudeBits_lt_of_isFinite hfinite
  have hsame := Binary64.ofSignBits_magnitudeBits x
  unfold ParseTree.ofFloat
  cases hnegative : Binary64.isNegative x with
  | false =>
    rw [hnegative] at hsame
    rw [hsame] at hread
    exact .number hread
  | true =>
    have hnegated : -Binary64.ofSignBits false (Binary64.magnitudeBits x) = x := by
      rw [Binary64.neg_ofSignBits hbits, ← hnegative, hsame]
    have hbuilt : Built (.negation (.number (Decimal.showMagnitude x) 0) 0)
        (.number (-Binary64.ofSignBits false (Binary64.magnitudeBits x))) :=
      .negation (.number hread)
    rw [hnegated] at hbuilt
    exact hbuilt

theorem built_groupIf {needed : Bool} {tree : ParseTree} {expr : Expr} (h : Built tree expr) :
    Built (tree.groupIf needed) expr := by
  cases needed with
  | false => exact h
  | true => exact .group h

mutual

/-- What is written of an operand builds its normal form. -/
theorem Operand.built_surface : ∀ operand : Operand, (∀ x ∈ operand.literals, x.isFinite) →
    Built operand.surface operand.normal
  | .literal value, hfinite => built_ofFloat (hfinite value List.mem_cons_self)
  | .reference _, _ => .identifier
  | .subexpression expr, hfinite => expr.built_surface hfinite

/-- What an expression is quoted as is built to its normal form. -/
theorem Expr.built_surface : ∀ expr : Expr, (∀ x ∈ expr.literals, x.isFinite) →
    Built expr.surface expr.normal
  | .number value, hfinite => built_ofFloat (hfinite value List.mem_cons_self)
  | .identifier _, _ => .identifier
  | .call function argument, hfinite =>
    .call function.ofKeyword?_keyword (argument.built_surface hfinite)
  | .factorial argument, hfinite => .factorial (built_groupIf (argument.built_surface hfinite))
  | .root radicand index, hfinite => by
    obtain ⟨hradicand, hindex⟩ := List.forall_mem_append.1 hfinite
    rw [Expr.surface, Expr.normal]
    split
    · next hdefault =>
      rw [Operand.isDefaultIndex_iff.1 hdefault]
      exact .squareRoot (radicand.built_surface hradicand)
    · exact .root (index.built_surface hindex) (radicand.built_surface hradicand)
  | .fraction numerator denominator, hfinite => by
    obtain ⟨hn, hd⟩ := List.forall_mem_append.1 hfinite
    exact .fraction (numerator.built_surface hn) (denominator.built_surface hd)
  | .binary left operator right, hfinite => by
    obtain ⟨hl, hr⟩ := List.forall_mem_append.1 hfinite
    exact .binary (built_groupIf (left.built_surface hl)) (Token.operator?_ofOperator operator)
      (built_groupIf (right.built_surface hr))

end

theorem ParseTree.height_unplaced (tree : ParseTree) : tree.unplaced.height = tree.height := by
  induction tree <;> simp [unplaced, height, *]

theorem mapError_eq_ok_iff {ε ε' α : Type} {f : ε → ε'} {result : Except ε α} {value : α} :
    result.mapError f = .ok value ↔ result = .ok value := by
  cases result <;> simp [Except.mapError]

/-- Compiling is reading the lexemes, parsing them and building the tree. -/
theorem result_compile (source : String) :
    (compile source).result = (do
      let lexemes ← (Token.lex source).mapError fun error ↦ .parse (.lexical error)
      let tree ← (ParseTree.ofLexemes lexemes).mapError .parse
      (Expr.ofParseTree? tree).mapError .build) := by
  have hbuild (tree : ParseTree) : (Expr.build tree).result = Expr.ofParseTree? tree := by
    rw [Expr.build, Logged.result_bind, Logged.result_lift]
    cases Expr.ofParseTree? tree <;> rfl
  simp only [compile, Logged.result_bind, Logged.result_lift, Logged.result_log, Logged.mapError,
    hbuild]
  rfl

/-- Compiling is parsing and building. -/
theorem result_compile_eq_parse (source : String) :
    (compile source).result = (do
      let tree ← (ParseTree.parse source).mapError .parse
      (Expr.ofParseTree? tree).mapError .build) := by
  rw [result_compile, ParseTree.parse]
  cases Token.lex source <;> rfl

theorem compile_of_parse_ok {source : String} {tree : ParseTree} {expr : Expr}
    (hparse : ParseTree.parse source = .ok tree) (hbuild : Expr.ofParseTree? tree = .ok expr) :
    (compile source).result = .ok expr := by
  rw [result_compile_eq_parse, hparse]
  exact congrArg (Except.mapError Error.build) hbuild

theorem compile_of_parse_error {source : String} {error : ParseError}
    (hparse : ParseTree.parse source = .error error) :
    (compile source).result = .error (.parse error) := by
  rw [result_compile_eq_parse, hparse]
  rfl

/-- A source compiles if it lexes, parses and builds, one after the other. -/
theorem compile_eq_ok_iff {source : String} {expr : Expr} :
    (compile source).result = .ok expr ↔ ∃ lexemes, Token.lex source = .ok lexemes ∧
      ∃ tree, ParseTree.ofLexemes lexemes = .ok tree ∧ Built tree expr := by
  rw [result_compile]
  simp only [bind_eq_ok_iff, mapError_eq_ok_iff, Built.iff]

theorem compile_eq_tooDeep {source : String} {lexemes : List Lexeme} {position : Nat}
    (hlex : Token.lex source = .ok lexemes)
    (hparse : ParseTree.ofLexemes lexemes = .error (.tooDeep position)) :
    (compile source).result = .error (.parse (.tooDeep position)) := by
  rw [result_compile, hlex]
  change ((ParseTree.ofLexemes lexemes).mapError Error.parse >>= _) = _
  rw [hparse]
  rfl

theorem ParseTree.height_eq_of_unplaced_eq {first second : ParseTree}
    (h : first.unplaced = second.unplaced) : first.height = second.height := by
  rw [← first.height_unplaced, h, second.height_unplaced]

section

variable {source : String} {lexemes : List Lexeme} {tree : ParseTree}
  (hlex : Token.lex source = .ok lexemes) (hderives : DerivesSome .expression lexemes tree)

include hlex hderives

/-- A text whose lexemes derive a tree within the limit compiles to what is built of the tree. -/
theorem compile_of_height_le {expr : Expr} (hbuilt : Built tree expr)
    (hheight : tree.height ≤ ParseTree.maxHeight) : (compile source).result = .ok expr := by
  obtain ⟨derived, hderived, hplaced⟩ := hderives
  rw [← ParseTree.height_eq_of_unplaced_eq hplaced] at hheight
  exact compile_eq_ok_iff.2 ⟨lexemes, hlex, derived,
    ParseTree.ofLexemesWithin_of_height_le hderived hheight, hbuilt.congr hplaced⟩

/-- A text whose lexemes derive a tree above the limit is refused for the height of the tree. -/
theorem compile_of_lt_height (hheight : ParseTree.maxHeight < tree.height) :
    ∃ position, (compile source).result = .error (.parse (.tooDeep position)) := by
  obtain ⟨derived, hderived, hplaced⟩ := hderives
  rw [← ParseTree.height_eq_of_unplaced_eq hplaced] at hheight
  obtain ⟨position, hparse⟩ := ParseTree.ofLexemesWithin_eq_tooDeep (by decide) hderived hheight
  exact ⟨position, compile_eq_tooDeep hlex hparse⟩

end

/-- The text of a tree has tokens that derive the tree, but for its positions. -/
theorem ParseTree.exists_lex_text {tree : ParseTree} (hlegible : tree.Legible)
    (hgrouped : tree.WellGrouped) :
    ∃ lexemes, Token.lex tree.text = .ok lexemes ∧ DerivesSome .expression lexemes tree := by
  obtain ⟨lexemes, hlex, htokens⟩ := (tree.reads_text hlegible).lex
  exact ⟨lexemes, hlex, (tree.spans hgrouped).loosen tree.fits_expression lexemes htokens⟩

/-- The text of a tree within the limit compiles to what is built of the tree. -/
theorem compile_text_of_height_le {tree : ParseTree} {expr : Expr} (hlegible : tree.Legible)
    (hgrouped : tree.WellGrouped) (hbuilt : Built tree expr)
    (hheight : tree.height ≤ ParseTree.maxHeight) :
    (compile tree.text).result = .ok expr := by
  obtain ⟨lexemes, hlex, hderives⟩ := ParseTree.exists_lex_text hlegible hgrouped
  exact compile_of_height_le hlex hderives hbuilt hheight

/-- The text of a tree above the limit is refused for its height. -/
theorem compile_text_of_lt_height {tree : ParseTree} (hlegible : tree.Legible)
    (hgrouped : tree.WellGrouped) (hheight : ParseTree.maxHeight < tree.height) :
    ∃ position, (compile tree.text).result = .error (.parse (.tooDeep position)) := by
  obtain ⟨lexemes, hlex, hderives⟩ := ParseTree.exists_lex_text hlegible hgrouped
  exact compile_of_lt_height hlex hderives hheight

section

variable {expr : Expr} (hfinite : ∀ x ∈ expr.literals, x.isFinite)
  (hnames : ∀ name ∈ expr.variables, Token.IsName name)

include hfinite hnames

/-- Within the limit a text compiles to the normal form. -/
theorem compile_render_of_height_le (hheight : expr.surface.height ≤ ParseTree.maxHeight) :
    (compile expr.render).result = .ok expr.normal :=
  compile_text_of_height_le (expr.legible_surface hfinite hnames) expr.wellGrouped_surface
    (expr.built_surface hfinite) hheight

/-- Beyond the limit a text is refused as too deep. -/
theorem compile_render_of_lt_height (hheight : ParseTree.maxHeight < expr.surface.height) :
    ∃ position, (compile expr.render).result = .error (.parse (.tooDeep position)) :=
  compile_text_of_lt_height (expr.legible_surface hfinite hnames) expr.wellGrouped_surface hheight

/-- A text compiles to the normal form, or its tree is beyond the limit and it is refused. -/
theorem compile_render_dichotomy :
    (compile expr.render).result = .ok expr.normal ∨
      ParseTree.maxHeight < expr.surface.height ∧
        ∃ position, (compile expr.render).result = .error (.parse (.tooDeep position)) := by
  rcases Nat.lt_or_ge ParseTree.maxHeight expr.surface.height with hlt | hle
  · exact .inr ⟨hlt, compile_render_of_lt_height hfinite hnames hlt⟩
  · exact .inl (compile_render_of_height_le hfinite hnames hle)

end

/-- What a source compiles to is in normal form. -/
theorem normal_of_compile {source : String} {expr : Expr}
    (h : (compile source).result = .ok expr) : expr.normal = expr := by
  obtain ⟨lexemes, -, tree, -, hbuilt⟩ := compile_eq_ok_iff.1 h
  exact hbuilt.normal_eq

/-- The variables of a source are names. -/
theorem isName_of_compile {source : String} {expr : Expr}
    (h : (compile source).result = .ok expr) :
    ∀ name ∈ expr.variables, Token.IsName name := by
  intro name hname
  obtain ⟨lexemes, hlex, tree, hparse, hbuilt⟩ := compile_eq_ok_iff.1 h
  have hderives := (ParseTree.derives_of_ofLexemesWithin (by decide) hparse).1
  exact Token.isName_of_lexFrom hlex (hderives.identifier_mem (hbuilt.mem_names hname))

/-- Rendering and compiling are inverse, up to the limit. An expression of finite literals, each of
whose names is one token of its own, compiles from its text to its normal form, unless the tree it
is written as is above the limit and so nested too deeply. Compiling gives normal forms only, so a
compiled expression of finite literals reads back as itself exactly if that tree is within the
limit. -/
theorem compile_render (expr : Expr) :
    ((∀ x ∈ expr.literals, x.isFinite) →
      (∀ name ∈ expr.variables, ∃ lexemes, Token.lex name = .ok lexemes ∧
        lexemes.map Lexeme.token = [.identifier name]) →
      (compile expr.render).result = .ok expr.normal ∨
        ParseTree.maxHeight < expr.surface.height ∧
          ∃ position, (compile expr.render).result = .error (.parse (.tooDeep position))) ∧
    ∀ source, (compile source).result = .ok expr → expr.normal = expr ∧
      ((∀ x ∈ expr.literals, x.isFinite) →
        ((compile expr.render).result = .ok expr ↔ expr.surface.height ≤ ParseTree.maxHeight) ∧
        (ParseTree.maxHeight < expr.surface.height →
          ∃ position, (compile expr.render).result = .error (.parse (.tooDeep position)))) := by
  refine ⟨fun hfinite hnames ↦ ?_, fun source hcompiled ↦ ⟨normal_of_compile hcompiled, ?_⟩⟩
  · exact compile_render_dichotomy hfinite fun name hname ↦ Token.isName_iff.2 (hnames name hname)
  · intro hfinite
    have hnames := isName_of_compile hcompiled
    refine ⟨⟨fun hback ↦ ?_, fun hle ↦ ?_⟩, compile_render_of_lt_height hfinite hnames⟩
    · by_contra hhigh
      obtain ⟨position, hrefused⟩ :=
        compile_render_of_lt_height hfinite hnames (Nat.lt_of_not_le hhigh)
      rw [hback] at hrefused
      cases hrefused
    · have hback := compile_render_of_height_le hfinite hnames hle
      rwa [normal_of_compile hcompiled] at hback

/-- A bare negative number under a power: it is written in parentheses and read as an expression. -/
theorem compile_render_negative_base :
    (compile (Expr.binary (.literal (-2)) .power (.reference "x")).render).result =
      .ok (.binary (.subexpression (.number (-2))) .power (.subexpression (.identifier "x"))) := by
  let expr := Expr.binary (.literal (-2)) .power (.reference "x")
  have hfinite : ∀ x ∈ expr.literals, x.isFinite := by
    intro x hx
    obtain rfl : x = -2 := List.mem_singleton.1 hx
    decide
  have hnames : ∀ name ∈ expr.variables, ∃ lexemes, Token.lex name = .ok lexemes ∧
      lexemes.map Lexeme.token = [.identifier name] := by
    intro name hname
    obtain rfl : name = "x" := List.mem_singleton.1 hname
    exact Token.isName_iff.1 ⟨Token.isWord_of_all rfl rfl rfl, by decide⟩
  rcases (compile_render expr).1 hfinite hnames with hok | ⟨hhigh, -⟩
  · exact hok
  · exact absurd hhigh (by decide)

end Formula
