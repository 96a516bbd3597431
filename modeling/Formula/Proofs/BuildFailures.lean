import Formula.Proofs.Evaluation
import Formula.Proofs.RoundTrip
import Formula.Proofs.Tokenization

/-!
# Why building fails

What is wrong with a parse tree is a list, in the order in which its constructs are built, and
building fails with the first item. In a tree that was parsed every number was a token, so it can be
read, and every operator was one of the six. There only calls are left to be wrong, those of
functions that do not exist.
-/

namespace Formula

namespace ParseTree

/-- What is wrong with the constructs of a tree, children before their parents and from left to
right. -/
def defects : ParseTree → List BuildError
  | number text position => (failure? (Expr.readNumber text position)).toList
  | identifier _ _ => []
  | fraction numerator denominator _ => numerator.defects ++ denominator.defects
  | call keyword argument position =>
    argument.defects ++
      if (Function.ofKeyword? keyword).isNone then [.unknownFunction keyword position] else []
  | squareRoot radicand _ => radicand.defects
  | root index radicand _ => index.defects ++ radicand.defects
  | binary left operator right position =>
    left.defects ++ right.defects ++
      if operator.operator?.isNone then [.unknownOperator ⟨operator, position⟩] else []
  | negation operand _ => operand.defects
  | factorial operand _ => operand.defects
  | group inner => inner.defects

/-- The calls of a tree, children before their parents and from left to right. -/
def calls : ParseTree → List (String × Nat)
  | number _ _ => []
  | identifier _ _ => []
  | fraction numerator denominator _ => numerator.calls ++ denominator.calls
  | call keyword argument position => argument.calls ++ [(keyword, position)]
  | squareRoot radicand _ => radicand.calls
  | root index radicand _ => index.calls ++ radicand.calls
  | binary left _ right _ => left.calls ++ right.calls
  | negation operand _ => operand.calls
  | factorial operand _ => operand.calls
  | group inner => inner.calls

end ParseTree

/-- If what follows a computation fails in one way whatever it is given, this failure counts behind
the computation's own. -/
theorem failure?_bind {ε α β : Type} {first : Except ε α} {next : α → Except ε β}
    {later : Option ε} (h : ∀ value, failure? (next value) = later) :
    failure? (first >>= next) = (failure? first).or later := by
  cases first with
  | ok value => exact h value
  | error error => rfl

theorem failure?_mapError {ε ε' α : Type} (f : ε → ε') (result : Except ε α) :
    failure? (result.mapError f) = (failure? result).map f := by
  cases result <;> rfl

/-- Building fails with the first defect. -/
theorem ParseTree.failure?_ofParseTree? (tree : ParseTree) :
    failure? (Expr.ofParseTree? tree) = tree.defects.head? := by
  induction tree with
  | number text position =>
    rw [Expr.ofParseTree?_number, defects]
    cases Expr.readNumber text position <;> rfl
  | identifier => rfl
  | fraction numerator denominator _ ihn ihd =>
    rw [Expr.ofParseTree?_fraction, defects, List.head?_append, ← ihn, ← ihd]
    exact failure?_map₂ _ _ _
  | call keyword argument position ih =>
    rw [Expr.ofParseTree?_call, defects, List.head?_append, ← ih]
    apply failure?_bind
    intro a
    cases Function.ofKeyword? keyword <;> rfl
  | squareRoot radicand _ ih =>
    rw [Expr.ofParseTree?_squareRoot, defects, ← ih]
    exact failure?_map _ _
  | root index radicand _ ihi ihr =>
    rw [Expr.ofParseTree?_root, defects, List.head?_append, ← ihi, ← ihr]
    exact failure?_map₂ _ _ _
  | binary left operator right position ihl ihr =>
    rw [Expr.ofParseTree?_binary, defects, List.append_assoc, List.head?_append,
      List.head?_append, ← ihl, ← ihr]
    apply failure?_bind
    intro l
    apply failure?_bind
    intro r
    cases operator.operator? <;> rfl
  | negation operand _ ih =>
    rw [Expr.ofParseTree?_negation, defects, ← ih]
    exact failure?_map _ _
  | factorial operand _ ih =>
    rw [Expr.ofParseTree?_factorial, defects, ← ih]
    exact failure?_map _ _
  | group inner ih => exact ih

namespace Decimal

/-- A text that starts with the point has no whole part. -/
theorem ofText?_fraction {digits : List Char} (h : IsDigits digits) :
    ofText? ('.' :: digits) = some ⟨wholeOfDigits digits, -digits.length⟩ := by
  simp [ofText?, splitFraction, exponent?, h.takeWhile, h.dropWhile, h.1]

/-- A text with the pattern of a number is read as the double nearest to it. -/
theorem exists_ofText? {text : List Char} (h : Token.IsNumber text) :
    ∃ number, ofText? text = some number ∧
      readFloat? (String.ofList text) = some (number.toFloat false) := by
  obtain ⟨number, hsign, hnumber⟩ :
      ∃ number, splitSign text = (false, text) ∧ ofText? text = some number := by
    rcases h with hnumeral | ⟨digits, rfl, hdigits⟩
    · cases hnumeral with
      | whole hdigits => exact ⟨_, (IsNumeral.whole hdigits).splitSign_eq, ofText?_digits hdigits⟩
      | pointed hdigits hfraction =>
        exact ⟨_, (IsNumeral.pointed hdigits hfraction).splitSign_eq,
          ofText?_pointed hdigits hfraction⟩
    · exact ⟨_, rfl, ofText?_fraction hdigits⟩
  refine ⟨number, hnumber, ?_⟩
  rw [readFloat?, String.toList_ofList, hsign]
  simp only [hnumber]

/-- Every text with the pattern of a number stands for one. -/
theorem exists_readFloat? {text : List Char} (h : Token.IsNumber text) :
    ∃ value, readFloat? (String.ofList text) = some value := by
  obtain ⟨number, -, hread⟩ := exists_ofText? h
  exact ⟨_, hread⟩

end Decimal

namespace Token

/-- Only numbers spell literals. -/
theorem isNumber_of_spells {text : List Char} {literal : String}
    (h : Spells text (.number literal)) : IsNumber text ∧ literal = String.ofList text := by
  rcases spells_iff.1 h with ⟨hnumber, heq⟩ | ⟨-, heq⟩ | ⟨c, -, hsymbol⟩
  · exact ⟨hnumber, Token.number.inj heq⟩
  · unfold ofWord at heq
    split at heq
    · cases heq
    · split at heq <;> cases heq
  · unfold ofSymbol? at hsymbol
    split at hsymbol <;> cases hsymbol

def IsReadable : Token → Prop
  | number literal => ∃ value, Decimal.readFloat? literal = some value
  | _ => True

/-- Every number of a source can be read. -/
theorem isReadable_of_lex {source : String} {lexemes : List Lexeme}
    (hlex : lex source = .ok lexemes) : ∀ lexeme ∈ lexemes, lexeme.token.IsReadable := by
  intro lexeme hlexeme
  obtain ⟨_, _, _, -, -, hlongest⟩ := exists_longestToken_of_lex hlex hlexeme
  have hspells := hlongest.spells
  cases htoken : lexeme.token with
  | number literal =>
    rw [htoken] at hspells
    obtain ⟨hnumber, rfl⟩ := isNumber_of_spells hspells
    exact Decimal.exists_readFloat? hnumber
  | _ => trivial

theorem isSome_operator?_of_isAdditive {token : Token} (h : token.isAdditive) :
    token.operator?.isSome := by
  cases token <;> first | rfl | cases h

theorem isSome_operator?_of_isMultiplicative {token : Token} (h : token.isMultiplicative) :
    token.operator?.isSome := by
  cases token <;> first | rfl | cases h

end Token

theorem Function.mem_all (function : Function) : function ∈ all := by
  cases function <;> decide

/-- A keyword is unknown if no function has it. -/
theorem Function.isNone_ofKeyword? (keyword : String) :
    (ofKeyword? keyword).isNone = decide (keyword ∉ all.map Function.keyword) := by
  rw [Bool.eq_iff_iff, Option.isNone_iff_eq_none, ofKeyword?, List.find?_eq_none]
  simp

def ParseTree.unknownCalls (tree : ParseTree) : List (String × Nat) :=
  tree.calls.filter fun call ↦ call.1 ∉ Function.all.map Function.keyword

/-- Nothing is wrong with the tree but calls of functions that do not exist. -/
def ParseTree.FailsByCalls (tree : ParseTree) : Prop :=
  tree.defects = tree.unknownCalls.map fun call ↦ .unknownFunction call.1 call.2

namespace ParseTree.FailsByCalls

variable {first second : ParseTree}

theorem call (h : first.FailsByCalls) (keyword : String) (position : Nat) :
    (ParseTree.call keyword first position).FailsByCalls := by
  unfold FailsByCalls at h
  rw [FailsByCalls, defects, unknownCalls, calls, List.filter_append, List.map_append, h,
    unknownCalls]
  congr 1
  simp only [List.filter_cons, List.filter_nil, Function.isNone_ofKeyword?]
  split <;> rfl

/-- The defects of two parts are those of the first and then those of the second. -/
theorem append (hfirst : first.FailsByCalls) (hsecond : second.FailsByCalls) :
    first.defects ++ second.defects =
      ((first.calls ++ second.calls).filter fun call ↦
        call.1 ∉ Function.all.map Function.keyword).map
          fun call ↦ .unknownFunction call.1 call.2 := by
  unfold FailsByCalls at hfirst hsecond
  rw [List.filter_append, List.map_append, hfirst, hsecond, unknownCalls, unknownCalls]

theorem binary (hfirst : first.FailsByCalls) (hsecond : second.FailsByCalls) {operator : Token}
    (hoperator : operator.operator?.isSome) (position : Nat) :
    (ParseTree.binary first operator second position).FailsByCalls := by
  obtain ⟨infixed, hinfixed⟩ := Option.isSome_iff_exists.1 hoperator
  have hnone : (ParseTree.binary first operator second position).defects =
      first.defects ++ second.defects := by
    simp [defects, hinfixed]
  exact hnone.trans (hfirst.append hsecond)

end ParseTree.FailsByCalls

/-- Where every number can be read, only calls are left to be wrong. -/
theorem Derives.failsByCalls {category : Category} {lexemes : List Lexeme} {tree : ParseTree}
    (h : Derives category lexemes tree)
    (hreadable : ∀ lexeme ∈ lexemes, lexeme.token.IsReadable) : tree.FailsByCalls := by
  induction h with
  | ofProduct _ ih | ofUnary _ ih | ofPower _ ih | ofFactorial _ ih | ofPrimary _ ih =>
    exact ih hreadable
  | number =>
    obtain ⟨value, hvalue⟩ := hreadable _ List.mem_cons_self
    rw [ParseTree.FailsByCalls, ParseTree.defects, Expr.readNumber, hvalue]
    rfl
  | identifier => rfl
  | call _ ih => exact (ih fun lexeme h ↦ hreadable lexeme (by simp [h])).call _ _
  | negation _ ih | group _ ih | squareRoot _ ih | factorial _ ih =>
    exact ih fun lexeme h ↦ hreadable lexeme (by simp [h])
  | fraction _ _ ihl ihr | curriedFraction _ _ ihl ihr | root _ _ ihl ihr =>
    have hfirst := ihl fun lexeme h ↦ hreadable lexeme (by simp [h])
    have hsecond := ihr fun lexeme h ↦ hreadable lexeme (by simp [h])
    exact hfirst.append hsecond
  | sum _ hoperator _ ihl ihr =>
    have hleft := ihl fun lexeme h ↦ hreadable lexeme (by simp [h])
    have hright := ihr fun lexeme h ↦ hreadable lexeme (by simp [h])
    exact hleft.binary hright (Token.isSome_operator?_of_isAdditive hoperator) _
  | product _ hoperator _ ihl ihr =>
    have hleft := ihl fun lexeme h ↦ hreadable lexeme (by simp [h])
    have hright := ihr fun lexeme h ↦ hreadable lexeme (by simp [h])
    exact hleft.binary hright (Token.isSome_operator?_of_isMultiplicative hoperator) _
  | power _ _ ihl ihr =>
    have hbase := ihl fun lexeme h ↦ hreadable lexeme (by simp [h])
    have hexponent := ihr fun lexeme h ↦ hreadable lexeme (by simp [h])
    exact hbase.binary hexponent rfl _

/-- A text that parses fails to compile by the first of its calls that is unknown. -/
theorem failure?_compile_of_parse {source : String} {tree : ParseTree}
    (hparse : ParseTree.parse source = .ok tree) :
    failure? (compile source).result =
      (tree.calls.find? fun call ↦ call.1 ∉ Function.all.map Function.keyword).map
        fun call ↦ .build (.unknownFunction call.1 call.2) := by
  obtain ⟨lexemes, hlexed, hread⟩ := bind_eq_ok_iff.1 hparse
  have hlex : Token.lex source = .ok lexemes := mapError_eq_ok_iff.1 hlexed
  have hderives := (ParseTree.derives_of_ofLexemesWithin (by decide) hread).1
  have hcalls : tree.defects = _ := hderives.failsByCalls (Token.isReadable_of_lex hlex)
  have hbuild : (compile source).result = (Expr.ofParseTree? tree).mapError .build := by
    rw [result_compile_eq_parse, hparse]
    rfl
  rw [hbuild, failure?_mapError, tree.failure?_ofParseTree?, hcalls, List.head?_map,
    ParseTree.unknownCalls, List.head?_filter, Option.map_map]
  rfl

/-- A parsed source can only fail to build for an unknown function, and the first call of one is
reported, children before their parents and from left to right. It compiles if there is no such
call. No source at all is refused for a number that cannot be read, for an operator that is none or
for a malformed node. -/
theorem compile_fails_by_unknown_function (source : String) :
    (∀ tree, ParseTree.parse source = .ok tree →
      (∀ error, (compile source).result = .error error ↔
        ∃ keyword position,
          tree.calls.find? (fun call ↦ call.1 ∉ Function.all.map Function.keyword) =
            some (keyword, position) ∧
          error = .build (.unknownFunction keyword position)) ∧
      ((∃ expr, (compile source).result = .ok expr) ↔
        ∀ call ∈ tree.calls, ∃ function : Function, function.keyword = call.1)) ∧
    ∀ error, (compile source).result = .error (.build error) →
      ∃ keyword position, error = .unknownFunction keyword position := by
  have herrors (tree : ParseTree) (hparse : ParseTree.parse source = .ok tree) (error : Error) :
      (compile source).result = .error error ↔
        ∃ keyword position,
          tree.calls.find? (fun call ↦ call.1 ∉ Function.all.map Function.keyword) =
            some (keyword, position) ∧
          error = .build (.unknownFunction keyword position) := by
    rw [← failure?_eq_some_iff, failure?_compile_of_parse hparse, Option.map_eq_some_iff]
    simp only [Prod.exists, eq_comm]
  refine ⟨fun tree hparse ↦ ⟨herrors tree hparse, ?_⟩, fun error herror ↦ ?_⟩
  · rw [← failure?_eq_none_iff, failure?_compile_of_parse hparse, Option.map_eq_none_iff,
      List.find?_eq_none]
    simp [Function.mem_all]
  · cases hparse : ParseTree.parse source with
    | ok tree =>
      obtain ⟨keyword, position, -, heq⟩ := (herrors tree hparse _).1 herror
      exact ⟨keyword, position, Error.build.inj heq⟩
    | error refused =>
      rw [result_compile_eq_parse, hparse] at herror
      cases herror

/-- Of two unknown functions the one in the index comes before the one in the radicand. -/
theorem compile_fails_by_unknown_index :
    ParseTree.parse "root[foo(1)](bar(2))" =
      .ok (.root (.call "foo" (.number "1" 9) 5) (.call "bar" (.number "2" 17) 13) 0) ∧
    (compile "root[foo(1)](bar(2))").result = .error (.build (.unknownFunction "foo" 5)) := by
  have hparse : ParseTree.parse "root[foo(1)](bar(2))" =
      .ok (.root (.call "foo" (.number "1" 9) 5) (.call "bar" (.number "2" 17) 13) 0) := by
    decide +kernel
  exact ⟨hparse,
    (((compile_fails_by_unknown_function _).1 _ hparse).1 _).2 ⟨"foo", 5, by decide, rfl⟩⟩

end Formula
