import Formula.Proofs.ViablePrefix

/-!
# Where the nesting is too deep

A nesting that is too deep is reported at a lexeme: the one that the construct above the limit
starts with, or the next one to be read if there is no room for any. Only where the lexemes have run
out there is none, and then one more lexeme would be the one that is too deep, whatever it is. The
rules are taken one by one, as for their outcomes.
-/

namespace Formula.Rule

/-- Where a reading that finds the nesting too deep may say so: at a position that is known from
before, at one of the lexemes, or, where these have run out, in place of the lexeme to come. -/
inductive PlacedAt (known : Nat → Prop) (read : List Lexeme → Reading) (lexemes : List Lexeme) :
    Nat → Prop where
  | known {position : Nat} (hknown : known position) : PlacedAt known read lexemes position
  | lexeme {lexeme : Lexeme} (hmem : lexeme ∈ lexemes) :
      PlacedAt known read lexemes lexeme.position
  | runOut (hnext : ∀ next more,
      read (lexemes ++ next :: more) = .error (.tooDeep next.position)) :
      PlacedAt known read lexemes 0

theorem PlacedAt.imp {known : Nat → Prop} {read other : List Lexeme → Reading}
    {lexemes : List Lexeme} {position : Nat} (h : PlacedAt known read lexemes position)
    (himp : ∀ next more, read (lexemes ++ next :: more) = .error (.tooDeep next.position) →
      other (lexemes ++ next :: more) = .error (.tooDeep next.position)) :
    PlacedAt known other lexemes position := by
  cases h with
  | known hknown => exact .known hknown
  | lexeme hmem => exact .lexeme hmem
  | runOut hnext => exact .runOut fun next more ↦ himp next more (hnext next more)

/-- The known positions can be exchanged for other ones if each of them still has a reason. -/
theorem PlacedAt.of_known {known other : Nat → Prop} {read : List Lexeme → Reading}
    {lexemes : List Lexeme} {position : Nat} (h : PlacedAt known read lexemes position)
    (hother : ∀ position, known position → PlacedAt other read lexemes position) :
    PlacedAt other read lexemes position := by
  cases h with
  | known hknown => exact hother position hknown
  | lexeme hmem => exact .lexeme hmem
  | runOut hnext => exact .runOut hnext

/-- The reading of these lexemes has such a position if it finds the nesting too deep. -/
def Places (known : Nat → Prop) (read : List Lexeme → Reading) (lexemes : List Lexeme) : Prop :=
  ∀ position, read lexemes = .error (.tooDeep position) → PlacedAt known read lexemes position

theorem tooDeep_of_bounded {limit position found : Nat} {tree : ParseTree}
    {next : ParseTree → Reading}
    (h : (do next (← tree.bounded limit position)) = .error (.tooDeep found)) :
    found = position ∨
      tree.bounded limit position = .ok tree ∧ next tree = .error (.tooDeep found) := by
  by_cases hheight : limit < tree.height
  · have hbounded : tree.bounded limit position = .error (.tooDeep position) := if_pos hheight
    rw [hbounded] at h
    cases h
    exact .inl rfl
  · have hbounded : tree.bounded limit position = .ok tree := if_neg hheight
    rw [hbounded] at h
    exact .inr ⟨hbounded, h⟩

namespace Places

variable {known : Nat → Prop} {read : List Lexeme → Reading} {lexemes : List Lexeme}

theorem of_ne (h : ∀ position, read lexemes ≠ .error (.tooDeep position)) :
    Places known read lexemes :=
  fun position herror ↦ absurd herror (h position)

theorem mono {more : Nat → Prop} (h : Places known read lexemes)
    (hle : ∀ position, known position → more position) : Places more read lexemes :=
  fun position herror ↦ (h position herror).of_known fun _ hknown ↦ .known (hle _ hknown)

/-- The position of the first lexeme need not be known. -/
theorem of_known_head {lexeme : Lexeme} {rest : List Lexeme}
    (h : Places (fun position ↦ known position ∨ position = lexeme.position) read
      (lexeme :: rest)) : Places known read (lexeme :: rest) := by
  intro position herror
  refine (h position herror).of_known fun position hposition ↦ ?_
  rcases hposition with hknown | rfl
  · exact .known hknown
  · exact .lexeme List.mem_cons_self

/-- One lexeme is taken, and its position is known to what is read behind it. -/
theorem cons {lexeme : Lexeme} {rest : List Lexeme} {next : List Lexeme → Reading}
    (h : Places (fun position ↦ known position ∨ position = lexeme.position) next rest)
    (hread : ∀ other, read (lexeme :: other) = next other) :
    Places known read (lexeme :: rest) := by
  apply of_known_head
  intro position herror
  rw [hread] at herror
  cases h position herror with
  | known hknown => exact .known hknown
  | lexeme hmem => exact .lexeme (List.mem_cons_of_mem _ hmem)
  | runOut hnext =>
    refine .runOut fun next more ↦ ?_
    rw [List.cons_append, hread, hnext]

theorem of_cons {lexeme : Lexeme} {rest : List Lexeme} {other : List Lexeme → Reading}
    (h : Places known other (lexeme :: rest))
    (hagree : ∀ more, read (lexeme :: more) = other (lexeme :: more)) :
    Places known read (lexeme :: rest) := by
  intro position herror
  rw [hagree] at herror
  refine (h position herror).imp fun next more hnext ↦ ?_
  rw [List.cons_append, hagree, ← List.cons_append, hnext]

/-- One reading after the other. Where the lexemes run out between the two, the second one must not
miss a lexeme, because with more of them the first one could take more. -/
theorem bind {language : Language Lexeme} {next : ParseTree → List Lexeme → Reading}
    (hfirst : Places known read lexemes) (hpredicts : Predicts language read)
    (hend : ∀ tree position, next tree [] = .error (.tooDeep position) → known position)
    (hnext : ∀ tree rest, read lexemes = .ok (tree, rest) → Places known (next tree) rest) :
    Places known
      (fun lexemes ↦ do
        let (tree, rest) ← read lexemes
        next tree rest)
      lexemes := by
  intro position herror
  have hjudged := hpredicts lexemes
  cases hresult : read lexemes with
  | error error =>
    simp only [hresult] at herror
    cases herror
    refine (hfirst position hresult).imp fun next more hnext ↦ ?_
    simp only [hnext]
    rfl
  | ok result =>
    obtain ⟨tree, rest⟩ := result
    simp only [hresult] at herror
    rw [hresult] at hjudged
    cases hjudged with
    | @accepted _ taken _ hsplit _ hsame =>
      cases hnext tree rest hresult position herror with
      | known hknown => exact .known hknown
      | lexeme hmem => exact .lexeme (hsplit ▸ List.mem_append_right taken hmem)
      | runOut hout =>
        cases rest with
        | nil => exact .known (hend tree 0 herror)
        | cons first others =>
          refine .runOut fun next more ↦ ?_
          have hread : read (lexemes ++ next :: more) =
              .ok (tree, first :: others ++ next :: more) := by
            rw [hsplit, List.append_assoc]
            exact hsame _ (by simp) (by simp)
          simp only [hread]
          exact hout next more

theorem bounded {limit position : Nat} (hknown : known position)
    {next : ParseTree → List Lexeme → Reading} {tree : ParseTree}
    (h : Places known (next tree) lexemes) :
    Places known (fun lexemes ↦ do next (← tree.bounded limit position) lexemes) lexemes := by
  intro found herror
  rcases tooDeep_of_bounded herror with rfl | ⟨hheight, hnext⟩
  · exact .known hknown
  · refine (h found hnext).imp fun next more hmore ↦ ?_
    rw [hheight]
    exact hmore

/-- What is read becomes part of one more construct, whose position is known. -/
theorem wrapped {language : Language Lexeme} {position : Nat} (limit : Nat)
    (hpredicts : Predicts language read) (hknown : known position)
    (wrap : ParseTree → ParseTree) (h : Places known read lexemes) :
    Places known
      (fun lexemes ↦ do
        let (inner, rest) ← read lexemes
        let tree ← (wrap inner).bounded limit position
        return (tree, rest))
      lexemes := by
  let done (tree : ParseTree) (rest : List Lexeme) : Reading := .ok (tree, rest)
  have hdone (tree : ParseTree) (rest : List Lexeme) : Places known (done tree) rest :=
    of_ne fun _ hdone ↦ by cases hdone
  refine h.bind hpredicts (fun inner found herror ↦ ?_) fun inner rest _ ↦
    (hdone (wrap inner) rest).bounded hknown
  rcases tooDeep_of_bounded herror with rfl | ⟨-, hnext⟩
  · exact hknown
  · cases hnext

end Places

/-- A rule that is given no positions knows none. -/
def Located (rule : Rule) : Prop :=
  ∀ lexemes, Places (fun _ ↦ False) rule.read lexemes

/-- A rule that is `Located` fits any account of which positions are known. -/
theorem Located.places {rule : Rule} (h : Located rule) (known : Nat → Prop)
    (lexemes : List Lexeme) : Places known rule.read lexemes :=
  (h lexemes).mono fun _ hfalse ↦ hfalse.elim

theorem located_tooDeep : Located tooDeep := by
  intro lexemes position herror
  cases lexemes with
  | nil =>
    cases herror
    exact .runOut fun _ _ ↦ rfl
  | cons lexeme rest =>
    cases herror
    exact .lexeme List.mem_cons_self

section

variable {known : Nat → Prop} {expression : Rule}

theorem places_expect {next : List Lexeme → Reading} (wanted : Token)
    (h : ∀ lexemes, Places known next lexemes) (lexemes : List Lexeme) :
    Places known (fun lexemes ↦ do next (← expect wanted lexemes)) lexemes := by
  cases lexemes with
  | nil => exact .of_ne fun _ herror ↦ by cases herror
  | cons found rest =>
    by_cases hfound : found.token = wanted
    · refine ((h rest).mono fun _ ↦ .inl).cons fun other ↦ ?_
      rw [expect, if_pos hfound]
      rfl
    · refine .of_ne fun _ herror ↦ ?_
      rw [expect, if_neg hfound] at herror
      cases herror

theorem places_closing (closing : Token) (tree : ParseTree) (lexemes : List Lexeme) :
    Places known
      (fun lexemes ↦ do
        let rest ← expect closing lexemes
        return (tree, rest))
      lexemes :=
  places_expect closing (fun _ ↦ .of_ne fun _ herror ↦ by cases herror) lexemes

variable (hpredicts : Predicts Category.expression.language expression.read)
  (h : Located expression)

include hpredicts h

theorem located_enclosed (opening closing : Token) :
    Located (enclosed opening closing expression) :=
  places_expect opening fun lexemes ↦
    (h lexemes).bind hpredicts (fun _ _ herror ↦ by cases herror) fun tree rest _ ↦
      places_closing closing tree rest

theorem located_denominator : Located (denominator expression) := by
  intro lexemes
  match lexemes with
  | [] => exact .of_ne fun _ herror ↦ by cases herror
  | ⟨token, position⟩ :: rest =>
    cases token with
    | comma =>
      have htail := (h.places (fun found ↦ False ∨ found = position) rest).bind hpredicts
        (fun _ _ herror ↦ by cases herror) fun tree rest _ ↦ places_closing .rightParen tree rest
      exact htail.cons fun _ ↦ rfl
    | rightParen =>
      exact Places.cons ((located_enclosed hpredicts h .leftParen .rightParen).places _ rest)
        fun _ ↦ rfl
    | _ => exact .of_ne fun _ herror ↦ by cases herror

variable (limit : Nat) {position : Nat} (hknown : known position)

include hknown

theorem places_afterIdentifier (name : String) (lexemes : List Lexeme) :
    Places known (afterIdentifier limit expression name position) lexemes := by
  match lexemes with
  | [] => exact .of_ne fun _ herror ↦ by cases herror
  | ⟨token, opening⟩ :: rest =>
    cases token with
    | leftParen =>
      have henclosed := located_enclosed hpredicts h .leftParen .rightParen
      have hcall := (henclosed.places known (⟨.leftParen, opening⟩ :: rest)).wrapped limit
        (predicts_enclosed .leftParen .rightParen hpredicts) hknown (.call name · position)
      exact hcall.of_cons fun _ ↦ rfl
    | _ => exact .of_ne fun _ herror ↦ by cases herror

theorem places_afterFrac (lexemes : List Lexeme) :
    Places known (afterFrac limit expression position) lexemes :=
  places_expect .leftParen (fun lexemes ↦
    (h.places known lexemes).bind hpredicts (fun _ _ herror ↦ by cases herror)
      fun numerator rest _ ↦
        ((located_denominator hpredicts h).places known rest).wrapped limit
          (predicts_denominator hpredicts) hknown (.fraction numerator · position)) lexemes

theorem places_afterRoot (lexemes : List Lexeme) :
    Places known (afterRoot limit expression position) lexemes := by
  have hradicand := located_enclosed hpredicts h .leftParen .rightParen
  have hread := predicts_enclosed .leftParen .rightParen hpredicts
  match lexemes with
  | [] => exact .of_ne fun _ herror ↦ by cases herror
  | ⟨token, opening⟩ :: rest =>
    cases token with
    | leftBracket =>
      have hindex := located_enclosed hpredicts h .leftBracket .rightBracket
      have hroot := (hindex.places known (⟨.leftBracket, opening⟩ :: rest)).bind
        (predicts_enclosed .leftBracket .rightBracket hpredicts)
        (fun _ _ herror ↦ by cases herror) fun index rest _ ↦
          (hradicand.places known rest).wrapped limit hread hknown (.root index · position)
      exact hroot.of_cons fun _ ↦ rfl
    | _ =>
      exact ((hradicand.places known _).wrapped limit hread hknown (.squareRoot · position)
        ).of_cons fun _ ↦ rfl

end

/-- The positions of a primary expression are those of its expressions, or starts of its own
constructs. -/
theorem located_primary (limit : Nat) {expression : Rule}
    (hpredicts : Predicts Category.expression.language expression.read)
    (h : Located expression) : Located (primary limit expression) := by
  intro lexemes
  match lexemes with
  | [] => exact .of_ne fun _ herror ↦ by cases herror
  | ⟨token, position⟩ :: rest =>
    cases token with
    | identifier name =>
      exact (places_afterIdentifier hpredicts h limit (.inr rfl) name rest).cons fun _ ↦ rfl
    | leftParen =>
      have hinner := located_enclosed hpredicts h .leftParen .rightParen
      have hgroup := (hinner.places (False ∨ · = position) (⟨.leftParen, position⟩ :: rest)
        ).wrapped limit (predicts_enclosed .leftParen .rightParen hpredicts) (.inr rfl) .group
      exact (hgroup.of_cons fun _ ↦ rfl).of_known_head
    | frac => exact (places_afterFrac hpredicts h limit (.inr rfl) rest).cons fun _ ↦ rfl
    | root => exact (places_afterRoot hpredicts h limit (.inr rfl) rest).cons fun _ ↦ rfl
    | _ => exact .of_ne fun _ herror ↦ by cases herror

section

variable {known : Nat → Prop} (limit : Nat)

theorem places_factorials (operand : ParseTree) (lexemes : List Lexeme) :
    Places known (factorials limit operand) lexemes := by
  induction lexemes generalizing known operand with
  | nil => exact .of_ne fun _ herror ↦ by cases herror
  | cons next rest ih =>
    obtain ⟨token, position⟩ := next
    cases token with
    | bang =>
      exact ((ih (.factorial operand position)).bounded (.inr rfl)).cons fun _ ↦ rfl
    | _ => exact .of_ne fun _ herror ↦ by cases herror

/-- Bang signs are counted from the start of their operand. -/
theorem located_factorial {primary : Rule}
    (hpredicts : Predicts Category.primary.language primary.read) (h : Located primary) :
    Located (factorial limit primary) :=
  fun lexemes ↦ (h lexemes).bind hpredicts (fun _ _ herror ↦ by cases herror)
    fun operand rest _ ↦ places_factorials limit operand rest

/-- One round of a chain reports its operand's positions or the operator's. -/
theorem places_extend (binds : Token → Bool) {language : Language Lexeme} {operand : Rule}
    (hpredicts : Predicts language operand.read) (h : Located operand) (left : ParseTree)
    (lexemes : List Lexeme) : Places known (extend limit binds operand left) lexemes := by
  induction hlength : lexemes.length using Nat.strong_induction_on
    generalizing known left lexemes with
  | _ length ih =>
    cases lexemes with
    | nil =>
      refine .of_ne fun _ herror ↦ ?_
      rw [extend] at herror
      cases herror
    | cons operator rest =>
      cases hbinds : binds operator.token with
      | false =>
        refine .of_ne fun _ herror ↦ ?_
        rw [extend_cons, if_neg (by simp [hbinds])] at herror
        cases herror
      | true =>
        have hread (other : List Lexeme) := extend_cons limit binds operand left operator other
        simp only [hbinds, if_true] at hread
        let known' (position : Nat) : Prop := known position ∨ position = operator.position
        let next (right : ParseTree) (after : List Lexeme) : Reading := do
          let tree ← (ParseTree.binary left operator.token right operator.position).bounded limit
            operator.position
          extend limit binds operand tree after
        have hend (right : ParseTree) (position : Nat)
            (herror : next right [] = .error (.tooDeep position)) : known' position := by
          rcases tooDeep_of_bounded herror with rfl | ⟨-, hextend⟩
          · exact .inr rfl
          · rw [extend] at hextend
            cases hextend
        have hnext (right : ParseTree) (after : List Lexeme)
            (hright : operand.read rest = .ok (right, after)) :
            Places known' (next right) after := by
          have hshorter := operand.length_lt hright
          let wrapped := ParseTree.binary left operator.token right operator.position
          have hafter : Places known' (extend limit binds operand wrapped) after :=
            ih after.length (by simp at hlength; omega) wrapped after rfl
          exact hafter.bounded (.inr rfl)
        exact ((h.places known' rest).bind hpredicts hend hnext).cons hread

/-- A chain of operators that bind equally adds no position but those of its operators. -/
theorem located_chain (binds : Token → Bool) {language : Language Lexeme} {operand : Rule}
    (hpredicts : Predicts language operand.read) (h : Located operand) :
    Located (operand.chain limit binds) := by
  intro lexemes
  refine (h lexemes).bind hpredicts (fun left position herror ↦ ?_) fun left rest _ ↦
    places_extend limit binds hpredicts h left rest
  rw [extend] at herror
  cases herror

theorem located_expression {unary : Rule}
    (hpredicts : Predicts Category.unary.language unary.read) (h : Located unary) :
    Located (expression limit unary) :=
  located_chain limit _ (predicts_chain limit .ofUnary .product hpredicts)
    (located_chain limit _ hpredicts h)

theorem places_afterBase {exponent : Rule}
    (hpredicts : Predicts Category.unary.language exponent.read) (h : Located exponent)
    (base : ParseTree) (lexemes : List Lexeme) :
    Places known (afterBase limit exponent base) lexemes := by
  match lexemes with
  | [] => exact .of_ne fun _ herror ↦ by cases herror
  | ⟨token, position⟩ :: rest =>
    cases token with
    | caret =>
      refine .cons ?_ fun _ ↦ rfl
      exact (h.places _ rest).wrapped limit hpredicts (.inr rfl) (.binary base .caret · position)
    | _ => exact .of_ne fun _ herror ↦ by cases herror

/-- The base is read before the sign is seen, and the exponent behind it. -/
theorem located_power {base exponent : Rule}
    (hbase : Predicts Category.factorial.language base.read)
    (hexponent : Predicts Category.unary.language exponent.read)
    (hplaced : Located base) (hraised : Located exponent) :
    Located (power limit base exponent) :=
  fun lexemes ↦ (hplaced lexemes).bind hbase (fun _ _ herror ↦ by cases herror)
    fun tree rest _ ↦ places_afterBase limit hexponent hraised tree rest

theorem located_negation {operand power : Rule}
    (hpredicts : Predicts Category.unary.language operand.read) (hoperand : Located operand)
    (hpower : Located power) (hend : ∀ position, power.read [] ≠ .error (.tooDeep position)) :
    Located (negation limit operand power) := by
  intro lexemes
  match lexemes with
  | [] => exact .of_ne hend
  | ⟨token, position⟩ :: rest =>
    cases token with
    | minus =>
      refine .cons ?_ fun _ ↦ rfl
      exact (hoperand.places _ rest).wrapped limit hpredicts (.inr rfl) (.negation · position)
    | _ => exact (hpower _).of_cons fun _ ↦ rfl

/-- Every level of nesting that is left keeps the positions known. -/
theorem located_unary (room : Nat) : Located (unary limit room) := by
  induction room with
  | zero => exact located_tooDeep
  | succ room ih =>
    have hunary := predicts_unary limit room
    have hexpression := predicts_expression limit hunary
    have hprimary := predicts_primary limit hexpression
    have hbase := located_factorial limit hprimary
      (located_primary limit hexpression (located_expression limit hunary ih))
    exact located_negation limit hunary ih
      (located_power limit (predicts_factorial limit hprimary) hunary hbase ih)
      fun _ herror ↦ by cases herror

end

end Formula.Rule

namespace Formula.ParseTree

/-- A nesting that is too deep is reported at one of the lexemes, unless they have run out: then it
is reported at 0, and whatever lexeme comes next would be the one that is too deep. -/
theorem tooDeep_cases {limit : Nat} {lexemes : List Lexeme} {position : Nat}
    (h : ofLexemesWithin limit lexemes = .error (.tooDeep position)) :
    (∃ lexeme ∈ lexemes, lexeme.position = position) ∨
      position = 0 ∧ ∀ next more,
        ofLexemesWithin limit (lexemes ++ next :: more) = .error (.tooDeep next.position) := by
  have hunary := Rule.predicts_unary limit (limit + 1)
  have hplaces :=
    Rule.located_expression limit hunary (Rule.located_unary limit (limit + 1)) lexemes
  unfold ofLexemesWithin at h ⊢
  cases hresult : (Rule.expression limit (Rule.unary limit (limit + 1))).read lexemes with
  | ok result =>
    obtain ⟨tree, rest⟩ := result
    rw [hresult] at h
    cases rest <;> cases h
  | error error =>
    rw [hresult] at h
    cases h
    cases hplaces position hresult with
    | known hknown => exact hknown.elim
    | lexeme hmem => exact .inl ⟨_, hmem, rfl⟩
    | runOut hnext =>
      refine .inr ⟨rfl, fun next more ↦ ?_⟩
      rw [hnext]
      rfl

end Formula.ParseTree
