import Mathlib.Computability.Language
import Mathlib.Order.CompletePartialOrder
import Formula.ParseTree.Grammar
import Formula.Proofs.Grouping

/-!
# Rules that look one lexeme ahead

Every rule reads a language of lexemes and looks at no more than the first lexeme behind what it
takes. So its outcome depends on the lexemes up to that one only, and when it fails, what stands
before the lexeme that it names can be completed to a text of its language. The rules are taken
apart along the operations on languages; nothing is said here about heights, because a rule that
finds the nesting too deep has looked at nothing that matters.
-/

open scoped Computability

namespace Formula

def ParseError.culprit? : ParseError → Option Lexeme
  | .unexpected found => some found
  | .expected _ found => some found
  | .trailing found => some found
  | _ => none

theorem ParseError.culprit?_eq_some_iff {error : ParseError} {found : Lexeme} :
    error.culprit? = some found ↔
      error = .unexpected found ∨ (∃ wanted, error = .expected wanted found) ∨
        error = .trailing found := by
  cases error <;> simp [culprit?]

/-- The stretches of lexemes that are one thing of a category. -/
def Category.language (category : Category) : Language Lexeme :=
  {lexemes | ∃ tree, Derives category lexemes tree}

def Token.single (binds : Token → Bool) : Language Lexeme :=
  {lexemes | ∃ lexeme, binds lexeme.token ∧ lexemes = [lexeme]}

theorem Category.exists_mem_language (category : Category) :
    ∃ lexemes, lexemes ∈ category.language :=
  ⟨[⟨.number "0", 0⟩], .number "0" 0, Derives.number.loosen (Nat.zero_le _)⟩

@[simp] theorem Token.mem_single {binds : Token → Bool} {lexeme : Lexeme} :
    [lexeme] ∈ single binds ↔ binds lexeme.token := by
  constructor
  · rintro ⟨other, hother, heq⟩
    rwa [(List.cons.inj heq).1]
  · exact fun h ↦ ⟨lexeme, h, rfl⟩

theorem exists_mem_single (token : Token) : ∃ lexemes, lexemes ∈ Token.single (· = token) :=
  ⟨[⟨token, 0⟩], by simp⟩

theorem exists_mem_mul {first second : Language Lexeme} (hfirst : ∃ lexemes, lexemes ∈ first)
    (hsecond : ∃ lexemes, lexemes ∈ second) : ∃ lexemes, lexemes ∈ first * second := by
  obtain ⟨_, hfirst⟩ := hfirst
  obtain ⟨_, hsecond⟩ := hsecond
  exact ⟨_, Language.append_mem_mul hfirst hsecond⟩

namespace Rule

/-! ## Outcomes of a reading -/

/-- What the outcome of a reading says about the lexemes, for a rule of a language. Taken lexemes
are of the language, and the same ones are taken whenever the next lexeme is the same; an error
leaves behind the start of a text of the language, and it stays whatever follows the culprit. -/
inductive Judged (language : Language Lexeme) (read : List Lexeme → Reading)
    (lexemes : List Lexeme) : Reading → Prop
  | accepted {tree : ParseTree} {taken rest : List Lexeme} (hsplit : lexemes = taken ++ rest)
      (htaken : taken ∈ language)
      (hsame : ∀ other, other ≠ [] → other.head? = rest.head? →
        read (taken ++ other) = .ok (tree, other)) :
      Judged language read lexemes (.ok (tree, rest))
  | tooDeep {position : Nat} : Judged language read lexemes (.error (.tooDeep position))
  | ended (hmore : ∃ more, lexemes ++ more ∈ language) :
      Judged language read lexemes (.error .unexpectedEnd)
  | offended {before after : List Lexeme} {found : Lexeme} {error : ParseError}
      (hsplit : lexemes = before ++ found :: after) (hfound : error.culprit? = some found)
      (hmore : ∃ more, before ++ more ∈ language)
      (hsame : ∀ other, read (before ++ found :: other) = .error error) :
      Judged language read lexemes (.error error)

/-- The reading looks one lexeme ahead in the language. -/
def Predicts (language : Language Lexeme) (read : List Lexeme → Reading) : Prop :=
  ∀ lexemes, Judged language read lexemes (read lexemes)

theorem predicts_tooDeep (language : Language Lexeme) : Predicts language tooDeep.read :=
  fun _ ↦ .tooDeep

namespace Judged

variable {language first second : Language Lexeme} {read : List Lexeme → Reading}
  {lexemes : List Lexeme} {result : Reading}

theorem mono {wide : Language Lexeme} (h : Judged language read lexemes result)
    (hle : language ≤ wide) : Judged wide read lexemes result := by
  cases h with
  | accepted hsplit htaken hsame => exact .accepted hsplit (hle htaken) hsame
  | tooDeep => exact .tooDeep
  | ended hmore => exact .ended (hmore.imp fun _ hmem ↦ hle hmem)
  | offended hsplit hfound hmore hsame =>
    exact .offended hsplit hfound (hmore.imp fun _ hmem ↦ hle hmem) hsame

/-- Readings that agree on all lexemes with the same first one are judged alike. -/
theorem of_head {other : List Lexeme → Reading} (h : Judged language other lexemes result)
    (hagree : ∀ more, more.head? = lexemes.head? → read more = other more) :
    Judged language read lexemes result := by
  cases h with
  | accepted hsplit htaken hsame =>
    refine .accepted hsplit htaken fun more hmore hhead ↦ ?_
    rw [hagree _ (by simp [hsplit, List.head?_append, hhead]), hsame more hmore hhead]
  | tooDeep => exact .tooDeep
  | ended hmore => exact .ended hmore
  | offended hsplit hfound hmore hsame =>
    refine .offended hsplit hfound hmore fun more ↦ ?_
    rw [hagree _ (by simp [hsplit, List.head?_append]), hsame more]

theorem of_cons {lexeme : Lexeme} {rest : List Lexeme} {other : List Lexeme → Reading}
    (h : Judged language other (lexeme :: rest) result)
    (hagree : ∀ more, read (lexeme :: more) = other (lexeme :: more)) :
    Judged language read (lexeme :: rest) result := by
  refine h.of_head fun more hhead ↦ ?_
  obtain ⟨others, rfl⟩ := List.head?_eq_some_iff.1 hhead
  exact hagree others

/-- Nothing is taken, whatever follows the first lexeme. -/
theorem stop {tree : ParseTree}
    (hstop : ∀ other, other.head? = lexemes.head? → read other = .ok (tree, other)) :
    Judged 1 read lexemes (.ok (tree, lexemes)) :=
  .accepted rfl Language.nil_mem_one fun other _ hhead ↦ hstop other hhead

theorem stop_nil {tree : ParseTree} : Judged 1 read [] (.ok (tree, [])) :=
  .accepted rfl Language.nil_mem_one fun _ hother hhead ↦
    absurd (List.head?_eq_none_iff.1 hhead) hother

theorem stop_cons {tree : ParseTree} {next : Lexeme} {rest : List Lexeme}
    (hstop : ∀ other, read (next :: other) = .ok (tree, next :: other)) :
    Judged 1 read (next :: rest) (.ok (tree, next :: rest)) := by
  refine stop fun other hhead ↦ ?_
  obtain ⟨others, rfl⟩ := List.head?_eq_some_iff.1 hhead
  exact hstop others

/-- The first lexeme is refused, whatever follows it. -/
theorem refuse {found : Lexeme} {after : List Lexeme} {error : ParseError}
    (hlanguage : ∃ text, text ∈ language) (hfound : error.culprit? = some found)
    (hrefuse : ∀ other, read (found :: other) = .error error) :
    Judged language read (found :: after) (.error error) :=
  .offended (List.nil_append (found :: after)).symm hfound hlanguage hrefuse

/-- One lexeme is taken and the reading goes on behind it. -/
theorem cons {lexeme : Lexeme} {rest : List Lexeme} {next : List Lexeme → Reading}
    (h : Judged second next rest result) (hmem : ∀ more ∈ second, lexeme :: more ∈ language)
    (hread : ∀ other, read (lexeme :: other) = next other) :
    Judged language read (lexeme :: rest) result := by
  cases h with
  | accepted hsplit htaken hsame =>
    refine .accepted (congrArg (lexeme :: ·) hsplit) (hmem _ htaken) fun other hother hhead ↦ ?_
    rw [List.cons_append, hread, hsame other hother hhead]
  | tooDeep => exact .tooDeep
  | ended hmore => exact .ended (hmore.imp fun _ ↦ hmem _)
  | @offended before after found error hsplit hfound hmore hsame =>
    have hwhole : lexeme :: rest = (lexeme :: before) ++ found :: after :=
      congrArg (lexeme :: ·) hsplit
    refine .offended hwhole hfound (hmore.imp fun _ ↦ hmem _) fun other ↦ ?_
    rw [List.cons_append, hread, hsame other]

/-- One reading after the other. -/
theorem bind {next : ParseTree → List Lexeme → Reading}
    (hfirst : Judged first read lexemes (read lexemes))
    (hsecond : ∃ text, text ∈ second)
    (hnext : ∀ tree rest, read lexemes = .ok (tree, rest) →
      Judged second (next tree) rest (next tree rest)) :
    Judged (first * second)
      (fun lexemes ↦ do
        let (tree, rest) ← read lexemes
        next tree rest)
      lexemes
      (do
        let (tree, rest) ← read lexemes
        next tree rest) := by
  generalize hresult : read lexemes = result at hfirst hnext
  cases hfirst with
  | @accepted tree taken rest hsplit htaken hsame =>
    have hrest := hnext tree rest rfl
    change Judged _ _ _ (next tree rest)
    generalize next tree rest = outcome at hrest
    have hjoin {other : List Lexeme} (hother : other ≠ []) (hhead : other.head? = rest.head?) :
        (do
          let (tree, rest) ← read (taken ++ other)
          next tree rest) = next tree other := by
      rw [hsame other hother hhead]
      rfl
    cases hrest with
    | @accepted tree' taken' rest' hsplit' htaken' hsame' =>
      have hwhole : lexemes = (taken ++ taken') ++ rest' := by
        rw [hsplit, hsplit', List.append_assoc]
      refine .accepted hwhole (Language.append_mem_mul htaken htaken') fun other hother hhead ↦ ?_
      rw [List.append_assoc, hjoin (by simp [hother])
        (by simp [hsplit', List.head?_append, hhead]), hsame' other hother hhead]
    | tooDeep => exact .tooDeep
    | ended hmore =>
      obtain ⟨more, hmore⟩ := hmore
      refine .ended ⟨more, ?_⟩
      rw [hsplit, List.append_assoc]
      exact Language.append_mem_mul htaken hmore
    | @offended before after found error hsplit' hfound hmore hsame' =>
      obtain ⟨more, hmore⟩ := hmore
      have hwhole : lexemes = (taken ++ before) ++ found :: after := by
        rw [hsplit, hsplit', List.append_assoc]
      have hstart : (taken ++ before) ++ more ∈ first * second := by
        rw [List.append_assoc]
        exact Language.append_mem_mul htaken hmore
      refine .offended hwhole hfound ⟨more, hstart⟩ fun other ↦ ?_
      rw [List.append_assoc, hjoin (by simp) (by simp [hsplit', List.head?_append]), hsame' other]
  | tooDeep => exact .tooDeep
  | ended hmore =>
    obtain ⟨more, hmore⟩ := hmore
    obtain ⟨text, htext⟩ := hsecond
    refine .ended ⟨more ++ text, ?_⟩
    rw [← List.append_assoc]
    exact Language.append_mem_mul hmore htext
  | @offended before after found error hsplit hfound hmore hsame =>
    obtain ⟨more, hmore⟩ := hmore
    obtain ⟨text, htext⟩ := hsecond
    have hstart : before ++ (more ++ text) ∈ first * second := by
      rw [← List.append_assoc]
      exact Language.append_mem_mul hmore htext
    refine .offended hsplit hfound ⟨more ++ text, hstart⟩ fun other ↦ ?_
    rw [hsame other]
    rfl

/-- A check of the height looks at no lexeme. -/
theorem bounded (limit position : Nat) {next : ParseTree → List Lexeme → Reading}
    {tree : ParseTree} (h : Judged language (next tree) lexemes (next tree lexemes)) :
    Judged language (fun lexemes ↦ do next (← tree.bounded limit position) lexemes) lexemes
      (do next (← tree.bounded limit position) lexemes) := by
  by_cases hheight : limit < tree.height
  · rw [ParseTree.bounded, if_pos hheight]
    exact .tooDeep
  · rw [ParseTree.bounded, if_neg hheight]
    exact h

/-- What is read becomes part of one more construct. -/
theorem wrapped (limit position : Nat) (wrap : ParseTree → ParseTree)
    (h : Judged language read lexemes (read lexemes)) :
    Judged language
      (fun lexemes ↦ do
        let (inner, rest) ← read lexemes
        let tree ← (wrap inner).bounded limit position
        return (tree, rest))
      lexemes
      (do
        let (inner, rest) ← read lexemes
        let tree ← (wrap inner).bounded limit position
        return (tree, rest)) := by
  let done (tree : ParseTree) (rest : List Lexeme) : Reading := .ok (tree, rest)
  have hdone (tree : ParseTree) (rest : List Lexeme) : Judged 1 (done tree) rest (done tree rest) :=
    stop fun _ _ ↦ rfl
  rw [← mul_one language]
  exact h.bind ⟨[], Language.nil_mem_one⟩ fun inner rest _ ↦
    (hdone (wrap inner) rest).bounded limit position

end Judged

section

variable {language : Language Lexeme}

/-- A delimiter and what is read behind it. -/
theorem predicts_expect {next : List Lexeme → Reading} (wanted : Token)
    (h : Predicts language next) (hlanguage : ∃ text, text ∈ language) :
    Predicts (Token.single (· = wanted) * language)
      (fun lexemes ↦ do next (← expect wanted lexemes)) := by
  intro lexemes
  have hexists := exists_mem_mul (exists_mem_single wanted) hlanguage
  cases lexemes with
  | nil => exact .ended hexists
  | cons found rest =>
    by_cases hfound : found.token = wanted
    · have hread (other : List Lexeme) :
          (do next (← expect wanted (found :: other))) = next other := by
        rw [expect, if_pos hfound]
        rfl
      beta_reduce
      rw [hread]
      have hsingle : [found] ∈ Token.single (· = wanted) := by simp [hfound]
      exact (h rest).cons (fun _ ↦ Language.append_mem_mul hsingle) hread
    · have hread (other : List Lexeme) :
          (do next (← expect wanted (found :: other))) = .error (.expected wanted found) := by
        rw [expect, if_neg hfound]
        rfl
      beta_reduce
      rw [hread]
      exact .refuse hexists rfl hread

/-- A closing delimiter ends a construct. -/
theorem predicts_closing (closing : Token) (tree : ParseTree) :
    Predicts (Token.single (· = closing))
      (fun lexemes ↦ do
        let rest ← expect closing lexemes
        return (tree, rest)) := by
  have hstop : Predicts 1 (fun lexemes ↦ .ok (tree, lexemes)) := fun _ ↦ .stop fun _ _ ↦ rfl
  rw [← mul_one (Token.single _)]
  exact predicts_expect closing hstop ⟨[], Language.nil_mem_one⟩

end

variable {expression : Rule}

def enclosure (opening closing : Token) : Language Lexeme :=
  Token.single (· = opening) * (Category.expression.language * Token.single (· = closing))

theorem exists_mem_enclosure (opening closing : Token) :
    ∃ text, text ∈ enclosure opening closing :=
  exists_mem_mul (exists_mem_single _)
    (exists_mem_mul Category.expression.exists_mem_language (exists_mem_single _))

/-- An expression between its delimiters is predicted token by token. -/
theorem predicts_enclosed (opening closing : Token)
    (h : Predicts Category.expression.language expression.read) :
    Predicts (enclosure opening closing) (enclosed opening closing expression).read :=
  predicts_expect opening
    (fun lexemes ↦ (h lexemes).bind (exists_mem_single _) fun tree rest _ ↦
      predicts_closing closing tree rest)
    (exists_mem_mul Category.expression.exists_mem_language (exists_mem_single _))

/-- What stands in an enclosure is an expression between two lexemes. -/
theorem exists_of_mem_enclosure {opening closing : Token} {text : List Lexeme}
    (h : text ∈ enclosure opening closing) : ∃ first inner last tree,
      Derives .expression inner tree ∧ text = ⟨opening, first⟩ :: (inner ++ [⟨closing, last⟩]) := by
  obtain ⟨_, ⟨⟨_, first⟩, hopening, rfl⟩, _, ⟨inner, ⟨tree, htree⟩, _, ⟨⟨_, last⟩, hclosing, rfl⟩,
    rfl⟩, rfl⟩ := h
  obtain rfl := of_decide_eq_true hopening
  obtain rfl := of_decide_eq_true hclosing
  exact ⟨first, inner, last, tree, htree, rfl⟩

def denominators : Language Lexeme :=
  Token.single (· = .comma) * (Category.expression.language * Token.single (· = .rightParen)) +
    Token.single (· = .rightParen) * enclosure .leftParen .rightParen

/-- A denominator follows a comma, or has parentheses of its own. -/
theorem exists_of_mem_denominators {text : List Lexeme} (h : text ∈ denominators) :
    ∃ inner last tree, Derives .expression inner tree ∧
      ((∃ comma, text = ⟨.comma, comma⟩ :: (inner ++ [⟨.rightParen, last⟩])) ∨
        ∃ closing opening, text = ⟨.rightParen, closing⟩ :: ⟨.leftParen, opening⟩ ::
          (inner ++ [⟨.rightParen, last⟩])) := by
  rcases h with ⟨_, ⟨⟨_, comma⟩, hcomma, rfl⟩, _, ⟨inner, ⟨tree, htree⟩, _, ⟨⟨_, last⟩, hclosing,
    rfl⟩, rfl⟩, rfl⟩ | ⟨_, ⟨⟨_, closing⟩, hclosing, rfl⟩, _, henclosed, rfl⟩
  · obtain rfl := of_decide_eq_true hcomma
    obtain rfl := of_decide_eq_true hclosing
    exact ⟨inner, last, tree, htree, .inl ⟨comma, rfl⟩⟩
  · obtain rfl := of_decide_eq_true hclosing
    obtain ⟨opening, inner, last, tree, htree, rfl⟩ := exists_of_mem_enclosure henclosed
    exact ⟨inner, last, tree, htree, .inr ⟨closing, opening, rfl⟩⟩

theorem exists_mem_denominators : ∃ text, text ∈ denominators := by
  obtain ⟨text, htext⟩ :=
    exists_mem_mul (exists_mem_single .rightParen) (exists_mem_enclosure .leftParen .rightParen)
  exact ⟨text, .inr htext⟩

theorem predicts_denominator (h : Predicts Category.expression.language expression.read) :
    Predicts denominators (denominator expression).read := by
  intro lexemes
  match lexemes with
  | [] => exact .ended exists_mem_denominators
  | ⟨token, position⟩ :: rest =>
    cases token with
    | comma =>
      have hcomma : [⟨.comma, position⟩] ∈ Token.single (· = .comma) := by simp
      have htail := (h rest).bind (exists_mem_single .rightParen) fun tree rest _ ↦
        predicts_closing .rightParen tree rest
      exact htail.cons (fun _ hmore ↦ .inl (Language.append_mem_mul hcomma hmore)) fun _ ↦ rfl
    | rightParen =>
      have hclosing : [⟨.rightParen, position⟩] ∈ Token.single (· = .rightParen) := by simp
      have htail := predicts_enclosed .leftParen .rightParen h rest
      exact htail.cons (fun _ hmore ↦ .inr (Language.append_mem_mul hclosing hmore)) fun _ ↦ rfl
    | _ => exact .refuse exists_mem_denominators rfl fun _ ↦ rfl

variable (limit : Nat)

theorem predicts_afterIdentifier (h : Predicts Category.expression.language expression.read)
    (name : String) (position : Nat) :
    Predicts (1 + enclosure .leftParen .rightParen)
      (afterIdentifier limit expression name position) := by
  intro lexemes
  match lexemes with
  | [] => exact Judged.stop_nil.mono fun _ ↦ .inl
  | ⟨token, opening⟩ :: rest =>
    cases token with
    | leftParen =>
      have hcall := (predicts_enclosed .leftParen .rightParen h (⟨.leftParen, opening⟩ :: rest)
        ).wrapped limit position (.call name · position)
      exact (hcall.of_cons fun _ ↦ rfl).mono fun _ ↦ .inr
    | _ => exact (Judged.stop_cons fun _ ↦ rfl).mono fun _ ↦ .inl

theorem predicts_afterFrac (h : Predicts Category.expression.language expression.read)
    (position : Nat) :
    Predicts (Token.single (· = .leftParen) * (Category.expression.language * denominators))
      (afterFrac limit expression position) :=
  predicts_expect .leftParen
    (fun lexemes ↦ (h lexemes).bind exists_mem_denominators fun numerator rest _ ↦
      (predicts_denominator h rest).wrapped limit position (.fraction numerator · position))
    (exists_mem_mul Category.expression.exists_mem_language exists_mem_denominators)

theorem predicts_afterRoot (h : Predicts Category.expression.language expression.read)
    (position : Nat) :
    Predicts
      (enclosure .leftBracket .rightBracket * enclosure .leftParen .rightParen +
        enclosure .leftParen .rightParen)
      (afterRoot limit expression position) := by
  intro lexemes
  have hradicand := fun lexemes ↦
    (predicts_enclosed .leftParen .rightParen h lexemes).wrapped limit position
      (.squareRoot · position)
  match lexemes with
  | [] =>
    refine ((hradicand []).of_head fun more hhead ↦ ?_).mono fun _ ↦ .inr
    rw [List.head?_eq_none_iff.1 hhead]
    rfl
  | ⟨token, opening⟩ :: rest =>
    cases token with
    | leftBracket =>
      have hroot := (predicts_enclosed .leftBracket .rightBracket h
        (⟨.leftBracket, opening⟩ :: rest)).bind (exists_mem_enclosure .leftParen .rightParen)
        fun index rest _ ↦
          (predicts_enclosed .leftParen .rightParen h rest).wrapped limit position
            (.root index · position)
      exact (hroot.of_cons fun _ ↦ rfl).mono fun _ ↦ .inl
    | _ => exact ((hradicand _).of_cons fun _ ↦ rfl).mono fun _ ↦ .inr

/-- The first token of a primary expression decides what is expected behind it. -/
theorem predicts_primary (h : Predicts Category.expression.language expression.read) :
    Predicts Category.primary.language (primary limit expression).read := by
  intro lexemes
  match lexemes with
  | [] => exact .ended Category.primary.exists_mem_language
  | ⟨token, position⟩ :: rest =>
    cases token with
    | number text =>
      have hnumber : Judged 1 (fun rest ↦ .ok (.number text position, rest)) rest
          (.ok (.number text position, rest)) := .stop fun _ _ ↦ rfl
      refine hnumber.cons ?_ fun _ ↦ rfl
      rintro _ rfl
      exact ⟨_, .number⟩
    | identifier name =>
      refine (predicts_afterIdentifier limit h name position rest).cons ?_ fun _ ↦ rfl
      rintro _ (rfl | henclosed)
      · exact ⟨_, .identifier⟩
      · obtain ⟨opening, argument, closing, tree, htree, rfl⟩ := exists_of_mem_enclosure henclosed
        exact ⟨_, .call htree⟩
    | leftParen =>
      have hgroup := (predicts_enclosed .leftParen .rightParen h (⟨.leftParen, position⟩ :: rest)
        ).wrapped limit position .group
      refine (hgroup.of_cons fun _ ↦ rfl).mono ?_
      intro text henclosed
      obtain ⟨opening, inner, closing, tree, htree, rfl⟩ := exists_of_mem_enclosure henclosed
      exact ⟨_, .group htree⟩
    | frac =>
      refine (predicts_afterFrac limit h position rest).cons ?_ fun _ ↦ rfl
      rintro _
        ⟨_, ⟨⟨_, opening⟩, hopening, rfl⟩, _, ⟨numerator, ⟨n, hn⟩, _, hdenominator, rfl⟩, rfl⟩
      obtain rfl := of_decide_eq_true hopening
      obtain ⟨denominator, closing, d, hd, ⟨comma, rfl⟩ | ⟨middle, opening', rfl⟩⟩ :=
        exists_of_mem_denominators hdenominator
      · exact ⟨_, .fraction hn hd⟩
      · exact ⟨_, .curriedFraction hn hd⟩
    | root =>
      refine (predicts_afterRoot limit h position rest).cons ?_ fun _ ↦ rfl
      rintro _ (⟨_, hindex, _, hradicand, rfl⟩ | hradicand)
      · obtain ⟨opening, index, closing, i, hi, rfl⟩ := exists_of_mem_enclosure hindex
        obtain ⟨opening', radicand, closing', r, hr, rfl⟩ := exists_of_mem_enclosure hradicand
        exact ⟨.root i r position, by simpa using Derives.root hi hr⟩
      · obtain ⟨opening, radicand, closing, r, hr, rfl⟩ := exists_of_mem_enclosure hradicand
        exact ⟨_, .squareRoot hr⟩
    | _ => exact .refuse Category.primary.exists_mem_language rfl fun _ ↦ rfl

theorem mem_kstar_of_mem_mul {language : Language Lexeme} {text : List Lexeme}
    (h : text ∈ language * language∗) : text ∈ language∗ := by
  have hle : language * language∗ ≤ language∗ := mul_kstar_le_kstar
  exact hle h

theorem predicts_factorials (operand : ParseTree) :
    Predicts (Token.single (· = .bang))∗ (factorials limit operand) := by
  intro lexemes
  induction lexemes generalizing operand with
  | nil => exact Judged.stop_nil.mono one_le_kstar
  | cons next rest ih =>
    obtain ⟨token, position⟩ := next
    cases token with
    | bang =>
      have hbang : [⟨.bang, position⟩] ∈ Token.single (· = .bang) := by simp
      have hnext := (ih (.factorial operand position)).bounded limit position
      exact hnext.cons (fun _ hmore ↦ mem_kstar_of_mem_mul (Language.append_mem_mul hbang hmore))
        fun _ ↦ rfl
    | _ => exact (Judged.stop_cons fun _ ↦ rfl).mono one_le_kstar

theorem predicts_factorial {primary : Rule}
    (h : Predicts Category.primary.language primary.read) :
    Predicts Category.factorial.language (factorial limit primary).read := by
  intro lexemes
  have hread := (h lexemes).bind ⟨[], Language.nil_mem_kstar _⟩ fun operand rest _ ↦
    predicts_factorials limit operand rest
  refine hread.mono (mul_kstar_le ?_ ?_)
  · rintro text ⟨tree, htree⟩
    exact ⟨tree, .ofPrimary htree⟩
  · rintro _ ⟨before, ⟨tree, htree⟩, _, ⟨⟨_, position⟩, hbang, rfl⟩, rfl⟩
    obtain rfl := of_decide_eq_true hbang
    exact ⟨_, .factorial htree⟩

/-- After an operand either an operator of the chain follows or the chain ends. -/
theorem predicts_extend (binds : Token → Bool) {language : Language Lexeme} {operand : Rule}
    (h : Predicts language operand.read) (left : ParseTree) :
    Predicts (Token.single binds * language)∗ (extend limit binds operand left) := by
  intro lexemes
  induction hlength : lexemes.length using Nat.strong_induction_on generalizing left lexemes with
  | _ length ih =>
    cases lexemes with
    | nil =>
      rw [extend]
      exact Judged.stop_nil.mono one_le_kstar
    | cons operator rest =>
      cases hbinds : binds operator.token with
      | false =>
        have hread (other : List Lexeme) : extend limit binds operand left (operator :: other) =
            .ok (left, operator :: other) := by
          rw [extend_cons, if_neg (by simp [hbinds])]
        rw [hread]
        exact (Judged.stop_cons hread).mono one_le_kstar
      | true =>
        have hread (other : List Lexeme) := extend_cons limit binds operand left operator other
        simp only [hbinds, if_true] at hread
        rw [hread]
        have hoperator : [operator] ∈ Token.single binds := by simp [hbinds]
        have hnext := (h rest).bind ⟨[], Language.nil_mem_kstar (Token.single binds * language)⟩
          fun right after hright ↦ by
            have hshorter := operand.length_lt hright
            have hafter := ih after.length (by simp at hlength; omega)
              (.binary left operator.token right operator.position) after rfl
            exact hafter.bounded limit operator.position
        refine hnext.cons (fun more hmore ↦ mem_kstar_of_mem_mul ?_) hread
        rw [mul_assoc]
        exact Language.append_mem_mul hoperator hmore

/-- A chain is an operand and any number of operators with one more each. -/
theorem predicts_chain {repeated category : Category} {binds : Token → Bool} {operand : Rule}
    (hone : ∀ {lexemes : List Lexeme} {tree : ParseTree},
      Derives repeated lexemes tree → Derives category lexemes tree)
    (hjoin : ∀ {left right : List Lexeme} {l r : ParseTree} {operator : Token} {position : Nat},
      Derives category left l → binds operator → Derives repeated right r →
        Derives category (left ++ ⟨operator, position⟩ :: right) (.binary l operator r position))
    (h : Predicts repeated.language operand.read) :
    Predicts category.language (operand.chain limit binds).read := by
  intro lexemes
  have hread := (h lexemes).bind ⟨[], Language.nil_mem_kstar _⟩ fun left rest _ ↦
    predicts_extend limit binds h left rest
  refine hread.mono (mul_kstar_le ?_ ?_)
  · rintro text ⟨tree, htree⟩
    exact ⟨tree, hone htree⟩
  · rintro _ ⟨left, ⟨l, hl⟩, _, ⟨_, ⟨operator, hoperator, rfl⟩, right, ⟨r, hr⟩, rfl⟩, rfl⟩
    exact ⟨_, hjoin hl hoperator hr⟩

theorem predicts_expression {unary : Rule} (h : Predicts Category.unary.language unary.read) :
    Predicts Category.expression.language (Rule.expression limit unary).read :=
  predicts_chain limit .ofProduct .sum (predicts_chain limit .ofUnary .product h)

theorem predicts_afterBase {exponent : Rule}
    (h : Predicts Category.unary.language exponent.read) (base : ParseTree) :
    Predicts (1 + Token.single (· = .caret) * Category.unary.language)
      (afterBase limit exponent base) := by
  intro lexemes
  match lexemes with
  | [] => exact Judged.stop_nil.mono fun _ ↦ .inl
  | ⟨token, position⟩ :: rest =>
    cases token with
    | caret =>
      have hcaret : [⟨.caret, position⟩] ∈ Token.single (· = .caret) := by simp
      have hexponent := (h rest).wrapped limit position (.binary base .caret · position)
      exact hexponent.cons (fun _ hmore ↦ .inr (Language.append_mem_mul hcaret hmore)) fun _ ↦ rfl
    | _ => exact (Judged.stop_cons fun _ ↦ rfl).mono fun _ ↦ .inl

theorem predicts_power {base exponent : Rule}
    (hbase : Predicts Category.factorial.language base.read)
    (hexponent : Predicts Category.unary.language exponent.read) :
    Predicts Category.power.language (power limit base exponent).read := by
  intro lexemes
  have hread := (hbase lexemes).bind ⟨[], .inl Language.nil_mem_one⟩ fun tree rest _ ↦
    predicts_afterBase limit hexponent tree rest
  refine hread.mono ?_
  rintro _
    ⟨before, ⟨b, hb⟩, _, rfl | ⟨_, ⟨⟨_, position⟩, hcaret, rfl⟩, exponent, ⟨e, he⟩, rfl⟩, rfl⟩
  · exact ⟨b, by simpa using Derives.ofFactorial hb⟩
  · obtain rfl := of_decide_eq_true hcaret
    exact ⟨_, .power hb he⟩

theorem predicts_negation {operand power : Rule}
    (hoperand : Predicts Category.unary.language operand.read)
    (hpower : Predicts Category.power.language power.read) :
    Predicts Category.unary.language (negation limit operand power).read := by
  intro lexemes
  have hle : Category.power.language ≤ Category.unary.language := by
    rintro text ⟨tree, htree⟩
    exact ⟨tree, .ofPower htree⟩
  match lexemes with
  | [] =>
    refine ((hpower []).of_head fun more hhead ↦ ?_).mono hle
    rw [List.head?_eq_none_iff.1 hhead]
    rfl
  | ⟨token, position⟩ :: rest =>
    have hread := (hpower (⟨token, position⟩ :: rest)).mono hle
    cases token with
    | minus =>
      refine ((hoperand rest).wrapped limit position (.negation · position)).cons ?_ fun _ ↦ rfl
      rintro more ⟨tree, htree⟩
      exact ⟨_, .negation htree⟩
    | _ => exact hread.of_cons fun _ ↦ rfl

/-- No level of nesting changes what is expected. -/
theorem predicts_unary (room : Nat) :
    Predicts Category.unary.language (unary limit room).read := by
  induction room with
  | zero => exact predicts_tooDeep _
  | succ room ih =>
    have hprimary := predicts_primary limit (predicts_expression limit ih)
    exact predicts_negation limit ih (predicts_power limit (predicts_factorial limit hprimary) ih)

end Rule

end Formula
