import Formula.Proofs.Metering

/-!
# How deep the parser nests

However hostile its lexemes, the parser has only so many calls open at a time, and the number
depends on the greatest height alone. The metered parser shows it: with that much fuel it comes to
what the parser comes to, whatever the lexemes are. Each rule is compared with the procedure that
reads it, and only the levels are gone through by induction.
-/

namespace Formula

variable {α β : Type} {limit : Nat}

/-- What a note must not exceed: no tree that is looked at is more than one level above the limit,
no tree that is returned is above it, and neither is the depth at which a sign or a primary is
read. -/
def Note.Within (limit : Nat) : Note → Prop
  | called call =>
    (call.procedure = .unary ∨ call.procedure = .primary →
      call.left.length < call.found.length → call.depth ≤ limit) ∧
    ∀ tree, call.result = .ok tree → tree.height ≤ limit
  | measured tree => tree.height ≤ limit + 1

/-- The trail of a metered reading that comes to the same as a plain one, and whose notes are within
the limit. -/
inductive Trail.Follows (limit : Nat) (good : α → Prop) :
    Trail α → Except ParseError (α × List Lexeme) → Prop where
  | done {value : α} {rest : List Lexeme} {notes : List Note} (hgood : good value)
      (hnotes : ∀ note ∈ notes, note.Within limit) :
      Follows limit good ⟨.ok value, rest, notes⟩ (.ok (value, rest))
  | failed {error : ParseError} {rest : List Lexeme} {notes : List Note}
      (hnotes : ∀ note ∈ notes, note.Within limit) :
      Follows limit good ⟨.error (.failed error), rest, notes⟩ (.error error)

/-- A trail that follows a reading has its result, and never runs out of calls. -/
theorem Trail.Follows.result_eq {good : α → Prop} {trail : Trail α}
    {reading : Except ParseError (α × List Lexeme)} (h : trail.Follows limit good reading) :
    trail.result = (reading.map Prod.fst).mapError .failed := by
  cases h <;> rfl

theorem Trail.Follows.good_of_ok {good : α → Prop} {trail : Trail α} {value : α}
    {reading : Except ParseError (α × List Lexeme)} (h : trail.Follows limit good reading)
    (hvalue : trail.result = .ok value) : good value := by
  cases h with
  | done hgood _ =>
    cases hvalue
    exact hgood
  | failed _ => cases hvalue

/-- Everything a trail notes stays within the limit. -/
theorem Trail.Follows.within {good : α → Prop} {trail : Trail α}
    {reading : Except ParseError (α × List Lexeme)} (h : trail.Follows limit good reading) :
    ∀ note ∈ trail.notes, note.Within limit := by
  cases h with
  | done _ hnotes => exact hnotes
  | failed hnotes => exact hnotes

/-- Trails that follow two readings follow them one after the other. -/
theorem Trail.Follows.andThen {good : α → Prop} {fine : β → Prop} {first : Trail α}
    {reading : Except ParseError (α × List Lexeme)} {next : α → Trail β}
    {readNext : α → List Lexeme → Except ParseError (β × List Lexeme)}
    (hfirst : first.Follows limit good reading)
    (hnext : ∀ value, good value → (next value).Follows limit fine (readNext value first.rest)) :
    (first.andThen next).Follows limit fine (do
      let (value, rest) ← reading
      readNext value rest) := by
  cases hfirst with
  | failed hnotes => exact .failed hnotes
  | @done value rest notes hgood hnotes =>
    have hsecond := hnext value hgood
    simp only [Trail.andThen]
    change Follows limit fine _ (readNext value rest)
    generalize next value = second, readNext value rest = reading at hsecond ⊢
    cases hsecond with
    | done hfine hmore => exact .done hfine (List.forall_mem_append.2 ⟨hnotes, hmore⟩)
    | failed hmore => exact .failed (List.forall_mem_append.2 ⟨hnotes, hmore⟩)

namespace Metered

/-- The metered reading does what the plain one does, on all lexemes and within the limit. -/
def Meters (limit : Nat) (good : α → Prop) (metered : Metered α)
    (read : List Lexeme → Except ParseError (α × List Lexeme)) : Prop :=
  ∀ lexemes, (metered.run lexemes).Follows limit good (read lexemes)

/-- What reads a tree does so within the limit, and the tree is not above it. -/
abbrev Reads (limit : Nat) (metered : Metered ParseTree) (read : List Lexeme → Reading) : Prop :=
  metered.Meters limit (fun tree ↦ tree.height ≤ limit) read

theorem reads_pure (tree : ParseTree) (h : tree.height ≤ limit) :
    (pure tree : Metered ParseTree).Reads limit fun lexemes ↦ .ok (tree, lexemes) :=
  fun _ ↦ .done h (List.forall_mem_nil _)

theorem reads_halt (error : ParseError) :
    (halt (.failed error) : Metered ParseTree).Reads limit fun _ ↦ .error error :=
  fun _ ↦ .failed (List.forall_mem_nil _)

theorem Meters.bind {good : α → Prop} {fine : β → Prop} {first : Metered α} {next : α → Metered β}
    {read : List Lexeme → Except ParseError (α × List Lexeme)}
    {readNext : α → List Lexeme → Except ParseError (β × List Lexeme)}
    (hfirst : first.Meters limit good read)
    (hnext : ∀ value, good value → (next value).Meters limit fine (readNext value)) :
    (first >>= next).Meters limit fine (fun lexemes ↦ do
      let (value, rest) ← read lexemes
      readNext value rest) :=
  fun lexemes ↦ (hfirst lexemes).andThen fun value hgood ↦ hnext value hgood _

theorem meters_demand_bind {fine : β → Prop} (wanted : Token) {next : Metered β}
    {readNext : List Lexeme → Except ParseError (β × List Lexeme)}
    (hnext : next.Meters limit fine readNext) :
    (demand wanted >>= fun _ ↦ next).Meters limit fine
      (fun lexemes ↦ do readNext (← expect wanted lexemes)) := by
  intro lexemes
  match lexemes with
  | [] => exact .failed (List.forall_mem_nil _)
  | found :: rest =>
    by_cases hfound : found.token = wanted
    · have hdemand : (demand wanted).run (found :: rest) = ⟨.ok (), rest, []⟩ := by
        rw [demand, run_take_bind_cons, if_pos hfound]
        rfl
      have hexpect : expect wanted (found :: rest) = .ok rest := if_pos hfound
      rw [run_bind, hdemand]
      simp only [hexpect]
      exact hnext rest
    · have hdemand : (demand wanted).run (found :: rest) =
          ⟨.error (.failed (.expected wanted found)), rest, []⟩ := by
        rw [demand, run_take_bind_cons, if_neg hfound]
        rfl
      have hexpect : expect wanted (found :: rest) = .error (.expected wanted found) :=
        if_neg hfound
      rw [run_bind, hdemand]
      simp only [hexpect]
      exact .failed (List.forall_mem_nil _)

theorem run_checkDepth_bind {depth : Nat} (h : depth ≤ limit) (next : Metered β)
    (lexemes : List Lexeme) :
    (checkDepth limit depth >>= fun _ ↦ next).run lexemes = next.run lexemes := by
  have hcheck : (checkDepth limit depth).run lexemes = ⟨.ok (), lexemes, []⟩ := by
    rw [checkDepth, run_peek_bind, if_neg (Nat.not_lt.2 h)]
    rfl
  rw [run_bind, hcheck]
  rfl

/-- The trail where the depth is above the limit; not even the lexeme that is reported is read. -/
def tooDeep (lexemes : List Lexeme) : Trail α :=
  ⟨.error (.failed (.tooDeep ((lexemes.head?.map Lexeme.position).getD 0))), lexemes, []⟩

/-- Beyond the limit a check of the depth refuses before anything is read. -/
theorem run_checkDepth_bind_of_lt {depth : Nat} (h : limit < depth) (next : Metered β)
    (lexemes : List Lexeme) :
    (checkDepth limit depth >>= fun _ ↦ next).run lexemes = tooDeep lexemes := by
  have hcheck : (checkDepth limit depth).run lexemes = tooDeep lexemes := by
    rw [checkDepth, run_peek_bind, if_pos h]
    rfl
  rw [run_bind, hcheck]
  rfl

/-- A tree one level too high may be built, and is then refused as the rule refuses it. -/
theorem reads_bounded (tree : ParseTree) (h : tree.height ≤ limit + 1) (position : Nat) :
    (bounded limit position tree).Reads limit fun rest ↦ do
      return (← tree.bounded limit position, rest) := by
  intro rest
  have hnotes : ∀ note ∈ [Note.measured tree], note.Within limit := by simpa [Note.Within] using h
  by_cases hheight : limit < tree.height
  · have hbounded : tree.bounded limit position = .error (.tooDeep position) := if_pos hheight
    simp only [bounded, hbounded]
    exact .failed hnotes
  · have hbounded : tree.bounded limit position = .ok tree := if_neg hheight
    simp only [bounded, hbounded]
    exact .done (Nat.le_of_not_lt hheight) hnotes

theorem reads_denominator {expression parenthesized : Metered ParseTree} {rule : Rule}
    (hexpression : expression.Reads limit rule.read)
    (hparenthesized : parenthesized.Reads limit rule.parenthesized.read) :
    (denominator expression parenthesized).Reads limit rule.denominator.read := by
  intro lexemes
  match lexemes with
  | [] => exact .failed (List.forall_mem_nil _)
  | ⟨token, position⟩ :: rest =>
    rw [denominator, run_take_bind_cons]
    cases token with
    | comma =>
      have hcomma := hexpression.bind fun _ htree ↦
        meters_demand_bind .rightParen (reads_pure _ htree)
      exact hcomma rest
    | rightParen => exact hparenthesized rest
    | _ => exact reads_halt _ rest

theorem reads_finish (tree : ParseTree) (h : tree.height ≤ limit) :
    (finish tree).Reads limit fun
      | [] => .ok (tree, [])
      | found :: _ => .error (.trailing found) := by
  intro lexemes
  match lexemes with
  | [] => exact reads_pure tree h []
  | found :: rest => exact reads_halt _ (found :: rest)

/-- Gathering does what any reading does that takes the same steps. -/
theorem meters_gather {good : α → Prop} {binds : Token → Bool} {step : α → Lexeme → Metered α}
    {readStep : α → Lexeme → List Lexeme → Except ParseError (α × List Lexeme)}
    {readAll : α → List Lexeme → Except ParseError (α × List Lexeme)}
    (hstep : ∀ value next, good value → (step value next).Meters limit good (readStep value next))
    (hnil : ∀ value, readAll value [] = .ok (value, []))
    (hcons : ∀ value next rest, readAll value (next :: rest) =
      if binds next.token then do
        let (result, after) ← readStep value next rest
        readAll result after
      else .ok (value, next :: rest))
    {value : α} (hvalue : good value) :
    (gather binds step value).Meters limit good (readAll value) := by
  intro lexemes
  change (gatherFrom binds step value lexemes).Follows limit good (readAll value lexemes)
  fun_induction gatherFrom binds step value lexemes with
  | case1 value =>
    rw [hnil]
    exact .done hvalue (List.forall_mem_nil _)
  | case2 value next rest hbinds turn ih =>
    rw [hcons, if_pos hbinds]
    exact (hstep value next hvalue rest).andThen ih
  | case3 value next rest hbinds =>
    rw [hcons, if_neg hbinds]
    exact .done hvalue (List.forall_mem_nil _)

/-- The loop over operators of one precedence reads as the rule does. -/
theorem reads_chain {operand : Metered ParseTree} {rule : Rule} (binds : Token → Bool)
    (hoperand : operand.Reads limit rule.read) :
    Reads limit (do
      let left ← operand
      gather binds (fun left operator ↦ do
        let right ← operand
        bounded limit operator.position
          (.binary left operator.token right operator.position)) left)
      (rule.chain limit binds).read := by
  apply hoperand.bind
  intro left hleft
  apply meters_gather (fun left operator hleft ↦ hoperand.bind fun right hright ↦
    reads_bounded (.binary left operator.token right operator.position)
      (Nat.succ_le_succ (Nat.max_le.2 ⟨hleft, hright⟩)) operator.position)
  · intro left
    rw [Rule.extend]
  · intro left operator rest
    rw [Rule.extend_cons]
    simp only [bind_assoc, pure_bind]
  · exact hleft

theorem reads_factorials {operand : ParseTree} (h : operand.height ≤ limit) :
    (gather (fun token ↦ token = .bang) (fun operand bang ↦
      bounded limit bang.position (.factorial operand bang.position)) operand).Reads limit
      (Rule.factorials limit operand) := by
  apply meters_gather (fun operand bang hoperand ↦
    reads_bounded (.factorial operand bang.position) (Nat.succ_le_succ hoperand)
      bang.position)
  · intro operand
    rfl
  · intro operand next rest
    obtain ⟨token, position⟩ := next
    cases token with
    | bang => simp only [bind_assoc, pure_bind]; rfl
    | _ => rfl
  · exact h

/-- Noting a call changes no reading if its depth is within the limit wherever the call takes a
lexeme. -/
theorem Reads.noted {procedure : Procedure} {depth : Nat} {body : Metered ParseTree}
    {read : List Lexeme → Reading} (hbody : body.Reads limit read)
    (hdepth : procedure = .unary ∨ procedure = .primary → ∀ lexemes,
      (body.run lexemes).rest.length < lexemes.length → depth ≤ limit) :
    (body.noted procedure depth).Reads limit read := by
  intro lexemes
  have hfollows := hbody lexemes
  have hlexemes := fun hguarded ↦ hdepth hguarded lexemes
  change Trail.Follows limit _ ⟨_, _, _⟩ _
  generalize body.run lexemes = trail, read lexemes = reading at hfollows hlexemes ⊢
  cases hfollows with
  | done htree hnotes =>
    refine .done htree (List.forall_mem_append.2
      ⟨hnotes, List.forall_mem_singleton.2 ⟨hlexemes, ?_⟩⟩)
    rintro _ ⟨⟩
    exact htree
  | failed hnotes =>
    refine .failed (List.forall_mem_append.2
      ⟨hnotes, List.forall_mem_singleton.2 ⟨hlexemes, ?_⟩⟩)
    rintro _ ⟨⟩

end Metered

namespace Procedure

open Metered

/-- With fuel for so many calls inside each other, or more, the procedure reads at this depth what
`read` reads. -/
def ReadsWithin (limit calls : Nat) (procedure : Procedure) (depth : Nat)
    (read : List Lexeme → Reading) : Prop :=
  ∀ fuel, calls ≤ fuel → (run limit fuel procedure depth).Reads limit read

theorem ReadsWithin.mono {calls more : Nat} {procedure : Procedure} {depth : Nat}
    {read : List Lexeme → Reading} (h : ReadsWithin limit calls procedure depth read)
    (hmore : calls ≤ more) : ReadsWithin limit more procedure depth read :=
  fun fuel hfuel ↦ h fuel (Nat.le_trans hmore hfuel)

/-- A call is one more than the calls in its body. -/
theorem readsWithin_succ {calls : Nat} {procedure : Procedure} {depth : Nat}
    {read : List Lexeme → Reading}
    (hdepth : procedure = .unary ∨ procedure = .primary → depth ≤ limit)
    (hbody : ∀ fuel, calls ≤ fuel →
      (procedure.body limit (run limit fuel) depth).Reads limit read) :
    ReadsWithin limit (calls + 1) procedure depth read
  | 0, hfuel => absurd hfuel (Nat.not_succ_le_zero calls)
  | fuel + 1, hfuel =>
    (hbody fuel (Nat.le_of_succ_le_succ hfuel)).noted fun hguarded _ _ ↦ hdepth hguarded

/-- A procedure that looks at the depth first calls no other one where it is above the limit. -/
theorem readsWithin_tooDeep {procedure : Procedure} {depth : Nat} (h : limit < depth)
    (hcheck : ∀ call, ∃ next,
      procedure.body limit call depth = checkDepth limit depth >>= fun _ ↦ next) :
    ReadsWithin limit 1 procedure depth Rule.tooDeep.read
  | 0, hfuel => absurd hfuel (Nat.not_succ_le_zero 0)
  | fuel + 1, _ => by
    have hrun (lexemes : List Lexeme) :
        (procedure.body limit (run limit fuel) depth).run lexemes = tooDeep lexemes := by
      obtain ⟨next, hnext⟩ := hcheck (run limit fuel)
      rw [hnext, run_checkDepth_bind_of_lt h]
    apply Reads.noted
    · intro lexemes
      rw [hrun]
      exact .failed (List.forall_mem_nil _)
    · intro _ lexemes hlt
      rw [hrun] at hlt
      exact absurd hlt (Nat.lt_irrefl _)

variable {calls depth : Nat}

theorem readsWithin_expression {sum : Rule} (h : depth ≤ limit)
    (hsum : ReadsWithin limit calls .sum depth sum.read) :
    ReadsWithin limit (calls + 1) .expression depth sum.read := by
  refine readsWithin_succ (by simp) fun fuel hfuel lexemes ↦ ?_
  rw [body, run_checkDepth_bind h]
  exact hsum fuel hfuel lexemes

theorem readsWithin_sum {product : Rule}
    (hproduct : ReadsWithin limit calls .product depth product.read) :
    ReadsWithin limit (calls + 1) .sum depth (product.chain limit Token.isAdditive).read :=
  readsWithin_succ (by simp) fun fuel hfuel ↦ reads_chain Token.isAdditive (hproduct fuel hfuel)

theorem readsWithin_product {unary : Rule}
    (hunary : ReadsWithin limit calls .unary depth unary.read) :
    ReadsWithin limit (calls + 1) .product depth
      (unary.chain limit Token.isMultiplicative).read :=
  readsWithin_succ (by simp) fun fuel hfuel ↦
    reads_chain Token.isMultiplicative (hunary fuel hfuel)

/-- A minus sign is read one level deeper, and a power at the same level. -/
theorem readsWithin_unary {deeper power : Rule} (h : depth ≤ limit)
    (hdeeper : ReadsWithin limit calls .unary (depth + 1) deeper.read)
    (hpower : ReadsWithin limit calls .power depth power.read) :
    ReadsWithin limit (calls + 1) .unary depth (Rule.negation limit deeper power).read := by
  refine readsWithin_succ (fun _ ↦ h) fun fuel hfuel lexemes ↦ ?_
  rw [body, run_checkDepth_bind h, run_peek_bind]
  match lexemes with
  | [] => exact hpower fuel hfuel []
  | ⟨token, position⟩ :: rest =>
    cases token with
    | minus =>
      have hnegation := (hdeeper fuel hfuel).bind fun inner hinner ↦
        reads_bounded (.negation inner position) (Nat.succ_le_succ hinner) position
      exact hnegation rest
    | _ => exact hpower fuel hfuel _

/-- The exponent is read one level deeper than the base. -/
theorem readsWithin_power {base exponent : Rule}
    (hfactorial : ReadsWithin limit calls .factorial depth base.read)
    (hunary : ReadsWithin limit calls .unary (depth + 1) exponent.read) :
    ReadsWithin limit (calls + 1) .power depth (Rule.power limit base exponent).read := by
  refine readsWithin_succ (by simp) fun fuel hfuel ↦ (hfactorial fuel hfuel).bind ?_
  intro base hbase lexemes
  rw [run_peek_bind]
  match lexemes with
  | [] => exact reads_pure base hbase []
  | ⟨token, position⟩ :: rest =>
    cases token with
    | caret =>
      have hexponent := (hunary fuel hfuel).bind fun right hright ↦
        reads_bounded (.binary base .caret right position)
          (Nat.succ_le_succ (Nat.max_le.2 ⟨hbase, hright⟩)) position
      exact hexponent rest
    | _ => exact reads_pure base hbase _

theorem readsWithin_factorial {primary : Rule}
    (hprimary : ReadsWithin limit calls .primary depth primary.read) :
    ReadsWithin limit (calls + 1) .factorial depth (Rule.factorial limit primary).read :=
  readsWithin_succ (by simp) fun fuel hfuel ↦
    (hprimary fuel hfuel).bind fun _ ↦ reads_factorials

theorem readsWithin_parenthesized {expression : Rule}
    (hexpression : ReadsWithin limit calls .expression depth expression.read) :
    ReadsWithin limit (calls + 1) .parenthesized depth expression.parenthesized.read :=
  readsWithin_succ (by simp) fun fuel hfuel ↦
    meters_demand_bind .leftParen ((hexpression fuel hfuel).bind fun _ hinner ↦
      meters_demand_bind .rightParen (reads_pure _ hinner))

theorem readsWithin_afterIdentifier {expression : Rule} (hlimit : 0 < limit) (name : String)
    (position : Nat)
    (hparenthesized :
      ReadsWithin limit calls .parenthesized depth expression.parenthesized.read) :
    ReadsWithin limit (calls + 1) (.afterIdentifier name position) depth
      (Rule.afterIdentifier limit expression name position) := by
  refine readsWithin_succ (by simp) fun fuel hfuel lexemes ↦ ?_
  have hname := reads_pure (.identifier name position) hlimit
  rw [body, run_peek_bind]
  match lexemes with
  | [] => exact hname []
  | ⟨token, opening⟩ :: rest =>
    cases token with
    | leftParen =>
      have hcall := (hparenthesized fuel hfuel).bind fun argument hargument ↦
        reads_bounded (.call name argument position) (Nat.succ_le_succ hargument) position
      exact hcall _
    | _ => exact hname _

theorem readsWithin_fraction {expression : Rule} (position : Nat)
    (hexpression : ReadsWithin limit calls .expression depth expression.read)
    (hparenthesized :
      ReadsWithin limit calls .parenthesized depth expression.parenthesized.read) :
    ReadsWithin limit (calls + 1) (.fraction position) depth
      (Rule.afterFrac limit expression position) :=
  readsWithin_succ (by simp) fun fuel hfuel ↦
    meters_demand_bind .leftParen ((hexpression fuel hfuel).bind fun numerator hnumerator ↦
      (reads_denominator (hexpression fuel hfuel) (hparenthesized fuel hfuel)).bind
        fun denominator hdenominator ↦
          reads_bounded (.fraction numerator denominator position)
            (Nat.succ_le_succ (Nat.max_le.2 ⟨hnumerator, hdenominator⟩)) position)

theorem readsWithin_group {expression : Rule} (position : Nat)
    (hexpression : ReadsWithin limit calls .expression depth expression.read) :
    ReadsWithin limit (calls + 1) (.group position) depth fun rest ↦ do
      let (inner, rest) ← expression.parenthesized.read (⟨.leftParen, position⟩ :: rest)
      let tree ← (ParseTree.group inner).bounded limit position
      return (tree, rest) := by
  refine readsWithin_succ (by simp) fun fuel hfuel lexemes ↦ ?_
  have hgroup := (hexpression fuel hfuel).bind fun inner hinner ↦
    meters_demand_bind .rightParen
      (reads_bounded (.group inner) (Nat.succ_le_succ hinner) position)
  simp only [Rule.parenthesized, Rule.enclosed, expect_cons, bind_assoc, pure_bind]
  exact hgroup lexemes

theorem readsWithin_root {expression : Rule} (position : Nat)
    (hexpression : ReadsWithin limit calls .expression depth expression.read)
    (hparenthesized :
      ReadsWithin limit calls .parenthesized depth expression.parenthesized.read) :
    ReadsWithin limit (calls + 1) (.root position) depth
      (Rule.afterRoot limit expression position) := by
  refine readsWithin_succ (by simp) fun fuel hfuel lexemes ↦ ?_
  have hsquare := (hparenthesized fuel hfuel).bind fun radicand hradicand ↦
    reads_bounded (.squareRoot radicand position) (Nat.succ_le_succ hradicand) position
  rw [body, run_peek_bind]
  match lexemes with
  | [] => exact hsquare []
  | ⟨token, opening⟩ :: rest =>
    cases token with
    | leftBracket =>
      have hindexed := (hexpression fuel hfuel).bind fun index hindex ↦
        meters_demand_bind .rightBracket ((hparenthesized fuel hfuel).bind fun radicand hradicand ↦
          reads_bounded (.root index radicand position)
            (Nat.succ_le_succ (Nat.max_le.2 ⟨hindex, hradicand⟩)) position)
      simp only [Rule.afterRoot, Rule.enclosed, expect_cons, bind_assoc, pure_bind]
      exact hindexed rest
    | _ => exact hsquare _

/-- Parentheses and calls are read one level deeper than the primary expression. -/
theorem readsWithin_primary {expression : Rule} (hlimit : 0 < limit) (h : depth ≤ limit)
    (hidentifier : ∀ name position, ReadsWithin limit calls (.afterIdentifier name position)
      (depth + 1) (Rule.afterIdentifier limit expression name position))
    (hgroup : ∀ position, ReadsWithin limit calls (.group position) (depth + 1) fun rest ↦ do
      let (inner, rest) ← expression.parenthesized.read (⟨.leftParen, position⟩ :: rest)
      let tree ← (ParseTree.group inner).bounded limit position
      return (tree, rest))
    (hfraction : ∀ position, ReadsWithin limit calls (.fraction position) (depth + 1)
      (Rule.afterFrac limit expression position))
    (hroot : ∀ position, ReadsWithin limit calls (.root position) (depth + 1)
      (Rule.afterRoot limit expression position)) :
    ReadsWithin limit (calls + 1) .primary depth (Rule.primary limit expression).read := by
  refine readsWithin_succ (fun _ ↦ h) fun fuel hfuel lexemes ↦ ?_
  match lexemes with
  | [] => exact .failed (List.forall_mem_nil _)
  | ⟨token, position⟩ :: rest =>
    rw [body, run_take_bind_cons]
    cases token with
    | number text => exact reads_pure (.number text position) hlimit rest
    | identifier name => exact hidentifier name position fuel hfuel rest
    | leftParen => exact hgroup position fuel hfuel rest
    | frac => exact hfraction position fuel hfuel rest
    | root => exact hroot position fuel hfuel rest
    | _ => exact reads_halt _ rest

/-- What is enclosed in a primary is read one level deeper, and so are operands and exponents. -/
theorem readsWithin_level {deeper : Rule} (hlimit : 0 < limit) (h : depth ≤ limit)
    (hunary : ReadsWithin limit calls .unary (depth + 1) deeper.read)
    (hexpression :
      ReadsWithin limit calls .expression (depth + 1) (Rule.expression limit deeper).read) :
    ReadsWithin limit (calls + 6) .unary depth
      (Rule.negation limit deeper
        (Rule.power limit (Rule.factorial limit (Rule.primary limit (Rule.expression limit deeper)))
          deeper)).read := by
  have hparenthesized := readsWithin_parenthesized hexpression
  have hexpression' := hexpression.mono (Nat.le_add_right calls 1)
  have hprimary := readsWithin_primary hlimit h
    (fun name position ↦ readsWithin_afterIdentifier hlimit name position hparenthesized)
    (fun position ↦ readsWithin_group position hexpression')
    (fun position ↦ readsWithin_fraction position hexpression' hparenthesized)
    (fun position ↦ readsWithin_root position hexpression' hparenthesized)
  have hpower := readsWithin_power (readsWithin_factorial hprimary)
    (hunary.mono (Nat.le_add_right calls 4))
  exact readsWithin_unary h (hunary.mono (Nat.le_add_right calls 5)) hpower

/-- An expression takes three calls more than the unary expressions in it. -/
theorem readsWithin_expression_of_unary {unary : Rule} (h : depth ≤ limit)
    (hunary : ReadsWithin limit calls .unary depth unary.read) :
    ReadsWithin limit (calls + 3) .expression depth (Rule.expression limit unary).read :=
  readsWithin_expression h (readsWithin_sum (readsWithin_product hunary))

/-- Nine calls are made from one level to the next, and where there is no level left, one more call
finds that out. -/
theorem readsWithin_room (hlimit : 0 < limit) (room : Nat) :
    ∀ depth, depth + room = limit + 1 →
      ReadsWithin limit (9 * room + 1) .unary depth (Rule.unary limit room).read ∧
      ReadsWithin limit (9 * room + 1) .expression depth
        (Rule.expression limit (Rule.unary limit room)).read := by
  induction room with
  | zero =>
    intro depth hdepth
    have hdeep : limit < depth := by omega
    exact ⟨readsWithin_tooDeep hdeep fun _ ↦ ⟨_, rfl⟩, readsWithin_tooDeep hdeep fun _ ↦ ⟨_, rfl⟩⟩
  | succ room ih =>
    intro depth hdepth
    have hle : depth ≤ limit := by omega
    obtain ⟨hunary, hexpression⟩ := ih (depth + 1) (by omega)
    have hlevel := readsWithin_level hlimit hle hunary hexpression
    exact ⟨hlevel.mono (by omega), (readsWithin_expression_of_unary hle hlevel).mono (by omega)⟩

end Procedure

namespace ParseTree

/-- How many calls of the parser can be open at a time. -/
def callBound (limit : Nat) : Nat := 9 * (limit + 1) + 1

/-- With `callBound limit` calls the metered parser reads what the rules read. -/
theorem reads_metered (hlimit : 0 < limit) :
    (metered limit (callBound limit)).Reads limit (fun lexemes ↦ do
      let (tree, rest) ← (Rule.expression limit (Rule.unary limit (limit + 1))).read lexemes
      match rest with
      | [] => return (tree, [])
      | found :: _ => .error (.trailing found)) := by
  have hexpression := (Procedure.readsWithin_room hlimit (limit + 1) 0 (Nat.zero_add _)).2
  exact (hexpression _ (Nat.le_refl _)).bind Metered.reads_finish

/-- The metered parser gives the result of the parser that is not metered. -/
theorem result_metered (hlimit : 0 < limit) (lexemes : List Lexeme) :
    ((metered limit (callBound limit)).run lexemes).result =
      (ofLexemesWithin limit lexemes).mapError .failed := by
  rw [(reads_metered hlimit lexemes).result_eq, ofLexemesWithin]
  dsimp only
  generalize (Rule.expression limit (Rule.unary limit (limit + 1))).read lexemes = reading
  match reading with
  | .error _ => rfl
  | .ok (_, []) => rfl
  | .ok (_, _ :: _) => rfl

/-- Whatever the lexemes are, with fuel for `callBound maxHeight` calls inside each other the metered
parser does not run out and comes to what the parser comes to. No call deeper than `maxHeight` takes
a sign or a primary, no tree whose height is looked at is more than one level higher, and no tree
that a call returns is higher. -/
theorem nesting_bounded (lexemes : List Lexeme) :
    let trail := (metered maxHeight (callBound maxHeight)).run lexemes
    trail.result = (ofLexemes lexemes).mapError .failed ∧
      (∀ call, .called call ∈ trail.notes → call.procedure = .unary ∨ call.procedure = .primary →
        call.left.length < call.found.length → call.depth ≤ maxHeight) ∧
      (∀ tree, .measured tree ∈ trail.notes → tree.height ≤ maxHeight + 1) ∧
      (∀ call tree, .called call ∈ trail.notes → call.result = .ok tree →
        tree.height ≤ maxHeight) ∧
      ∀ tree, ofLexemes lexemes = .ok tree → tree.height ≤ maxHeight := by
  intro trail
  have hlimit : 0 < maxHeight := by decide
  have hfollows := reads_metered hlimit lexemes
  have hresult : trail.result = (ofLexemes lexemes).mapError .failed :=
    result_metered hlimit lexemes
  refine ⟨hresult, fun call hcall ↦ (hfollows.within _ hcall).1, fun tree htree ↦
    hfollows.within _ htree, fun call tree hcall ↦ (hfollows.within _ hcall).2 tree, ?_⟩
  intro tree htree
  rw [htree] at hresult
  exact hfollows.good_of_ok hresult

end ParseTree

/-! ## The bound is met -/

theorem Trail.result_andThen_of_error {first : Trail α} {next : α → Trail β} {halt : Halt}
    (h : first.result = .error halt) : (first.andThen next).result = .error halt := by
  rw [andThen, h]

def nestedCalls : Nat → List Lexeme
  | 0 => []
  | levels + 1 => ⟨.identifier "f", 0⟩ :: ⟨.leftParen, 0⟩ :: nestedCalls levels

namespace Procedure

open Metered

/-- The procedure finds no fuel somewhere on its way. -/
def RunsOut (limit fuel : Nat) (procedure : Procedure) (depth : Nat) (lexemes : List Lexeme) :
    Prop :=
  ((run limit fuel procedure depth).run lexemes).result = .error .outOfFuel

variable {fuel depth : Nat} {rest : List Lexeme}

/-- From a call to the one in its argument each procedure takes one unit of fuel. -/
theorem runsOut_call (hdepth : depth ≤ limit)
    (h : RunsOut limit fuel .expression (depth + 1) rest) :
    RunsOut limit (fuel + 9) .expression depth
      (⟨.identifier "f", 0⟩ :: ⟨.leftParen, 0⟩ :: rest) := by
  let behind : List Lexeme := ⟨.leftParen, 0⟩ :: rest
  let lexemes : List Lexeme := ⟨.identifier "f", 0⟩ :: behind
  have hparenthesized : RunsOut limit (fuel + 1) .parenthesized (depth + 1) behind := by
    have hinner : ((run limit fuel .expression (depth + 1) >>= fun inner ↦
        demand .rightParen >>= fun _ ↦ pure inner).run rest).result = .error .outOfFuel :=
      Trail.result_andThen_of_error h
    exact hinner
  have hname : RunsOut limit (fuel + 2) (.afterIdentifier "f" 0) (depth + 1) behind := by
    have hcall : ((run limit (fuel + 1) .parenthesized (depth + 1) >>= fun argument ↦
        bounded limit 0 (.call "f" argument 0)).run behind).result = .error .outOfFuel :=
      Trail.result_andThen_of_error hparenthesized
    exact hcall
  have hprimary : RunsOut limit (fuel + 3) .primary depth lexemes := hname
  have hfactorial : RunsOut limit (fuel + 4) .factorial depth lexemes :=
    Trail.result_andThen_of_error hprimary
  have hpower : RunsOut limit (fuel + 5) .power depth lexemes :=
    Trail.result_andThen_of_error hfactorial
  have hunary : RunsOut limit (fuel + 6) .unary depth lexemes := by
    change ((body limit (run limit (fuel + 5)) depth .unary).run lexemes).result = _
    rw [body, run_checkDepth_bind hdepth]
    exact hpower
  have hproduct : RunsOut limit (fuel + 7) .product depth lexemes :=
    Trail.result_andThen_of_error hunary
  have hsum : RunsOut limit (fuel + 8) .sum depth lexemes :=
    Trail.result_andThen_of_error hproduct
  change ((body limit (run limit (fuel + 8)) depth .expression).run lexemes).result = _
  rw [body, run_checkDepth_bind hdepth]
  exact hsum

/-- Nine calls a level are used up by a nested call of a function. -/
theorem runsOut_nestedCalls (room : Nat) : ∀ depth, depth + room = limit + 1 →
    RunsOut limit (9 * room) .expression depth (nestedCalls room) := by
  induction room with
  | zero => exact fun _ _ ↦ rfl
  | succ room ih =>
    intro depth hdepth
    exact runsOut_call (by omega) (ih (depth + 1) (by omega))

end Procedure

/-- The bound is met: with one unit less, calls inside each other run out of fuel. -/
theorem ParseTree.metered_outOfFuel (limit : Nat) :
    ((metered limit (callBound limit - 1)).run (nestedCalls (limit + 1))).result =
      .error .outOfFuel :=
  Trail.result_andThen_of_error (Procedure.runsOut_nestedCalls (limit + 1) 0 (Nat.zero_add _))

end Formula
