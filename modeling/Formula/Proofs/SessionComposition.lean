import Mathlib.Logic.Relation
import Formula.Proofs.Locality

/-!
# Sessions one after the other

A session that has come to the end of its input while it asks for an expression has nothing left
but what a user saw. With more input it would have gone on from there as a new session on that
input does. So nothing that was evaluated, bound or refused has an influence on what is asked for,
read or written later.
-/

namespace Formula.Session

open Dialogue

def session (settings : Settings) (input : List Input) : Except StreamError Unit × Console :=
  interact settings (Console.ofInput input fun _ _ ↦ none)

/-- The console on which a session asks for its first expression. -/
def opening (input : List Input) : Console :=
  (Console.ofInput input fun _ _ ↦ none).add [.event .sessionStarted]

/-- An expression is asked for and answered, and the session goes on. -/
def Turn (settings : Settings) (before after : Console) : Prop :=
  takeTurn settings before = (.ok none, after)

/-- After some turns the session asks for an expression, and nothing is left to read. -/
def Exhausts (settings : Settings) (input : List Input) : Prop :=
  ∃ waiting, Relation.ReflTransGen (Turn settings) (opening input) waiting ∧ waiting.unread = []

def turns (settings : Settings) : Round StreamError Unit :=
  ⟨takeTurn settings, unread_takeTurn_lt⟩

variable {settings : Settings} {past : List Entry} {more : List Input}

/-- Whether nothing is left to read after at most so many turns. -/
def waitsWithin (settings : Settings) : Nat → Console → Bool
  | 0, console => console.unread.isEmpty
  | count + 1, console =>
    console.unread.isEmpty ||
      match takeTurn settings console with
      | (.ok none, after) => waitsWithin settings count after
      | _ => false

/-- A session that waits for more input has got there by whole turns. -/
theorem exists_turns_of_waitsWithin {count : Nat} {console : Console}
    (h : waitsWithin settings count console) :
    ∃ waiting, Relation.ReflTransGen (Turn settings) console waiting ∧ waiting.unread = [] := by
  induction count generalizing console with
  | zero => exact ⟨console, .refl, List.isEmpty_iff.1 h⟩
  | succ count ih =>
    rcases Bool.or_eq_true_iff.1 h with hempty | hnext
    · exact ⟨console, .refl, List.isEmpty_iff.1 hempty⟩
    · split at hnext
      · next after hturn =>
        obtain ⟨waiting, hturns, hunread⟩ := ih hnext
        exact ⟨waiting, .head hturn hturns, hunread⟩
      · cases hnext

/-- Each turn reads a line, so there are at most as many turns as lines. -/
theorem waitsWithin_of_turns {console waiting : Console}
    (h : Relation.ReflTransGen (Turn settings) console waiting) (hunread : waiting.unread = [])
    {count : Nat} (hcount : console.unread.length ≤ count) :
    waitsWithin settings count console := by
  induction h using Relation.ReflTransGen.head_induction_on generalizing count with
  | refl => cases count <;> simp [waitsWithin, hunread]
  | @head console middle hturn _ ih =>
    have hlt := unread_takeTurn_lt hturn
    have heq : takeTurn settings console = (.ok none, middle) := hturn
    cases count with
    | zero => omega
    | succ count =>
      rw [waitsWithin, heq]
      exact Bool.or_eq_true_iff.2 (.inr (ih (by omega)))

instance (settings : Settings) (input : List Input) : Decidable (Exhausts settings input) :=
  decidable_of_iff (waitsWithin settings input.length (opening input))
    ⟨exists_turns_of_waitsWithin, fun ⟨_, hturns, hunread⟩ ↦
      waitsWithin_of_turns hturns hunread (Nat.le_refl _)⟩

theorem session_eq (input : List Input) :
    session settings input =
      ((turns settings).run >>= fun _ ↦ note .sessionEnded) (opening input) :=
  rfl

/-- Without input a turn writes its prompt and ends the session. -/
theorem takeTurn_of_unread_eq_nil (settings : Settings) {console : Console}
    (h : console.unread = []) :
    takeTurn settings console = (.ok (some ()), console.add [.prompt expressionPrompt]) := by
  have hnone : (readLine expressionPrompt console).1 = .ok none := by simp [readLine, h]
  rw [takeTurn, bind_of_ok hnone]
  simp [readLine, h, pure]

theorem run_turns {before after : Console}
    (h : Relation.ReflTransGen (Turn settings) before after) :
    (turns settings).run before = (turns settings).run after := by
  induction h with
  | refl => rfl
  | @tail middle after _ hturn ih =>
    have hnone : ((turns settings).step middle).1 = .ok none := congrArg Prod.fst hturn
    rw [ih, Round.run_of_none hnone]
    exact congrArg _ (congrArg Prod.snd hturn)

theorem session_of_turns {input : List Input} {waiting : Console}
    (h : Relation.ReflTransGen (Turn settings) (opening input) waiting) :
    session settings input = ((turns settings).run >>= fun _ ↦ note .sessionEnded) waiting := by
  rw [session_eq]
  change Dialogue.bind _ _ _ = Dialogue.bind _ _ _
  rw [Dialogue.bind, Dialogue.bind, run_turns h]

/-- The turns of a session are taken behind another one and in front of more input as well. -/
theorem exists_turns_within {alone after within : Console}
    (h : Relation.ReflTransGen (Turn settings) alone after)
    (hwithin : Console.Embeds past more alone within) :
    ∃ reached, Relation.ReflTransGen (Turn settings) within reached ∧
      Console.Embeds past more after reached := by
  induction h with
  | refl => exact ⟨within, .refl, hwithin⟩
  | @tail middle after _ hturn ih =>
    obtain ⟨reached, hreached, hmiddle⟩ := ih
    have hnone : (takeTurn settings middle).1 = .ok none := congrArg Prod.fst hturn
    have hagrees := agrees_takeTurn hmiddle fun hends ↦ absurd hnone hends
    have hafter : (takeTurn settings middle).2 = after := congrArg Prod.snd hturn
    refine ⟨(takeTurn settings reached).2, hreached.tail ?_, hafter ▸ hagrees.2⟩
    exact Prod.ext (hagrees.1.trans hnone) rfl

/-- All turns that are left are taken behind another session as they are alone. -/
theorem agrees_turns (settings : Settings) {alone within : Console}
    (h : Console.Embeds past [] alone within) :
    Agrees past [] ((turns settings).run >>= fun _ ↦ note .sessionEnded) alone within := by
  have hturn : Local past [] (fun _ ↦ True) (takeTurn settings) :=
    fun _ _ hembeds _ ↦ agrees_takeTurn hembeds fun _ ↦ rfl
  have hturns : Local past [] (fun _ ↦ True) (turns settings).run := Round.local_run hturn
  exact hturns.bind (fun _ ↦ local_note _) alone within h fun _ _ _ ↦ rfl

def writtenTo (stream : Stream) : Entry → Option String
  | .written target text => if target = stream then some text else none
  | _ => none

def promptOf : Entry → Option String
  | .prompt text => some text
  | _ => none

theorem text_eq (console : Console) (stream : Stream) :
    console.text stream = String.join (console.seen.filterMap (writtenTo stream)) := by
  rw [Console.text, Console.seen, List.filterMap_filter]
  congr 2
  funext entry
  cases entry <;> rfl

theorem prompts_eq (console : Console) : console.prompts = console.seen.filterMap promptOf := by
  rw [Console.prompts, Console.seen, List.filterMap_filter]
  congr 1
  funext entry
  cases entry <;> rfl

/-- What a user sees of two sessions in one: all of the first but its last prompt, then all of the
second. -/
theorem session_append_seen {first : List Input} (h : Exhausts settings first)
    (second : List Input) :
    ∃ kept, (session settings first).2.seen = kept ++ [.prompt expressionPrompt] ∧
      (session settings (first ++ second)).1 = (session settings second).1 ∧
      (session settings (first ++ second)).2.seen =
        kept ++ (session settings second).2.seen := by
  obtain ⟨waiting, hturns, hunread⟩ := h
  have hfirst : (session settings first).2.seen = waiting.seen ++ [.prompt expressionPrompt] := by
    have hlast := takeTurn_of_unread_eq_nil settings hunread
    have hstep : ((turns settings).step waiting).1 = .ok (some ()) := congrArg Prod.fst hlast
    have hrun : (turns settings).run waiting =
        (.ok (), waiting.add [.prompt expressionPrompt]) := by
      have hafter : ((turns settings).step waiting).2 = waiting.add [.prompt expressionPrompt] :=
        congrArg Prod.snd hlast
      rw [Round.run_of_some hstep, hafter]
    rw [session_of_turns hturns, bind_of_ok (congrArg Prod.fst hrun), hrun]
    simp [note, Entry.isSeen]
  have hopening : Console.Embeds [] second (opening first) (opening (first ++ second)) :=
    ⟨rfl, rfl, rfl, rfl⟩
  obtain ⟨reached, hreached, hembeds⟩ := exists_turns_within hturns hopening
  have hbehind : Console.Embeds waiting.seen [] (opening second) reached := by
    refine ⟨?_, ?_, rfl, hembeds.writableWithin⟩
    · rw [hembeds.unread, hunread]
      exact (List.append_nil _).symm
    · rw [hembeds.seen]
      exact (List.append_nil _).symm
  have hagrees := agrees_turns settings hbehind
  rw [Agrees, ← session_of_turns hreached, ← session_eq] at hagrees
  exact ⟨waiting.seen, hfirst, hagrees.1, hagrees.2.seen⟩

/-- Sessions compose. If a session ends because there is nothing more to read when it asks for an
expression, then with more input it has the result that a new session on that input has, and a user
sees the same as from both of them, one after the other, but for the last prompt of the first. -/
theorem session_append {first : List Input} (h : Exhausts settings first) (second : List Input) :
    (session settings (first ++ second)).1 = (session settings second).1 ∧
    (∀ stream, (session settings (first ++ second)).2.text stream =
      (session settings first).2.text stream ++ (session settings second).2.text stream) ∧
    (session settings first).2.prompts.getLast? = some expressionPrompt ∧
    (session settings (first ++ second)).2.prompts =
      (session settings first).2.prompts.dropLast ++ (session settings second).2.prompts ∧
    (session settings (first ++ second)).2.seen =
      (session settings first).2.seen.dropLast ++ (session settings second).2.seen := by
  obtain ⟨kept, hfirst, hresult, hboth⟩ := session_append_seen h second
  refine ⟨hresult, fun stream ↦ ?_, ?_, ?_, ?_⟩
  · have hprompt : [Entry.prompt expressionPrompt].filterMap (writtenTo stream) = [] := rfl
    rw [text_eq, text_eq, text_eq, hfirst, hboth, List.filterMap_append, List.filterMap_append,
      hprompt, List.append_nil, String.join_append]
  · rw [prompts_eq, hfirst, List.filterMap_append]
    exact List.getLast?_concat
  · simp only [prompts_eq, hfirst, hboth, List.filterMap_append]
    exact congrArg (· ++ _) List.dropLast_concat.symm
  · rw [hfirst, hboth, List.dropLast_concat]

/-- A bad expression, a blank line and a result are followed by an evaluation that asks for its
value twice. -/
theorem session_append_three_lines :
    Exhausts {} [.line "1 +", .line " ", .line "1 + 2"] ∧
    (session {} ([.line "1 +", .line " ", .line "1 + 2"] ++
        [.line "x", .line "two", .line "2"])).2.seen =
      (session {} [.line "1 +", .line " ", .line "1 + 2"]).2.seen.dropLast ++
        (session {} [.line "x", .line "two", .line "2"]).2.seen := by
  have h : Exhausts {} [.line "1 +", .line " ", .line "1 + 2"] := by decide +kernel
  exact ⟨h, (session_append h [.line "x", .line "two", .line "2"]).2.2.2.2⟩

end Formula.Session
