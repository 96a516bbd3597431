import Mathlib.Data.Finset.Insert
import Formula.Proofs.Bindings

/-!
# Names in the order of their first occurrences

What it means that a list holds the names of another one, each once and in the order in which they
are first met there. The names that an expression needs values for are listed in this way, and so
are all its names: they are what passes a filter that remembers what it has met.
-/

namespace Formula

/-- The names of a list, each once, in the order of their first places in it. -/
structure FirstOccurrences (names all : List String) : Prop where
  mem_iff (name : String) : name ∈ names ↔ name ∈ all
  ordered : names.Pairwise fun first second ↦ all.idxOf first < all.idxOf second

theorem FirstOccurrences.nodup {names all : List String} (h : FirstOccurrences names all) :
    names.Nodup :=
  h.ordered.imp fun hlt ↦ by
    rintro rfl
    exact Nat.lt_irrefl _ hlt

/-- Dropping the names seen before leaves the first occurrences. -/
theorem firstOccurrences_eraseDups (all : List String) : FirstOccurrences all.eraseDups all := by
  refine ⟨fun name ↦ List.mem_eraseDups, ?_⟩
  induction all using List.reverseRecOn with
  | nil => exact .nil
  | append_singleton all name ih =>
    have hearlier : all.eraseDups.Pairwise fun first second ↦
        (all ++ [name]).idxOf first < (all ++ [name]).idxOf second :=
      ih.imp_of_mem fun hfirst hsecond hlt ↦ by
        rwa [List.idxOf_append_of_mem (List.mem_eraseDups.1 hfirst),
          List.idxOf_append_of_mem (List.mem_eraseDups.1 hsecond)]
    rw [eraseDups_concat]
    split
    · exact hearlier
    · next hnew =>
      refine List.pairwise_append.2 ⟨hearlier, List.pairwise_singleton _ _, ?_⟩
      intro first hfirst second hsecond
      have hmem : first ∈ all := List.mem_eraseDups.1 hfirst
      rw [List.mem_singleton.1 hsecond, List.idxOf_append_of_mem hmem,
        List.idxOf_append_of_notMem hnew]
      exact Nat.lt_add_right _ (List.idxOf_lt_length_of_mem hmem)

theorem eraseDups_sublist (all : List String) : all.eraseDups.Sublist all := by
  induction all using List.reverseRecOn with
  | nil => exact .slnil
  | append_singleton all name ih =>
    rw [eraseDups_concat]
    split
    · exact ih.trans (List.sublist_append_left _ _)
    · exact ih.append_right _

/-- Of the names of a longer list, the ones of its beginning are those that the beginning has. -/
theorem filter_mem_eraseDups_append (start rest : List String) :
    (start ++ rest).eraseDups.filter (· ∈ start) = start.eraseDups := by
  have hstart : start.eraseDups.filter (· ∈ start) = start.eraseDups :=
    List.filter_eq_self.2 fun name hmem ↦ decide_eq_true (List.mem_eraseDups.1 hmem)
  have hrest : (rest.removeAll start).eraseDups.filter (· ∈ start) = [] := by
    refine List.filter_eq_nil_iff.2 fun name hmem ↦ ?_
    have hnew : name ∈ rest.removeAll start := List.mem_eraseDups.1 hmem
    simpa using (List.mem_filter.1 hnew).2
  rw [List.eraseDups_append, List.filter_append, hstart, hrest, List.append_nil]

/-- A value is the last one of a name that has no other. -/
theorem lastValue?_of_mem {pairs : List (String × Float)} (hnodup : (pairs.map Prod.fst).Nodup)
    {pair : String × Float} (hmem : pair ∈ pairs) : lastValue? pairs pair.1 = some pair.2 := by
  induction pairs with
  | nil => cases hmem
  | cons first later ih =>
    obtain ⟨hfirst, hlater⟩ := List.nodup_cons.1 hnodup
    rw [lastValue?_cons]
    rcases List.mem_cons.1 hmem with rfl | hmem
    · have hnone : lastValue? later pair.1 = none :=
        lastValue?_eq_none_iff.2 fun other hother heq ↦
          hfirst (heq ▸ List.mem_map_of_mem hother)
      rw [hnone, Option.none_or, if_pos rfl]
    · rw [ih hlater hmem, Option.some_or]

/-- The names that an expression needs values for are those of its occurrences. -/
theorem Expr.firstOccurrences_unknowns (expr : Expr) :
    FirstOccurrences expr.unknowns expr.occurrences := by
  rw [expr.unknowns_eq]
  exact firstOccurrences_eraseDups expr.occurrences

/-- A filter on its way through a list: the set of the names that it has met, and the names that it
has let pass. -/
structure Sieve where
  met : Finset String
  passed : List String

namespace Sieve

variable {sieve : Sieve} {names : List String}

def start : Sieve := ⟨∅, []⟩

/-- A name passes if it has not been met, and from then on it has been. -/
def meet (sieve : Sieve) (name : String) : Sieve :=
  if name ∈ sieve.met then sieve else ⟨insert name sieve.met, sieve.passed ++ [name]⟩

def run (names : List String) : Sieve :=
  names.foldl meet start

/-- The names of the list have been met, and each of them has passed where it was first met. -/
structure HasRead (sieve : Sieve) (names : List String) : Prop where
  met_iff (name : String) : name ∈ sieve.met ↔ name ∈ names
  passed_eq : sieve.passed = names.eraseDups

theorem HasRead.meet (h : sieve.HasRead names) (name : String) :
    (sieve.meet name).HasRead (names ++ [name]) := by
  unfold Sieve.meet
  split
  · next hmet =>
    have hmem : name ∈ names := (h.met_iff name).1 hmet
    refine ⟨fun other ↦ ?_, ?_⟩
    · rw [h.met_iff, List.mem_append, List.mem_singleton, or_iff_left_of_imp]
      rintro rfl
      exact hmem
    · rw [h.passed_eq, eraseDups_concat, if_pos hmem]
  · next hnew =>
    refine ⟨fun other ↦ ?_, ?_⟩
    · rw [Finset.mem_insert, h.met_iff, List.mem_append, List.mem_singleton, or_comm]
    · rw [h.passed_eq, eraseDups_concat, if_neg ((h.met_iff name).not.1 hnew)]

theorem hasRead_run (names : List String) : (run names).HasRead names := by
  induction names using List.reverseRecOn with
  | nil => exact ⟨by simp [run, start], rfl⟩
  | append_singleton names name ih =>
    rw [run, List.foldl_append]
    exact ih.meet name

end Sieve

/-- The names of an expression, each once, are those that pass a filter that remembers what it has
met: its names, none of them twice, in the order in which they stand and in which they are first
met. What has passed when only a beginning was read is a beginning of what passes in the end, and
all of it that stands in the beginning. -/
theorem Expr.uniqueVariables_firstOccurrences (expr : Expr) :
    expr.uniqueVariables = (Sieve.run expr.variables).passed ∧
      expr.uniqueVariables.Nodup ∧ FirstOccurrences expr.uniqueVariables expr.variables ∧
      expr.uniqueVariables.Sublist expr.variables ∧
      ∀ start, start <+: expr.variables →
        expr.uniqueVariables.filter (· ∈ start) = (Sieve.run start).passed ∧
          (Sieve.run start).passed <+: expr.uniqueVariables := by
  have hfirst : FirstOccurrences expr.uniqueVariables expr.variables :=
    firstOccurrences_eraseDups expr.variables
  refine ⟨(Sieve.hasRead_run _).passed_eq.symm, hfirst.nodup, hfirst,
    eraseDups_sublist expr.variables, ?_⟩
  rintro start ⟨rest, hrest⟩
  rw [Expr.uniqueVariables, ← hrest, (Sieve.hasRead_run start).passed_eq]
  refine ⟨filter_mem_eraseDups_append start rest, ?_⟩
  rw [List.eraseDups_append]
  exact List.prefix_append _ _

/-- In `x + y * x + z` a second `x` is met before the last name. -/
theorem Expr.uniqueVariables_firstOccurrences_twice :
    let operand (name : String) : Operand := .subexpression (.identifier name)
    let expr : Expr := .binary (.subexpression (.binary (operand "x") .add
      (.subexpression (.binary (operand "y") .multiply (operand "x"))))) .add (operand "z")
    ["x", "y", "x"] <+: expr.variables ∧
      expr.uniqueVariables.filter (· ∈ ["x", "y", "x"]) = ["x", "y"] ∧
      ["x", "y"] <+: expr.uniqueVariables := by
  intro operand expr
  have hstart : ["x", "y", "x"] <+: expr.variables := ⟨["z"], rfl⟩
  obtain ⟨-, -, -, -, hprefix⟩ := expr.uniqueVariables_firstOccurrences
  obtain ⟨hkept, hpassed⟩ := hprefix _ hstart
  exact ⟨hstart, hkept, hpassed⟩

end Formula
