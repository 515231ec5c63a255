import StrongLL.Lookahead.Words
import StrongLL.Order.SortedMap

/-!
# Known sets

The lookahead computations learn one set of tuples for each nonterminal. A nonterminal about which
nothing is known has no entry, which differs from an entry without tuples. Sets only grow, and the
weight of a map tells by how much.
-/

namespace StrongLL

set_option autoImplicit false

/-- The sets learned so far. -/
abbrev KnownSets := SortedMap NonTerminal TupleSet

namespace KnownSets

/-- The map after learning that the tuples of a set belong to a nonterminal too. -/
def relax (known : KnownSets) (n : NonTerminal) (set : TupleSet) : KnownSets :=
  known.insert n
    (match known.get? n with
    | none => set
    | some old => old.union set)

/-- One for each entry and one for each tuple. -/
def weight (known : KnownSets) : Nat :=
  known.values.foldr (fun set total => set.size + 1 + total) 0

/-- Entries are for the given nonterminals and hold the given words only. -/
def Within (owners : List NonTerminal) (words : List Tuple) (known : KnownSets) : Prop :=
  ∀ n set, known.get? n = some set → n ∈ owners ∧ set.Within words

variable {owners : List NonTerminal} {words : List Tuple}

theorem within_empty : Within owners words (∅ : KnownSets) := by
  intro n set found
  simp at found

theorem within_relax {known : KnownSets} (within : Within owners words known) {n : NonTerminal}
    {set : TupleSet} (owner : n ∈ owners) (setWithin : set.Within words) :
    Within owners words (known.relax n set) := by
  intro other found lookup
  rw [relax, SortedMap.get?_insert] at lookup
  split at lookup
  · next same =>
    subst same
    refine ⟨owner, ?_⟩
    cases lookup
    split
    · exact setWithin
    · next old held => exact TupleSet.within_union (within other old held).2 setWithin
  · exact within other found lookup

/-- The weight is bounded by the number of owners and of words. -/
theorem weight_le_of_within {known : KnownSets} (within : Within owners words known) :
    known.weight ≤ owners.length * (words.length + 1) := by
  have entry : ∀ pair ∈ known.toList, pair.1 ∈ owners ∧ pair.2.Within words := fun pair member =>
    within pair.1 pair.2 (SortedMap.get?_eq_some_iff.2 member)
  have distinct : (known.toList.map (·.1)).Nodup := by
    refine List.pairwise_map.2 (known.sorted.imp fun {a b} less same => ?_)
    simp [same, Std.ReflCmp.compare_self] at less
  have count : known.toList.length ≤ owners.length := by
    have inside : known.toList.map (·.1) ⊆ owners := fun n member => by
      obtain ⟨pair, pairMember, rfl⟩ := List.mem_map.1 member
      exact (entry pair pairMember).1
    simpa using distinct.length_le_of_subset inside
  have sum : ∀ pairs : List (NonTerminal × TupleSet), (∀ pair ∈ pairs, pair.2.Within words) →
      (pairs.map (·.2)).foldr (fun set total => set.size + 1 + total) 0 ≤
        pairs.length * (words.length + 1) := by
    intro pairs sets
    induction pairs with
    | nil => simp
    | cons pair pairs induction =>
      have head := TupleSet.size_le_of_within (sets pair List.mem_cons_self)
      have tail := induction fun other member => sets other (List.mem_cons_of_mem pair member)
      simp only [List.map_cons, List.foldr_cons, List.length_cons, Nat.add_mul, Nat.one_mul]
      omega
  exact Nat.le_trans (sum known.toList fun pair member => (entry pair member).2)
    (Nat.mul_le_mul_right _ count)

end KnownSets

end StrongLL
