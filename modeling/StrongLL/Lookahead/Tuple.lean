import StrongLL.Order.SortedSet
import StrongLL.Symbol.Order

/-!
# Lookahead tuples

A tuple is a word cut to its first `k` characters. It is never empty: the word without characters is
spelled by the empty word alone. Two tuples are joined by joining the words that they spell and
cutting the result; two sets are joined tuple by tuple, and a set without tuples counts as the set
of the empty word there.
-/

namespace StrongLL

set_option autoImplicit false

/-- Terminals that may come next. -/
abbrev Tuple := List Terminal

/-- Tuples in order. -/
abbrev TupleSet := SortedSet Tuple

namespace Tuple

/-- The tuple that spells the word without characters. -/
def epsilon : Tuple := [.epsilon]

/-- The tuple is the one that spells the word without characters. -/
def isEpsilon (tuple : Tuple) : Bool := tuple == epsilon

/-- The word that a tuple spells. -/
def word (tuple : Tuple) : List Terminal := if tuple.isEpsilon then [] else tuple

/-- The tuple that spells a word. -/
def ofWord (word : List Terminal) : Tuple := if word.isEmpty then epsilon else word

/-- The first `k` terminals of two words joined. -/
def concat (k : Nat) (first second : Tuple) : Tuple := ofWord ((first.word ++ second.word).take k)

/-- The terminals with nothing between them. -/
def display (tuple : Tuple) : Text := tuple.flatMap Terminal.display

theorem concat_ne_nil (k : Nat) (first second : Tuple) : concat k first second ≠ [] := by
  unfold concat ofWord
  split
  · simp [epsilon]
  · next filled => simpa using filled

end Tuple

namespace TupleSet

/-- The set of the tuple that spells the word without characters. -/
def epsilon : TupleSet := .singleton .epsilon

/-- Every tuple of the first set joined with every tuple of the second. -/
def concat (k : Nat) (first second : TupleSet) : TupleSet :=
  if first.isEmpty || second.isEmpty then epsilon
  else .unions (first.toList.map fun front => .ofList (second.toList.map (Tuple.concat k front)))

/-- The sets joined from left to right. -/
def concatAll (k : Nat) (sets : List TupleSet) : TupleSet := sets.foldl (concat k) epsilon

theorem mem_concat {k : Nat} {first second : TupleSet} (left : first.isEmpty = false)
    (right : second.isEmpty = false) {tuple : Tuple} :
    tuple ∈ concat k first second ↔
      ∃ front ∈ first, ∃ back ∈ second, Tuple.concat k front back = tuple := by
  simp only [concat, left, right, Bool.or_self, Bool.false_eq_true, if_false,
    SortedSet.mem_unions, List.mem_map]
  constructor
  · rintro ⟨_, ⟨front, frontMember, rfl⟩, member⟩
    obtain ⟨back, backMember, same⟩ := List.mem_map.1 (SortedSet.mem_ofList.1 member)
    exact ⟨front, frontMember, back, backMember, same⟩
  · rintro ⟨front, frontMember, back, backMember, same⟩
    exact ⟨_, ⟨front, frontMember, rfl⟩,
      SortedSet.mem_ofList.2 (List.mem_map.2 ⟨back, backMember, same⟩)⟩

end TupleSet

end StrongLL
