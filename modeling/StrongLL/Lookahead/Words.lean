import StrongLL.Lookahead.Tuple

/-!
# Finitely many tuples

The words of bounded length over an alphabet are finitely many, and joining tuples leads to no
others. This bounds every set of tuples that the lookahead computations meet.
-/

namespace StrongLL

set_option autoImplicit false

/-- The words of at most `length` terminals of an alphabet. -/
def wordsUpTo (alphabet : List Terminal) : Nat → List (List Terminal)
  | 0 => [[]]
  | length + 1 => [] :: alphabet.flatMap fun t => (wordsUpTo alphabet length).map (t :: ·)

theorem mem_wordsUpTo {alphabet : List Terminal} {length : Nat} {word : List Terminal} :
    word ∈ wordsUpTo alphabet length ↔ word.length ≤ length ∧ ∀ t ∈ word, t ∈ alphabet := by
  induction length generalizing word with
  | zero => cases word <;> simp [wordsUpTo]
  | succ length induction =>
    cases word with
    | nil => simp [wordsUpTo]
    | cons t word =>
      simp only [wordsUpTo, List.mem_cons, List.mem_flatMap, List.mem_map, induction]
      constructor
      · rintro (impossible | ⟨_, member, _, ⟨short, rest⟩, same⟩)
        · exact nomatch impossible
        · cases same
          exact ⟨Nat.succ_le_succ short, fun s occurs => occurs.elim (· ▸ member) (rest s)⟩
      · rintro ⟨short, all⟩
        exact Or.inr ⟨t, all t (Or.inl rfl), word,
          ⟨Nat.le_of_succ_le_succ short, fun s occurs => all s (Or.inr occurs)⟩, rfl⟩

namespace Tuple

theorem mem_of_mem_concat {k : Nat} {first second : Tuple} {t : Terminal}
    (member : t ∈ concat k first second) : t = .epsilon ∨ t ∈ first ∨ t ∈ second := by
  have wordMember : ∀ {tuple : Tuple}, t ∈ tuple.word → t ∈ tuple := by
    intro tuple occurs
    unfold word at occurs
    split at occurs
    · exact absurd occurs List.not_mem_nil
    · exact occurs
  unfold concat ofWord at member
  split at member
  · exact Or.inl (List.mem_singleton.1 member)
  · exact Or.inr ((List.mem_append.1 (List.mem_of_mem_take member)).imp wordMember wordMember)

theorem length_concat_le (k : Nat) (first second : Tuple) :
    (concat k first second).length ≤ max k 1 := by
  unfold concat ofWord
  split
  · simp only [epsilon, List.length_singleton]
    omega
  · simp only [List.length_take]
    omega

end Tuple

namespace TupleSet

/-- Every tuple of the set is one of the words. -/
def Within (words : List Tuple) (set : TupleSet) : Prop := ∀ tuple ∈ set, tuple ∈ words

theorem size_le_of_within {words : List Tuple} {set : TupleSet} (within : Within words set) :
    set.size ≤ words.length :=
  set.nodup_toList.length_le_of_subset within

theorem within_epsilon {alphabet : List Terminal} (epsilonMember : .epsilon ∈ alphabet) (k : Nat) :
    Within (wordsUpTo alphabet (max k 1)) epsilon := by
  intro tuple member
  have same : tuple = Tuple.epsilon := List.mem_singleton.1 member
  subst same
  refine mem_wordsUpTo.2 ⟨?_, fun t occurs => ?_⟩
  · simp only [Tuple.epsilon, List.length_singleton]
    omega
  · exact (List.mem_singleton.1 occurs) ▸ epsilonMember

theorem within_union {words : List Tuple} {left right : TupleSet} (first : Within words left)
    (second : Within words right) : Within words (left.union right) := fun tuple member =>
  (SortedSet.mem_union.1 member).elim (first tuple) (second tuple)

/-- Every terminal of every tuple of the set is in the alphabet. -/
def Over (alphabet : List Terminal) (set : TupleSet) : Prop :=
  ∀ tuple ∈ set, ∀ t ∈ tuple, t ∈ alphabet

theorem over_of_within {alphabet : List Terminal} {length : Nat} {set : TupleSet}
    (within : Within (wordsUpTo alphabet length) set) : Over alphabet set := fun tuple member =>
  (mem_wordsUpTo.1 (within tuple member)).2

theorem within_concat {alphabet : List Terminal} (epsilonMember : .epsilon ∈ alphabet) (k : Nat)
    {first second : TupleSet} (left : Over alphabet first) (right : Over alphabet second) :
    Within (wordsUpTo alphabet (max k 1)) (concat k first second) := by
  rcases bothFilled : first.isEmpty || second.isEmpty with _ | _
  · obtain ⟨leftFilled, rightFilled⟩ := Bool.or_eq_false_iff.1 bothFilled
    intro tuple member
    obtain ⟨front, frontMember, back, backMember, rfl⟩ :=
      (mem_concat leftFilled rightFilled).1 member
    refine mem_wordsUpTo.2 ⟨Tuple.length_concat_le k front back, fun t occurs => ?_⟩
    rcases Tuple.mem_of_mem_concat occurs with same | inFront | inBack
    · exact same ▸ epsilonMember
    · exact left front frontMember t inFront
    · exact right back backMember t inBack
  · simp only [concat, bothFilled, if_true]
    exact within_epsilon epsilonMember k

theorem within_concatAll {alphabet : List Terminal} (epsilonMember : .epsilon ∈ alphabet) (k : Nat)
    (sets : List TupleSet) (spelledOver : ∀ set ∈ sets, Over alphabet set) :
    Within (wordsUpTo alphabet (max k 1)) (concatAll k sets) := by
  have general : ∀ done : TupleSet, Within (wordsUpTo alphabet (max k 1)) done →
      Within (wordsUpTo alphabet (max k 1)) (sets.foldl (concat k) done) := by
    induction sets with
    | nil => exact fun _ within => within
    | cons set sets induction =>
      intro done within
      exact induction (fun other member => spelledOver other (List.mem_cons_of_mem set member)) _
        (within_concat epsilonMember k (over_of_within within) (spelledOver set List.mem_cons_self))
  exact general epsilon (within_epsilon epsilonMember k)

end TupleSet

end StrongLL
