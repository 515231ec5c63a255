import Mathlib.Algebra.BigOperators.Group.Finset.Basic
import Mathlib.Algebra.Order.BigOperators.Group.Finset
import Mathlib.Data.List.Perm.Subperm
import StrongLL.Lookahead.Follow

/-!
# Sets that only grow

The lookahead computations stop when a sweep adds no weight. Every relaxation keeps what was known,
and among maps that only grow the weight tells equal maps from different ones. So at the end of a
computation not only the sweep but each single relaxation in it changes nothing. That is the form in
which the fixed point is used. What a map knows is measured by what is allowed: a map may hold
nothing else, and it may hold all of it. Sweeps that start with nothing else come to rest, and where
does not depend on the start.
-/

namespace StrongLL

set_option autoImplicit false

theorem SortedSet.nonempty_iff {Item : Type} [Ord Item] {set : SortedSet Item} :
    set.isEmpty = false ↔ ∃ x, x ∈ set := by
  rw [SortedSet.isEmpty, List.isEmpty_eq_false_iff_exists_mem]
  rfl

theorem SortedSet.eq_of_subset_of_size_le {Item : Type} [Ord Item] [Std.TransOrd Item]
    {small large : SortedSet Item} (subset : ∀ x ∈ small, x ∈ large)
    (size : large.size ≤ small.size) : small = large := by
  have inside : small.toList.Subperm large.toList :=
    List.subperm_of_subset small.nodup_toList subset
  have same : small.toList.Perm large.toList := inside.perm_of_length_le size
  exact ext_of_mem fun x => same.mem_iff

theorem SortedMap.mem_keys_iff {Key Value : Type} [Ord Key] [Std.TransOrd Key] [BEq Key]
    [LawfulBEq Key] [DecidableEq Key] {map : SortedMap Key Value} {key : Key} :
    key ∈ map.keys ↔ map.get? key ≠ none := by
  rw [Option.ne_none_iff_exists', SortedMap.keys, List.mem_map]
  constructor
  · intro ⟨⟨_, value⟩, member, same⟩
    subst same
    exact ⟨value, SortedMap.get?_eq_some_iff.2 member⟩
  · intro ⟨value, found⟩
    exact ⟨(key, value), SortedMap.get?_eq_some_iff.1 found, rfl⟩

theorem SortedMap.nodup_keys {Key Value : Type} [Ord Key] [Std.TransOrd Key]
    (map : SortedMap Key Value) : map.keys.Nodup := by
  apply List.pairwise_map.2
  apply map.sorted.imp
  intro a b less same
  simp [same, Std.ReflCmp.compare_self] at less

namespace KnownSets

/-- What is known in the first map is known in the second. -/
def Below (less more : KnownSets) : Prop :=
  ∀ n set, less.get? n = some set →
    ∃ larger, more.get? n = some larger ∧ ∀ tuple ∈ set, tuple ∈ larger

theorem Below.refl (known : KnownSets) : known.Below known :=
  fun _ set found => ⟨set, found, fun _ member => member⟩

theorem Below.trans {first second third : KnownSets} (before : first.Below second)
    (after : second.Below third) : first.Below third := by
  intro n set found
  obtain ⟨middle, foundMiddle, inMiddle⟩ := before n set found
  obtain ⟨larger, foundLarger, inLarger⟩ := after n middle foundMiddle
  exact ⟨larger, foundLarger, fun tuple member => inLarger tuple (inMiddle tuple member)⟩

theorem get?_relax_self (known : KnownSets) (n : NonTerminal) (set : TupleSet) :
    ∃ larger, (known.relax n set).get? n = some larger ∧
      ∀ tuple, tuple ∈ larger ↔
        (∃ old, known.get? n = some old ∧ tuple ∈ old) ∨ tuple ∈ set := by
  rw [relax, SortedMap.get?_insert_self]
  refine ⟨_, rfl, fun tuple => ?_⟩
  cases known.get? n with
  | none => simp
  | some old => simp

theorem get?_relax_of_ne (known : KnownSets) {n other : NonTerminal} (different : other ≠ n)
    (set : TupleSet) : (known.relax n set).get? other = known.get? other := by
  rw [relax, SortedMap.get?_insert, if_neg different]

theorem below_relax (known : KnownSets) (n : NonTerminal) (set : TupleSet) :
    known.Below (known.relax n set) := by
  intro other old found
  by_cases same : other = n
  · subst same
    obtain ⟨larger, foundLarger, members⟩ := known.get?_relax_self other set
    exact ⟨larger, foundLarger, fun tuple member => (members tuple).2 (.inl ⟨old, found, member⟩)⟩
  · exact ⟨old, by rw [get?_relax_of_ne known same, found], fun _ member => member⟩

theorem known_of_relax_eq {known : KnownSets} {n : NonTerminal} {set : TupleSet}
    (fixed : known.relax n set = known) :
    ∃ larger, known.get? n = some larger ∧ ∀ tuple ∈ set, tuple ∈ larger := by
  obtain ⟨larger, found, members⟩ := known.get?_relax_self n set
  rw [fixed] at found
  exact ⟨larger, found, fun tuple member => (members tuple).2 (.inr member)⟩

/-- Every entry has tuples, and all of them are allowed for its nonterminal. -/
def Only (allowed : NonTerminal → Tuple → Prop) (known : KnownSets) : Prop :=
  ∀ n set, known.get? n = some set → set.isEmpty = false ∧ ∀ tuple ∈ set, allowed n tuple

/-- Every tuple that is allowed for a nonterminal is in its entry. -/
def All (allowed : NonTerminal → Tuple → Prop) (known : KnownSets) : Prop :=
  ∀ n tuple, allowed n tuple → ∃ set, known.get? n = some set ∧ tuple ∈ set

section Allowed

variable {allowed : NonTerminal → Tuple → Prop} {known more : KnownSets} {n : NonTerminal}
  {set : TupleSet} {tuple : Tuple}

theorem only_empty : Only allowed (∅ : KnownSets) := by
  intro n set found
  simp at found

theorem Only.relax (only : known.Only allowed) (filled : set.isEmpty = false)
    (members : ∀ tuple ∈ set, allowed n tuple) : (known.relax n set).Only allowed := by
  intro other larger foundLarger
  by_cases same : other = n
  · subst same
    obtain ⟨all, foundAll, allMembers⟩ := known.get?_relax_self other set
    rw [foundAll] at foundLarger
    cases foundLarger
    constructor
    · obtain ⟨tuple, inside⟩ := SortedSet.nonempty_iff.1 filled
      exact SortedSet.nonempty_iff.2 ⟨tuple, (allMembers tuple).2 (.inr inside)⟩
    · intro tuple inAll
      rcases (allMembers tuple).1 inAll with ⟨old, foundOld, inOld⟩ | new
      · exact (only other old foundOld).2 tuple inOld
      · exact members tuple new
  · rw [get?_relax_of_ne known same] at foundLarger
    exact only other larger foundLarger

theorem All.mem_of_get? (all : known.All allowed) (found : known.get? n = some set)
    (holds : allowed n tuple) : tuple ∈ set := by
  obtain ⟨other, foundOther, member⟩ := all n tuple holds
  rw [found] at foundOther
  cases foundOther
  exact member

theorem Only.known_iff (only : known.Only allowed) (all : known.All allowed) :
    (∃ set, known.get? n = some set) ↔ ∃ tuple, allowed n tuple := by
  constructor
  · intro ⟨set, found⟩
    obtain ⟨filled, members⟩ := only n set found
    obtain ⟨tuple, inside⟩ := SortedSet.nonempty_iff.1 filled
    exact ⟨tuple, members tuple inside⟩
  · intro ⟨tuple, holds⟩
    obtain ⟨set, found, _⟩ := all n tuple holds
    exact ⟨set, found⟩

theorem Only.mem_iff (only : known.Only allowed) (all : known.All allowed)
    (found : known.get? n = some set) : tuple ∈ set ↔ allowed n tuple :=
  ⟨(only n set found).2 tuple, all.mem_of_get? found⟩

/-- A map with nothing but what is allowed lies below any map with all of it. -/
theorem Only.below (only : known.Only allowed) (all : more.All allowed) : known.Below more := by
  intro n set found
  obtain ⟨filled, members⟩ := only n set found
  obtain ⟨tuple, inside⟩ := SortedSet.nonempty_iff.1 filled
  obtain ⟨larger, foundLarger, _⟩ := all n tuple (members tuple inside)
  exact ⟨larger, foundLarger, fun other inSet =>
    all.mem_of_get? foundLarger (members other inSet)⟩

end Allowed

/-- What a nonterminal contributes to the weight. -/
def gain (known : KnownSets) (n : NonTerminal) : Nat :=
  ((known.get? n).map fun set => set.size + 1).getD 0

theorem gain_eq_zero_iff {known : KnownSets} {n : NonTerminal} :
    known.gain n = 0 ↔ known.get? n = none := by
  unfold gain
  cases known.get? n <;> simp

theorem Below.gain_le {less more : KnownSets} (below : less.Below more) (n : NonTerminal) :
    less.gain n ≤ more.gain n := by
  unfold gain
  cases found : less.get? n with
  | none => exact Nat.zero_le _
  | some set =>
      obtain ⟨larger, foundLarger, subset⟩ := below n set found
      have sizes : set.size ≤ larger.size :=
        set.nodup_toList.length_le_of_subset subset
      rw [foundLarger]
      exact Nat.succ_le_succ sizes

theorem weight_eq_sum_gain (known : KnownSets) {owners : Finset NonTerminal}
    (covers : ∀ n ∈ known.keys, n ∈ owners) : known.weight = ∑ n ∈ owners, known.gain n := by
  have listed : known.keys.map known.gain = known.values.map (·.size + 1) := by
    rw [SortedMap.keys, SortedMap.values, List.map_map, List.map_map]
    apply List.map_congr_left
    rintro ⟨n, set⟩ member
    have found : known.get? n = some set := SortedMap.get?_eq_some_iff.2 member
    simp [gain, found]
  have summed : known.weight = (known.values.map (·.size + 1)).sum := by
    rw [weight, List.sum_eq_foldr, List.foldr_map]
  rw [summed, ← listed, ← List.sum_toFinset known.gain known.nodup_keys]
  apply Finset.sum_subset
  · exact fun n member => covers n (List.mem_toFinset.1 member)
  · intro n _ absent
    rw [gain_eq_zero_iff]
    by_contra found
    exact absent (List.mem_toFinset.2 (SortedMap.mem_keys_iff.2 found))

theorem weights_eq_sum_gain (less more : KnownSets) :
    less.weight = ∑ n ∈ (less.keys ++ more.keys).toFinset, less.gain n ∧
      more.weight = ∑ n ∈ (less.keys ++ more.keys).toFinset, more.gain n := by
  constructor
  · apply less.weight_eq_sum_gain
    exact fun n member => List.mem_toFinset.2 (List.mem_append_left _ member)
  · apply more.weight_eq_sum_gain
    exact fun n member => List.mem_toFinset.2 (List.mem_append_right _ member)

theorem Below.weight_le {less more : KnownSets} (below : less.Below more) :
    less.weight ≤ more.weight := by
  obtain ⟨lessSum, moreSum⟩ := weights_eq_sum_gain less more
  rw [lessSum, moreSum]
  exact Finset.sum_le_sum fun n _ => below.gain_le n

/-- A map that grew without adding weight did not change. -/
theorem Below.eq_of_weight_le {less more : KnownSets} (below : less.Below more)
    (weight : more.weight ≤ less.weight) : less = more := by
  obtain ⟨lessSum, moreSum⟩ := weights_eq_sum_gain less more
  have sums := Nat.le_antisymm below.weight_le weight
  rw [lessSum, moreSum, Finset.sum_eq_sum_iff_of_le fun n _ => below.gain_le n] at sums
  have gains : ∀ n, less.gain n = more.gain n := by
    intro n
    by_cases listed : n ∈ less.keys ++ more.keys
    · exact sums n (List.mem_toFinset.2 listed)
    · have absent : n ∉ less.keys ∧ n ∉ more.keys := by
        rw [← not_or, ← List.mem_append]
        exact listed
      rw [gain_eq_zero_iff.2 (not_not.1 (mt SortedMap.mem_keys_iff.2 absent.1)),
        gain_eq_zero_iff.2 (not_not.1 (mt SortedMap.mem_keys_iff.2 absent.2))]
  apply SortedMap.ext_of_get?
  intro n
  cases found : less.get? n with
  | none =>
      have none : more.gain n = 0 := by rw [← gains, gain_eq_zero_iff, found]
      rw [gain_eq_zero_iff.1 none]
  | some set =>
      obtain ⟨larger, foundLarger, subset⟩ := below n set found
      have sizes := gains n
      simp only [gain, found, foundLarger, Option.map_some, Option.getD_some] at sizes
      rw [foundLarger, SortedSet.eq_of_subset_of_size_le subset (by omega)]

section Fold

variable {Item : Type} {step : KnownSets → Item → KnownSets}

theorem below_foldl (grows : ∀ known item, Below known (step known item)) (items : List Item)
    (known : KnownSets) : known.Below (items.foldl step known) := by
  induction items generalizing known with
  | nil => exact .refl known
  | cons item items induction => exact (grows known item).trans (induction (step known item))

/-- When a run of growing steps adds no weight, none of the steps changes anything. -/
theorem fixed_of_weight_foldl_le (grows : ∀ known item, Below known (step known item))
    {items : List Item} {known : KnownSets}
    (settled : (items.foldl step known).weight ≤ known.weight) :
    ∀ item ∈ items, step known item = known := by
  induction items with
  | nil => exact fun _ member => absurd member List.not_mem_nil
  | cons item items induction =>
      have below := below_foldl grows items (step known item)
      have first : known = step known item :=
        (grows known item).eq_of_weight_le (Nat.le_trans below.weight_le settled)
      intro other member
      rcases List.mem_cons.1 member with same | later
      · rw [same, ← first]
      · rw [List.foldl_cons, ← first] at settled
        exact induction settled other later

end Fold

end KnownSets

/-- Repeating a step for as long as it changes something comes to an end, with the last value. -/
inductive Stabilizes {Value : Type} (step : Value → Value) : Value → Value → Prop
  | still {value : Value} (same : step value = value) : Stabilizes step value value
  | again {value last : Value} (changed : step value ≠ value)
      (rest : Stabilizes step (step value) last) : Stabilizes step value last

/-- Growing sweeps that add nothing but what is allowed come to rest at a map with all of it, if
they do not come to rest before. -/
theorem KnownSets.stabilizes {allowed : NonTerminal → Tuple → Prop} (Sound : KnownSets → Prop)
    {sweep : KnownSets → KnownSets} {last start : KnownSets}
    (only : ∀ known, Sound known → Only allowed known)
    (kept : ∀ known, Sound known → Sound (sweep known))
    (grows : ∀ known, Below known (sweep known))
    (settled : ∀ known, Sound known → sweep known = known → All allowed known)
    (lastOnly : last.Only allowed) (lastAll : last.All allowed) (sound : Sound start) :
    Stabilizes sweep start last := by
  -- The induction is on the weight that is left to gain below the last map.
  induction left : last.weight - start.weight using Nat.strong_induction_on generalizing start with
  | _ room induction =>
      have below := (only start sound).below lastAll
      by_cases same : sweep start = start
      · have reached : start = last :=
          below.eq_of_weight_le (lastOnly.below (settled start sound same)).weight_le
        rw [← reached]
        exact .still same
      · have grown : start.weight < (sweep start).weight := by
          by_contra light
          exact same ((grows start).eq_of_weight_le (Nat.le_of_not_lt light)).symm
        have limit := ((only _ (kept start sound)).below lastAll).weight_le
        have less : last.weight - (sweep start).weight < room := by omega
        exact .again same (induction _ less (kept start sound) rfl)

end StrongLL
