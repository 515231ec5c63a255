/-!
# Sorted sets

A set is the strictly increasing list of its elements, so two sets with the same elements are equal
and the order in which a set is listed is part of its type. The main statements say which elements
an operation leaves and that a set is determined by its elements.
-/

namespace StrongLL

set_option autoImplicit false

open Std

/-- A list of elements in strictly increasing order. -/
structure SortedSet (Item : Type) [Ord Item] where
  toList : List Item
  sorted : toList.Pairwise fun a b => compare a b = .lt

namespace SortedSet

variable {Item : Type} [Ord Item]

theorem ext {left right : SortedSet Item} (same : left.toList = right.toList) : left = right := by
  cases left
  cases right
  simp_all

theorem ext_iff {left right : SortedSet Item} : left = right ↔ left.toList = right.toList :=
  ⟨fun same => same ▸ rfl, ext⟩

instance [DecidableEq Item] : DecidableEq (SortedSet Item) := fun _ _ =>
  decidable_of_iff _ ext_iff.symm

instance : Membership Item (SortedSet Item) := ⟨fun set x => x ∈ set.toList⟩

theorem mem_toList {set : SortedSet Item} {x : Item} : x ∈ set.toList ↔ x ∈ set := Iff.rfl

instance [DecidableEq Item] (x : Item) (set : SortedSet Item) : Decidable (x ∈ set) :=
  inferInstanceAs (Decidable (x ∈ set.toList))

def empty : SortedSet Item := ⟨[], List.Pairwise.nil⟩

instance : EmptyCollection (SortedSet Item) := ⟨empty⟩

instance : Inhabited (SortedSet Item) := ⟨empty⟩

def singleton (x : Item) : SortedSet Item := ⟨[x], List.pairwise_singleton ..⟩

def size (set : SortedSet Item) : Nat := set.toList.length

def isEmpty (set : SortedSet Item) : Bool := set.toList.isEmpty

def contains [BEq Item] (set : SortedSet Item) (x : Item) : Bool := set.toList.contains x

/-- Merges `x`, which stands before a list whose merge is `mergeTail`, with a second list. -/
def mergeHead (x : Item) (mergeTail : List Item → List Item) : List Item → List Item
  | [] => x :: mergeTail []
  | y :: ys =>
    match compare x y with
    | .lt => x :: mergeTail (y :: ys)
    | .eq => x :: mergeTail ys
    | .gt => y :: mergeHead x mergeTail ys

/-- Merges two strictly increasing lists into one, keeping one of two equal elements. -/
def merge : List Item → List Item → List Item
  | [] => id
  | x :: xs => mergeHead x (merge xs)

theorem mem_of_mem_mergeHead (x : Item) (xs : List Item) (mergeTail : List Item → List Item)
    (tail : ∀ ys z, z ∈ mergeTail ys → z ∈ xs ∨ z ∈ ys) (ys : List Item) (z : Item)
    (member : z ∈ mergeHead x mergeTail ys) : z ∈ x :: xs ∨ z ∈ ys := by
  induction ys with
  | nil =>
    simp only [mergeHead, List.mem_cons] at member ⊢
    rcases member with same | member
    · exact Or.inl (Or.inl same)
    · exact (tail [] z member).imp Or.inr id
  | cons y ys induction =>
    simp only [mergeHead] at member
    split at member <;> simp only [List.mem_cons] at member ⊢ induction
    · rcases member with same | member
      · exact Or.inl (Or.inl same)
      · simpa [or_assoc] using Or.inr (tail _ z member)
    · rcases member with same | member
      · exact Or.inl (Or.inl same)
      · rcases tail ys z member with old | new
        · exact Or.inl (Or.inr old)
        · exact Or.inr (Or.inr new)
    · rcases member with same | member
      · exact Or.inr (Or.inl same)
      · exact (induction member).imp id Or.inr

theorem mem_of_mem_merge (xs ys : List Item) (z : Item) (member : z ∈ merge xs ys) :
    z ∈ xs ∨ z ∈ ys := by
  induction xs generalizing ys z with
  | nil => exact Or.inr member
  | cons x xs induction => exact mem_of_mem_mergeHead x xs (merge xs) induction ys z member

section Lawful

variable [TransOrd Item]

theorem pairwise_mergeHead (x : Item) (xs : List Item) (mergeTail : List Item → List Item)
    (sorted : (x :: xs).Pairwise fun a b => compare a b = .lt)
    (members : ∀ ys z, z ∈ mergeTail ys → z ∈ xs ∨ z ∈ ys)
    (tail : ∀ ys, ys.Pairwise (fun a b => compare a b = .lt) →
      (mergeTail ys).Pairwise fun a b => compare a b = .lt)
    (ys : List Item) (other : ys.Pairwise fun a b => compare a b = .lt) :
    (mergeHead x mergeTail ys).Pairwise fun a b => compare a b = .lt := by
  have least : ∀ z ∈ xs, compare x z = .lt := (List.pairwise_cons.1 sorted).1
  induction ys with
  | nil =>
    refine List.pairwise_cons.2 ⟨fun z member => ?_, tail [] other⟩
    exact (members [] z member).elim (least z) (by simp)
  | cons y ys induction =>
    have below : ∀ z ∈ ys, compare y z = .lt := (List.pairwise_cons.1 other).1
    have rest := (List.pairwise_cons.1 other).2
    simp only [mergeHead]
    split
    · next less =>
      refine List.pairwise_cons.2 ⟨fun z member => ?_, tail _ other⟩
      rcases members _ z member with old | new
      · exact least z old
      · rcases List.mem_cons.1 new with same | new
        · exact same ▸ less
        · exact TransCmp.lt_trans less (below z new)
    · next equal =>
      refine List.pairwise_cons.2 ⟨fun z member => ?_, tail _ rest⟩
      rcases members _ z member with old | new
      · exact least z old
      · exact TransCmp.lt_of_eq_of_lt equal (below z new)
    · next greater =>
      have less : compare y x = .lt := OrientedCmp.lt_of_gt greater
      refine List.pairwise_cons.2 ⟨fun z member => ?_, induction rest⟩
      rcases mem_of_mem_mergeHead x xs mergeTail members ys z member with old | new
      · rcases List.mem_cons.1 old with same | old
        · exact same ▸ less
        · exact TransCmp.lt_trans less (least z old)
      · exact below z new

theorem pairwise_merge (xs ys : List Item) (left : xs.Pairwise fun a b => compare a b = .lt)
    (right : ys.Pairwise fun a b => compare a b = .lt) :
    (merge xs ys).Pairwise fun a b => compare a b = .lt := by
  induction xs generalizing ys with
  | nil => exact right
  | cons x xs induction =>
    exact pairwise_mergeHead x xs (merge xs) left (mem_of_mem_merge xs)
      (fun ys other => induction ys (List.pairwise_cons.1 left).2 other) ys right

def union (left right : SortedSet Item) : SortedSet Item :=
  ⟨merge left.toList right.toList, pairwise_merge _ _ left.sorted right.sorted⟩

def insert (x : Item) (set : SortedSet Item) : SortedSet Item := (singleton x).union set

/-- Joins each set with its neighbour. -/
def joinPairs : List (SortedSet Item) → List (SortedSet Item)
  | first :: second :: rest => first.union second :: joinPairs rest
  | sets => sets

/-- Joins sets in rounds, each of which halves their number. -/
def joinRounds : Nat → List (SortedSet Item) → SortedSet Item
  | _, [] => ∅
  | _, [set] => set
  | 0, sets => sets.foldr union ∅
  | rounds + 1, sets => joinRounds rounds (joinPairs sets)

def unions (sets : List (SortedSet Item)) : SortedSet Item := joinRounds sets.length sets

def ofList (items : List Item) : SortedSet Item := unions (items.map singleton)

variable [LawfulEqOrd Item]

omit [TransOrd Item] in
theorem mem_mergeHead (x : Item) (xs : List Item) (mergeTail : List Item → List Item)
    (tail : ∀ ys z, z ∈ mergeTail ys ↔ z ∈ xs ∨ z ∈ ys) (ys : List Item) (z : Item) :
    z ∈ mergeHead x mergeTail ys ↔ z ∈ x :: xs ∨ z ∈ ys := by
  induction ys with
  | nil => simp [mergeHead, tail]
  | cons y ys induction =>
    simp only [mergeHead]
    split
    · simp [tail, or_assoc]
    · next equal =>
      have same : x = y := LawfulEqCmp.eq_of_compare equal
      subst same
      simp only [List.mem_cons, tail]
      constructor
      · rintro (same | old | new)
        · exact Or.inl (Or.inl same)
        · exact Or.inl (Or.inr old)
        · exact Or.inr (Or.inr new)
      · rintro ((same | old) | same | new)
        · exact Or.inl same
        · exact Or.inr (Or.inl old)
        · exact Or.inl same
        · exact Or.inr (Or.inr new)
    · simp only [List.mem_cons, induction]
      constructor
      · rintro (same | old | new)
        · exact Or.inr (Or.inl same)
        · exact Or.inl old
        · exact Or.inr (Or.inr new)
      · rintro (old | same | new)
        · exact Or.inr (Or.inl old)
        · exact Or.inl same
        · exact Or.inr (Or.inr new)

omit [TransOrd Item] in
theorem mem_merge (xs ys : List Item) (z : Item) : z ∈ merge xs ys ↔ z ∈ xs ∨ z ∈ ys := by
  induction xs generalizing ys z with
  | nil => simp [merge]
  | cons x xs induction => exact mem_mergeHead x xs (merge xs) induction ys z

@[simp]
theorem mem_union {left right : SortedSet Item} {x : Item} :
    x ∈ left.union right ↔ x ∈ left ∨ x ∈ right :=
  mem_merge left.toList right.toList x

omit [TransOrd Item] [LawfulEqOrd Item] in
@[simp]
theorem mem_singleton {x y : Item} : x ∈ singleton y ↔ x = y := List.mem_singleton

omit [TransOrd Item] [LawfulEqOrd Item] in
@[simp]
theorem not_mem_empty {x : Item} : x ∉ (∅ : SortedSet Item) := List.not_mem_nil

@[simp]
theorem mem_insert {x y : Item} {set : SortedSet Item} : x ∈ set.insert y ↔ x = y ∨ x ∈ set := by
  simp [insert]

theorem exists_mem_joinPairs (sets : List (SortedSet Item)) (x : Item) :
    (∃ set ∈ joinPairs sets, x ∈ set) ↔ ∃ set ∈ sets, x ∈ set := by
  fun_induction joinPairs sets with
  | case1 first second rest induction => simp [induction, or_assoc]
  | case2 => rfl

theorem mem_foldr_union (sets : List (SortedSet Item)) (x : Item) :
    x ∈ sets.foldr union ∅ ↔ ∃ set ∈ sets, x ∈ set := by
  induction sets with
  | nil => simp
  | cons set sets induction => simp [induction]

@[simp]
theorem mem_unions {sets : List (SortedSet Item)} {x : Item} :
    x ∈ unions sets ↔ ∃ set ∈ sets, x ∈ set := by
  have general : ∀ rounds, x ∈ joinRounds rounds sets ↔ ∃ set ∈ sets, x ∈ set := by
    intro rounds
    fun_induction joinRounds rounds sets with
    | case1 => simp
    | case2 => simp
    | case3 sets => exact mem_foldr_union sets x
    | case4 rounds sets _ _ induction => rw [induction, exists_mem_joinPairs]
  exact general sets.length

@[simp]
theorem mem_ofList {items : List Item} {x : Item} : x ∈ ofList items ↔ x ∈ items := by
  rw [ofList, mem_unions]
  constructor
  · rintro ⟨set, member, inside⟩
    obtain ⟨y, found, rfl⟩ := List.mem_map.1 member
    exact mem_singleton.1 inside ▸ found
  · exact fun member => ⟨singleton x, List.mem_map.2 ⟨x, member, rfl⟩, mem_singleton.2 rfl⟩

omit [LawfulEqOrd Item] in
theorem nodup_toList (set : SortedSet Item) : set.toList.Nodup := by
  refine set.sorted.imp fun {a b} less same => ?_
  subst same
  simp [ReflCmp.compare_self] at less

omit [LawfulEqOrd Item] in
private theorem eq_of_same_elements (xs ys : List Item)
    (left : xs.Pairwise fun a b => compare a b = .lt)
    (right : ys.Pairwise fun a b => compare a b = .lt) (same : ∀ z, z ∈ xs ↔ z ∈ ys) : xs = ys := by
  induction xs generalizing ys with
  | nil =>
    cases ys with
    | nil => rfl
    | cons y ys => exact absurd ((same y).2 List.mem_cons_self) List.not_mem_nil
  | cons x xs induction =>
    cases ys with
    | nil => exact absurd ((same x).1 List.mem_cons_self) List.not_mem_nil
    | cons y ys =>
      have below := List.pairwise_cons.1 left
      have above := List.pairwise_cons.1 right
      have irreflexive : ∀ z : Item, compare z z ≠ .lt := fun z => by simp [ReflCmp.compare_self]
      have heads : x = y := by
        rcases List.mem_cons.1 ((same x).1 List.mem_cons_self) with equal | later
        · exact equal
        · rcases List.mem_cons.1 ((same y).2 List.mem_cons_self) with equal | earlier
          · exact equal.symm
          · exact absurd (TransCmp.lt_trans (above.1 x later) (below.1 y earlier)) (irreflexive y)
      subst heads
      refine congrArg (x :: ·) (induction ys below.2 above.2 fun z => ?_)
      constructor
      · intro member
        rcases List.mem_cons.1 ((same z).1 (List.mem_cons_of_mem x member)) with equal | found
        · exact absurd (equal ▸ below.1 z member) (irreflexive x)
        · exact found
      · intro member
        rcases List.mem_cons.1 ((same z).2 (List.mem_cons_of_mem x member)) with equal | found
        · exact absurd (equal ▸ above.1 z member) (irreflexive x)
        · exact found

omit [LawfulEqOrd Item] in
/-- A set is determined by its elements. -/
theorem ext_of_mem {left right : SortedSet Item} (same : ∀ x, x ∈ left ↔ x ∈ right) :
    left = right :=
  ext (eq_of_same_elements _ _ left.sorted right.sorted same)

end Lawful

@[simp]
theorem contains_iff [BEq Item] [LawfulBEq Item] {set : SortedSet Item} {x : Item} :
    set.contains x = true ↔ x ∈ set := by
  simp [contains, mem_toList]

end SortedSet

end StrongLL
