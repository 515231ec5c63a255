import StrongLL.Order.SortedSet

/-!
# Sorted maps

A map is the list of its entries in strictly increasing order of their keys. The main statements say
what is found after an entry was written, and that a map is determined by what is found in it.
-/

namespace StrongLL

set_option autoImplicit false

open Std

/-- Entries with distinct keys, in strictly increasing order of the keys. -/
structure SortedMap (Key Value : Type) [Ord Key] where
  toList : List (Key × Value)
  sorted : toList.Pairwise fun a b => compare a.1 b.1 = .lt

namespace SortedMap

variable {Key Value : Type} [Ord Key]

theorem ext {left right : SortedMap Key Value} (same : left.toList = right.toList) :
    left = right := by
  cases left
  cases right
  simp_all

theorem ext_iff {left right : SortedMap Key Value} : left = right ↔ left.toList = right.toList :=
  ⟨fun same => same ▸ rfl, ext⟩

instance [DecidableEq Key] [DecidableEq Value] : DecidableEq (SortedMap Key Value) := fun _ _ =>
  decidable_of_iff _ ext_iff.symm

def empty : SortedMap Key Value := ⟨[], List.Pairwise.nil⟩

instance : EmptyCollection (SortedMap Key Value) := ⟨empty⟩

instance : Inhabited (SortedMap Key Value) := ⟨empty⟩

def get? [BEq Key] (map : SortedMap Key Value) (key : Key) : Option Value := map.toList.lookup key

def keys (map : SortedMap Key Value) : List Key := map.toList.map (·.1)

def values (map : SortedMap Key Value) : List Value := map.toList.map (·.2)

/-- Writes an entry into an increasing list of entries, over an earlier one of the same key. -/
def put (key : Key) (value : Value) : List (Key × Value) → List (Key × Value)
  | [] => [(key, value)]
  | entry :: rest =>
    match compare key entry.1 with
    | .lt => (key, value) :: entry :: rest
    | .eq => (key, value) :: rest
    | .gt => entry :: put key value rest

theorem key_of_mem_put (key : Key) (value : Value) (entries : List (Key × Value))
    (entry : Key × Value) (member : entry ∈ put key value entries) :
    entry = (key, value) ∨ entry ∈ entries := by
  induction entries with
  | nil => simpa [put] using member
  | cons first rest induction =>
    simp only [put] at member
    split at member
    · simpa using member
    · exact (List.mem_cons.1 member).imp id (List.mem_cons_of_mem first)
    · rcases List.mem_cons.1 member with same | later
      · exact Or.inr (same ▸ List.mem_cons_self)
      · exact (induction later).imp id (List.mem_cons_of_mem first)

theorem pairwise_put [TransOrd Key] (key : Key) (value : Value) (entries : List (Key × Value))
    (sorted : entries.Pairwise fun a b => compare a.1 b.1 = .lt) :
    (put key value entries).Pairwise fun a b => compare a.1 b.1 = .lt := by
  induction entries with
  | nil => exact List.pairwise_singleton ..
  | cons first rest induction =>
    have parts := List.pairwise_cons.1 sorted
    simp only [put]
    split
    · next less =>
      refine List.pairwise_cons.2 ⟨fun entry member => ?_, sorted⟩
      rcases List.mem_cons.1 member with same | later
      · exact same ▸ less
      · exact TransCmp.lt_trans less (parts.1 entry later)
    · next equal =>
      exact List.pairwise_cons.2
        ⟨fun entry member => TransCmp.lt_of_eq_of_lt equal (parts.1 entry member), parts.2⟩
    · next greater =>
      refine List.pairwise_cons.2 ⟨fun entry member => ?_, induction parts.2⟩
      rcases key_of_mem_put key value rest entry member with same | later
      · exact same ▸ OrientedCmp.lt_of_gt greater
      · exact parts.1 entry later

/-- The map in which `key` has the given value and every other key what it had. -/
def insert [TransOrd Key] (key : Key) (value : Value) (map : SortedMap Key Value) :
    SortedMap Key Value :=
  ⟨put key value map.toList, pairwise_put key value map.toList map.sorted⟩

/-- The map that gives every key of a set the same value. -/
def const (value : Value) (keys : SortedSet Key) : SortedMap Key Value :=
  ⟨keys.toList.map fun key => (key, value), List.pairwise_map.2 keys.sorted⟩

section Lawful

variable [BEq Key] [LawfulBEq Key]

omit [LawfulBEq Key] in
@[simp]
theorem get?_empty (key : Key) : (∅ : SortedMap Key Value).get? key = none := rfl

omit [Ord Key] in
private theorem lookup_cons_eq_ite [DecidableEq Key] (key other : Key) (value : Value)
    (rest : List (Key × Value)) :
    ((key, value) :: rest).lookup other =
      if other = key then some value else rest.lookup other := by
  by_cases same : other = key
  · simp [same]
  · simp [List.lookup_cons, same, beq_eq_false_iff_ne.2 same]

private theorem lookup_put [DecidableEq Key] [LawfulEqOrd Key] (key other : Key) (value : Value)
    (entries : List (Key × Value)) :
    (put key value entries).lookup other =
      if other = key then some value else entries.lookup other := by
  induction entries with
  | nil => simp [put, lookup_cons_eq_ite]
  | cons first rest induction =>
    obtain ⟨head, held⟩ := first
    simp only [put]
    split
    · simp [lookup_cons_eq_ite]
    · next equal =>
      have heads : key = head := LawfulEqCmp.eq_of_compare equal
      subst heads
      simp only [lookup_cons_eq_ite]
      split <;> rfl
    · next greater =>
      have distinct : key ≠ head := fun same => by simp [same, ReflCmp.compare_self] at greater
      by_cases same : other = head
      · subst same
        simp [Ne.symm distinct]
      · simp [lookup_cons_eq_ite, same, induction]

theorem get?_insert [DecidableEq Key] [TransOrd Key] [LawfulEqOrd Key] (map : SortedMap Key Value)
    (key other : Key)
    (value : Value) :
    (map.insert key value).get? other = if other = key then some value else map.get? other :=
  lookup_put key other value map.toList

@[simp]
theorem get?_insert_self [DecidableEq Key] [TransOrd Key] [LawfulEqOrd Key]
    (map : SortedMap Key Value) (key : Key)
    (value : Value) : (map.insert key value).get? key = some value := by
  simp [get?_insert]

private theorem lookup_eq_some_iff [DecidableEq Key] [TransOrd Key] (entries : List (Key × Value))
    (sorted : entries.Pairwise fun a b => compare a.1 b.1 = .lt) (key : Key) (value : Value) :
    entries.lookup key = some value ↔ (key, value) ∈ entries := by
  induction entries with
  | nil => simp
  | cons first rest induction =>
    obtain ⟨head, held⟩ := first
    have parts := List.pairwise_cons.1 sorted
    by_cases same : key = head
    · subst same
      have absent : (key, value) ∉ rest := fun member => by
        have less := parts.1 _ member
        simp [ReflCmp.compare_self] at less
      simp [absent, eq_comm]
    · simp [lookup_cons_eq_ite, same, induction parts.2]

theorem get?_eq_some_iff [DecidableEq Key] [TransOrd Key] {map : SortedMap Key Value} {key : Key}
    {value : Value} :
    map.get? key = some value ↔ (key, value) ∈ map.toList :=
  lookup_eq_some_iff map.toList map.sorted key value

/-- A map is determined by what is found in it. -/
theorem ext_of_get? [DecidableEq Key] [TransOrd Key] {left right : SortedMap Key Value}
    (same : ∀ key, left.get? key = right.get? key) : left = right := by
  have nodup : ∀ map : SortedMap Key Value, map.toList.Nodup := fun map =>
    map.sorted.imp fun {a b} less equal => by simp [equal, ReflCmp.compare_self] at less
  have entries : left.toList.Perm right.toList := by
    rw [List.perm_ext_iff_of_nodup (nodup left) (nodup right)]
    intro entry
    rw [← get?_eq_some_iff, ← get?_eq_some_iff, same]
  apply ext
  apply entries.eq_of_pairwise _ left.sorted right.sorted
  intro a b _ _ less greater
  exact absurd (TransCmp.lt_trans less greater) (by simp [ReflCmp.compare_self])

theorem get?_const [DecidableEq Key] [TransOrd Key] [LawfulEqOrd Key] (value : Value)
    (keys : SortedSet Key)
    (key : Key) :
    (const value keys).get? key = if key ∈ keys then some value else none := by
  split
  · next member =>
    exact get?_eq_some_iff.2 (List.mem_map.2 ⟨key, member, rfl⟩)
  · next absent =>
    cases found : (const value keys).get? key with
    | none => rfl
    | some held =>
      obtain ⟨other, member, same⟩ := List.mem_map.1 (get?_eq_some_iff.1 found)
      cases same
      exact absurd member absent

end Lawful

end SortedMap

end StrongLL
