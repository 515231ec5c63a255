import StrongLL.Order.SortedSet

/-!
# Finding an element by halving

The place of an element in a sorted set can be found without passing over everything before it. The
places where it can stand are halved until one is left, and the element there is compared with it.
The list is strictly increasing, so an element stands behind the middle or on it exactly if the
middle one is not greater, and no place is found for an element that is not in the set.
-/

namespace StrongLL

set_option autoImplicit false

open Std

namespace SortedSet

variable {Item : Type} [Ord Item]

/-- The place that is left when the given number of places from `base` on is halved again and again,
each time towards the element. -/
def narrow (set : SortedSet Item) (x : Item) (base size : Nat) : Nat :=
  if 1 < size then
    if set.toList[base + size / 2]?.any fun middle => (compare middle x).isLE then
      set.narrow x (base + size / 2) (size - size / 2)
    else set.narrow x base (size - size / 2)
  else base
termination_by size

/-- The place of an element, found by halving. -/
def bisect? (set : SortedSet Item) (x : Item) : Option Nat :=
  let place := set.narrow x 0 set.size
  if set.toList[place]?.any fun found => (compare found x).isEq then some place else none

variable {set : SortedSet Item} {x : Item} {place : Nat}

section Lawful

variable [TransOrd Item]

/-- What stands at a place of the set is not greater than an element exactly if the place is not
behind that of the element. -/
theorem any_isLE_iff {middle : Nat} (found : set.toList[place]? = some x)
    (bound : middle < set.toList.length) :
    set.toList[middle]?.any (fun other => (compare other x).isLE) = true ↔ middle ≤ place := by
  obtain ⟨foundBound, rfl⟩ := List.getElem?_eq_some_iff.1 found
  have increasing := List.pairwise_iff_getElem.1 set.sorted
  rw [List.getElem?_eq_getElem bound, Option.any_some]
  rcases Nat.lt_trichotomy middle place with earlier | same | later
  · rw [increasing middle place bound foundBound earlier]
    exact ⟨fun _ => Nat.le_of_lt earlier, fun _ => rfl⟩
  · subst same
    rw [compare_self]
    exact ⟨fun _ => Nat.le_refl middle, fun _ => rfl⟩
  · rw [OrientedCmp.gt_of_lt (increasing place middle foundBound bound later)]
    exact ⟨nofun, fun before => absurd later (Nat.not_lt.2 before)⟩

theorem narrow_eq {base size : Nat} (found : set.toList[place]? = some x) (lower : base ≤ place)
    (upper : place < base + size) (within : base + size ≤ set.toList.length) :
    set.narrow x base size = place := by
  fun_induction narrow set x base size with
  | case1 base size long less induction =>
      have before := (any_isLE_iff found (by omega)).1 less
      exact induction before (by omega) (by omega)
  | case2 base size long greater induction =>
      have behind := mt (any_isLE_iff found (by omega)).2 greater
      exact induction lower (by omega) (by omega)
  | case3 base size short => omega

/-- Halving finds an element exactly where it stands. -/
theorem bisect?_eq_some_iff [LawfulEqOrd Item] :
    set.bisect? x = some place ↔ set.toList[place]? = some x := by
  constructor
  · intro answered
    rw [bisect?] at answered
    split at answered
    · next same =>
        cases answered
        obtain ⟨other, found, equal⟩ := (Option.any_eq_true _ _).1 same
        rw [found, LawfulEqCmp.eq_of_compare (Ordering.isEq_iff_eq_eq.1 equal)]
    · exact nomatch answered
  · intro found
    obtain ⟨inside, _⟩ := List.getElem?_eq_some_iff.1 found
    have last : set.narrow x 0 set.toList.length = place :=
      narrow_eq found (Nat.zero_le place) (by omega) (by omega)
    rw [bisect?, size, last, found, if_pos]
    rw [Option.any_some, compare_self]
    rfl

end Lawful

end SortedSet

end StrongLL
