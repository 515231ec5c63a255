import Mathlib.Data.List.Infix

/-!
# Limited runs

A search may be allowed only so many moves of one kind in a row. `RunsWithin` says of a whole list
that it keeps to the limit. A search sees its moves one at a time and counts, so the same is said of
what is still to come after a number of items of the kind: an item of the kind takes one from what
is left, and any other item gives the whole limit back.
-/

namespace StrongLL

set_option autoImplicit false

variable {Item : Type}

/-- No more consecutive items are of the kind than the limit allows. -/
def RunsWithin (kind : Item → Bool) (limit : Nat) (items : List Item) : Prop :=
  ∀ run, run <:+: items → (∀ item ∈ run, kind item = true) → run.length ≤ limit

/-- The same of items that stand behind a number of items of the kind. -/
structure RunsOn (kind : Item → Bool) (limit spent : Nat) (items : List Item) : Prop where
  opening : ∀ run, run <+: items → (∀ item ∈ run, kind item = true) → spent + run.length ≤ limit
  within : RunsWithin kind limit items

variable {kind : Item → Bool} {limit spent : Nat} {item : Item} {items : List Item}

theorem runsOn_zero_iff : RunsOn kind limit 0 items ↔ RunsWithin kind limit items := by
  constructor
  · exact RunsOn.within
  · intro within
    refine ⟨fun run opens counted => ?_, within⟩
    rw [Nat.zero_add]
    exact within run opens.isInfix counted

theorem RunsOn.spent_le (runs : RunsOn kind limit spent items) : spent ≤ limit :=
  runs.opening [] List.nil_prefix nofun

theorem runsOn_nil_iff : RunsOn kind limit spent ([] : List Item) ↔ spent ≤ limit := by
  constructor
  · exact RunsOn.spent_le
  · intro less
    constructor
    · intro run opens _
      rw [List.prefix_nil.1 opens]
      exact less
    · intro run inside _
      rw [List.infix_nil.1 inside]
      exact Nat.zero_le limit

theorem runsOn_cons_iff_of_kind (counted : kind item = true) :
    RunsOn kind limit spent (item :: items) ↔ RunsOn kind limit (spent + 1) items := by
  constructor
  · intro runs
    constructor
    · intro run opens same
      have whole := runs.opening (item :: run) ((List.prefix_cons_inj item).2 opens)
        (List.forall_mem_cons.2 ⟨counted, same⟩)
      rw [List.length_cons] at whole
      omega
    · intro run inside
      exact runs.within run (List.infix_cons inside)
  · intro runs
    have opening : ∀ run, run <+: item :: items → (∀ other ∈ run, kind other = true) →
        spent + run.length ≤ limit := by
      intro run opens same
      rcases List.prefix_cons_iff.1 opens with empty | ⟨rest, whole, behind⟩
      · rw [empty, List.length_nil]
        exact Nat.le_of_succ_le runs.spent_le
      · rw [whole] at same
        have later := runs.opening rest behind (List.forall_mem_cons.1 same).2
        rw [whole, List.length_cons]
        omega
    refine ⟨opening, fun run inside same => ?_⟩
    rcases List.infix_cons_iff.1 inside with opens | behind
    · exact Nat.le_of_add_left_le (opening run opens same)
    · exact runs.within run behind same

theorem runsOn_cons_iff_of_other (other : kind item = false) :
    RunsOn kind limit spent (item :: items) ↔ spent ≤ limit ∧ RunsOn kind limit 0 items := by
  have empty : ∀ run, run <+: item :: items → (∀ found ∈ run, kind found = true) → run = [] := by
    intro run opens same
    rcases List.prefix_cons_iff.1 opens with nothing | ⟨rest, whole, _⟩
    · exact nothing
    · rw [whole] at same
      exact absurd (List.forall_mem_cons.1 same).1 (by simp [other])
  rw [runsOn_zero_iff]
  constructor
  · intro runs
    exact ⟨runs.spent_le, fun run inside => runs.within run (List.infix_cons inside)⟩
  · intro ⟨less, within⟩
    constructor
    · intro run opens same
      rw [empty run opens same]
      exact less
    · intro run inside same
      rcases List.infix_cons_iff.1 inside with opens | behind
      · rw [empty run opens same]
        exact Nat.zero_le limit
      · exact within run behind same

/-- What a search makes of the limit at an item: one of the kind takes from what is left of it. -/
theorem runsOn_cons_iff :
    RunsOn kind limit spent (item :: items) ↔
      spent ≤ limit ∧ (kind item = true → spent < limit) ∧
        RunsOn kind limit (if kind item then spent + 1 else 0) items := by
  cases counted : kind item with
  | true =>
      rw [runsOn_cons_iff_of_kind counted]
      simp only [if_true, true_implies]
      exact ⟨fun runs => ⟨Nat.le_of_succ_le runs.spent_le, runs.spent_le, runs⟩, fun all => all.2.2⟩
  | false =>
      rw [runsOn_cons_iff_of_other counted]
      simp

theorem RunsWithin.reverse (within : RunsWithin kind limit items) :
    RunsWithin kind limit items.reverse := by
  intro run inside counted
  have mirrored : run.reverse <:+: items := List.reverse_infix.1 (by rwa [List.reverse_reverse])
  rw [← List.length_reverse]
  exact within run.reverse mirrored fun item member => counted item (List.mem_reverse.1 member)

/-- Every item that is not of the kind makes room for one more run. -/
theorem RunsOn.length_lt (runs : RunsOn kind limit spent items) :
    spent + items.length < (items.countP (!kind ·) + 1) * (limit + 1) := by
  induction items generalizing spent with
  | nil =>
      have short := runs.spent_le
      rw [List.countP_nil, List.length_nil]
      omega
  | cons item items induction =>
      rcases runsOn_cons_iff.1 runs with ⟨short, _, later⟩
      have shorter := induction later
      cases counted : kind item with
      | true =>
          rw [List.countP_cons_of_neg (by simp [counted]), List.length_cons]
          rw [counted, if_pos rfl] at shorter
          omega
      | false =>
          rw [List.countP_cons_of_pos (by simp [counted]), List.length_cons, Nat.succ_mul]
          rw [counted, if_neg Bool.false_ne_true] at shorter
          omega

/-- A list that does not end inside a run is as long as its other items with a run before each. -/
theorem RunsWithin.length_le (within : RunsWithin kind limit items)
    (ends : ∀ item ∈ items.getLast?, kind item = false) :
    items.length ≤ items.countP (!kind ·) * (limit + 1) := by
  rcases List.eq_nil_or_concat' items with empty | ⟨front, last, whole⟩
  · rw [empty, List.length_nil]
    exact Nat.zero_le _
  · rw [whole] at within ends ⊢
    have other := ends last (by simp)
    have shorter : RunsWithin kind limit front := fun run inside =>
      within run (inside.trans (List.prefix_append _ _).isInfix)
    have fewer := (runsOn_zero_iff.2 shorter).length_lt
    rw [List.countP_append, List.countP_singleton, other, List.length_append, List.length_singleton]
    simp only [Bool.not_false, if_true]
    omega

end StrongLL
