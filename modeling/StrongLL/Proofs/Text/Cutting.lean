import StrongLL.Text.Basic

/-!
# Where a text is cut

The pieces between the occurrences of a mark hold no mark, and putting marks between texts without
marks gives these texts as its pieces. Cutting at a pattern finds its first occurrence, and finds one
exactly if the text holds the pattern. Nothing is replaced in a text that does not.
-/

namespace StrongLL.Text

set_option autoImplicit false

section Pieces

variable {mark : Char} {text piece : Text}

theorem pieces_eq_splitOn (mark : Char) (text : Text) : pieces mark text = text.splitOn mark := by
  induction text with
  | nil => rfl
  | cons c rest induction =>
      rw [pieces, List.splitOn_cons_eq_if_modifyHead, ← induction]
      by_cases same : c = mark
      · simp [same]
      · rw [if_neg same, if_neg (by simpa using same)]
        obtain ⟨first, more, split⟩ := List.exists_cons_of_ne_nil (pieces_ne_nil mark rest)
        rw [split]
        rfl

/-- Texts without marks are the pieces of the text that has a mark between any two of them. -/
theorem pieces_intercalate {texts : List Text} (free : ∀ text ∈ texts, mark ∉ text)
    (filled : texts ≠ []) : pieces mark ([mark].intercalate texts) = texts := by
  rw [pieces_eq_splitOn, List.splitOn_intercalate mark free filled]

theorem pieces_cons_mark (mark : Char) (rest : Text) :
    pieces mark (mark :: rest) = [] :: pieces mark rest := by
  rw [pieces, if_pos rfl]

theorem pieces_cons {c : Char} (other : c ≠ mark) (rest : Text) :
    ∃ first more, pieces mark rest = first :: more ∧
      pieces mark (c :: rest) = (c :: first) :: more := by
  obtain ⟨first, more, split⟩ := List.exists_cons_of_ne_nil (pieces_ne_nil mark rest)
  refine ⟨first, more, split, ?_⟩
  rw [pieces, if_neg other, split]

theorem pieces_append_mark (mark : Char) (first rest : Text) :
    pieces mark (first ++ mark :: rest) = pieces mark first ++ pieces mark rest := by
  induction first with
  | nil => exact pieces_cons_mark mark rest
  | cons c first induction =>
      rw [List.cons_append]
      by_cases same : c = mark
      · rw [same, pieces_cons_mark, pieces_cons_mark, induction, List.cons_append]
      · rcases pieces_cons same first with ⟨head, more, split, joined⟩
        rw [pieces, if_neg same, induction, split, joined, List.cons_append]
        rfl

/-- Texts with marks between them have the pieces of all of the texts. -/
theorem pieces_intercalate_eq_flatMap {texts : List Text} (filled : texts ≠ []) :
    pieces mark ([mark].intercalate texts) = texts.flatMap (pieces mark) := by
  induction texts with
  | nil => exact absurd rfl filled
  | cons first more induction =>
      cases more with
      | nil => simp
      | cons second more =>
          rw [List.intercalate_cons_cons, List.append_assoc, List.singleton_append,
            pieces_append_mark, induction (List.cons_ne_nil second more)]
          rfl

/-- The characters of a piece are characters of the text other than the mark. -/
theorem mem_of_mem_pieces {c : Char} (member : piece ∈ pieces mark text) (inside : c ∈ piece) :
    c ∈ text ∧ c ≠ mark := by
  induction text generalizing piece with
  | nil =>
      rw [List.mem_singleton.1 member] at inside
      exact absurd inside List.not_mem_nil
  | cons head rest induction =>
      have later : ∀ other ∈ pieces mark rest, c ∈ other → c ∈ head :: rest ∧ c ≠ mark :=
        fun other member inside =>
          ⟨List.mem_cons_of_mem _ (induction member inside).1, (induction member inside).2⟩
      by_cases same : head = mark
      · subst same
        rw [pieces_cons_mark] at member
        rcases List.mem_cons.1 member with rfl | member
        · exact absurd inside List.not_mem_nil
        · exact later piece member inside
      · obtain ⟨first, more, split, joined⟩ := pieces_cons same rest
        rw [split] at later
        rw [joined] at member
        rcases List.mem_cons.1 member with rfl | member
        · rcases List.mem_cons.1 inside with rfl | inner
          · exact ⟨List.mem_cons_self, same⟩
          · exact later first List.mem_cons_self inner
        · exact later piece (List.mem_cons_of_mem _ member) inside

end Pieces

section Patterns

variable {pattern text before after : Text}

theorem eq_of_cutAt? (found : cutAt? pattern text = some (before, after)) :
    text = before ++ pattern ++ after := by
  induction text generalizing before with
  | nil => exact nomatch found
  | cons c rest induction =>
      rw [cutAt?] at found
      split at found
      · next here =>
          cases found
          rw [List.nil_append]
          exact (List.prefix_iff_eq_append.1 (List.isPrefixOf_iff_prefix.1 here)).symm
      · obtain ⟨⟨inner, last⟩, foundInner, same⟩ := Option.map_eq_some_iff.1 found
        cases same
        rw [List.cons_append, List.cons_append, ← induction foundInner]

/-- No occurrence begins before the one that is found. -/
theorem length_le_of_cutAt? (found : cutAt? pattern text = some (before, after))
    {other last : Text} (occurs : text = other ++ pattern ++ last) :
    before.length ≤ other.length := by
  induction text generalizing before other with
  | nil => exact nomatch found
  | cons c rest induction =>
      rw [cutAt?] at found
      split at found
      · cases found
        exact Nat.zero_le _
      · next elsewhere =>
          obtain ⟨⟨inner, _⟩, foundInner, same⟩ := Option.map_eq_some_iff.1 found
          cases same
          cases other with
          | nil =>
              rw [List.nil_append] at occurs
              exact absurd (List.isPrefixOf_iff_prefix.2 ⟨last, occurs.symm⟩) elsewhere
          | cons head other =>
              rw [List.cons_append, List.cons_append, List.cons.injEq] at occurs
              exact Nat.succ_le_succ (induction foundInner occurs.2)

theorem cutAt?_eq_none_iff (filled : pattern ≠ []) :
    cutAt? pattern text = none ↔ ¬pattern <:+: text := by
  induction text with
  | nil => simp [cutAt?, filled]
  | cons c rest induction =>
      rw [cutAt?, List.infix_cons_iff]
      by_cases here : pattern <+: c :: rest
      · rw [if_pos (List.isPrefixOf_iff_prefix.2 here)]
        simp [here]
      · rw [if_neg (mt List.isPrefixOf_iff_prefix.1 here), Option.map_eq_none_iff, induction]
        simp [here]

theorem replaceAll_eq_self (absent : ¬pattern <:+: text) (replacement : Text) :
    replaceAll pattern replacement text = text := by
  unfold replaceAll
  induction text with
  | nil => rfl
  | cons c rest induction =>
      obtain ⟨here, later⟩ := not_or.1 (mt List.infix_cons_iff.2 absent)
      rw [replaceFrom, if_neg (mt List.isPrefixOf_iff_prefix.1 here), induction later]

theorem holds_eq_false_iff (filled : pattern ≠ []) :
    holds pattern text = false ↔ ¬pattern <:+: text := by
  rw [holds, Option.isSome_eq_false_iff, Option.isNone_iff_eq_none, cutAt?_eq_none_iff filled]

end Patterns

end StrongLL.Text
