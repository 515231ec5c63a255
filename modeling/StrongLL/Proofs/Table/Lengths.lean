import StrongLL.Proofs.Table.Conflicts

/-!
# Lookahead lengths

Cutting a word to `k` characters and then to `j` of them is cutting it to `j` at once, as long as
one character is left to tell the empty word from the others. The sets for the length `j` are
therefore those for a greater length with every tuple cut, although the two computations need not
sweep equally often. Rules that a short tuple tells apart are told apart by a longer one: a grammar
has a table for all lengths from some length on, or for none, and the search for the smallest table
finds where they begin.
-/

namespace StrongLL

set_option autoImplicit false

theorem Tuple.take_cut {j k : Nat} (positive : 1 ≤ j) (shorter : j ≤ k) (word : Text) :
    (cut k word).take j = cut j word := by
  obtain ⟨j, rfl⟩ := Nat.exists_eq_add_of_le' positive
  obtain ⟨k, rfl⟩ := Nat.exists_eq_add_of_le' (Nat.le_trans positive shorter)
  cases word with
  | nil =>
      rw [cut_nil, cut_nil]
      simp [epsilon]
  | cons c rest =>
      have both : min j k = j := Nat.min_eq_left (Nat.le_of_succ_le_succ shorter)
      simp [cut, ofWord, List.take_take, both]

/-- The set with every tuple cut to its first `k` terminals. -/
def TupleSet.truncate (k : Nat) (set : TupleSet) : TupleSet :=
  .ofList (set.toList.map (·.take k))

theorem TupleSet.mem_truncate {k : Nat} {set : TupleSet} {tuple : Tuple} :
    tuple ∈ truncate k set ↔ ∃ whole ∈ set, whole.take k = tuple := by
  rw [truncate, SortedSet.mem_ofList, List.mem_map]
  rfl

namespace KnownSets

/-- The map has an entry for every nonterminal that owns a word, with the cuts of its words. -/
structure Cuts (k : Nat) (owns : NonTerminal → Text → Prop) (known : KnownSets) : Prop where
  known_iff : ∀ n, (∃ set, known.get? n = some set) ↔ ∃ word, owns n word
  mem_iff : ∀ n set, known.get? n = some set →
    ∀ tuple, tuple ∈ set ↔ ∃ word, owns n word ∧ Tuple.cut k word = tuple

/-- Of two maps with cuts of the same words, the shorter is the longer one with all tuples cut. -/
theorem Cuts.get?_eq_truncate {j k : Nat} {owns : NonTerminal → Text → Prop}
    {short long : KnownSets} (shortCuts : short.Cuts j owns) (longCuts : long.Cuts k owns)
    (positive : 1 ≤ j) (shorter : j ≤ k) (n : NonTerminal) :
    short.get? n = (long.get? n).map (TupleSet.truncate j) := by
  have same := (shortCuts.known_iff n).trans (longCuts.known_iff n).symm
  cases found : long.get? n with
  | none =>
      cases other : short.get? n with
      | none => rfl
      | some set =>
          obtain ⟨_, known⟩ := same.1 ⟨set, other⟩
          rw [found] at known
          exact nomatch known
  | some set =>
      obtain ⟨other, foundOther⟩ := same.2 ⟨set, found⟩
      rw [foundOther, Option.map_some, Option.some.injEq]
      apply SortedSet.ext_of_mem
      intro tuple
      rw [shortCuts.mem_iff n other foundOther, TupleSet.mem_truncate]
      constructor
      · rintro ⟨word, owned, rfl⟩
        exact ⟨_, (longCuts.mem_iff n set found _).2 ⟨word, owned, rfl⟩,
          Tuple.take_cut positive shorter word⟩
      · rintro ⟨whole, member, rfl⟩
        obtain ⟨word, owned, rfl⟩ := (longCuts.mem_iff n set found whole).1 member
        exact ⟨word, owned, (Tuple.take_cut positive shorter word).symm⟩

end KnownSets

namespace Grammar

variable {g : Grammar} {j k : Nat} {table : Table}

theorem cuts_first (g : Grammar) (k : Nat) :
    (g.first k).Cuts k fun n word => g.DerivesWord [.nonterminal n] word :=
  { known_iff := fun _ => first_known_iff
    mem_iff := fun _ _ found _ =>
      KnownSets.Only.mem_iff (sound_first g k) (closed_first g k).all found }

theorem cuts_follow (g : Grammar) (k : Nat) :
    (g.follow k).Cuts k fun n word => ∃ behind, g.Context n behind ∧ g.DerivesWord behind word where
  known_iff n := by
    rw [follow_known_iff]
    exact exists_comm
  mem_iff n set found tuple := by
    rw [mem_follow_iff found]
    constructor
    · exact fun ⟨behind, word, context, derives, cut⟩ => ⟨word, ⟨behind, context, derives⟩, cut⟩
    · exact fun ⟨word, ⟨behind, context, derives⟩, cut⟩ => ⟨behind, word, context, derives, cut⟩

theorem Applies.take {rule : Rule} {tuple : Tuple} (applies : g.Applies k rule tuple)
    (positive : 1 ≤ j) (shorter : j ≤ k) : g.Applies j rule (tuple.take j) := by
  obtain ⟨behind, word, context, derives, rfl⟩ := applies
  exact ⟨behind, word, context, derives, (Tuple.take_cut positive shorter word).symm⟩

theorem IsStrongLL.mono (strong : g.IsStrongLL j) (positive : 1 ≤ j) (shorter : j ≤ k) :
    g.IsStrongLL k := by
  rintro ⟨first, firstMember, second, secondMember, different, left, tuple, firstApplies,
    secondApplies⟩
  exact strong ⟨first, firstMember, second, secondMember, different, left, tuple.take j,
    firstApplies.take positive shorter, secondApplies.take positive shorter⟩

theorem exists_table_mono (positive : 1 ≤ j) (shorter : j ≤ k)
    (built : ∃ table, g.table j = .ok table) : ∃ table, g.table k = .ok table :=
  (exists_table_iff (Nat.le_trans positive shorter)).2
    (((exists_table_iff positive).1 built).mono positive shorter)

theorem tableFrom?_of_some {tries : Nat} (found : g.tableFrom? k tries = some table) :
    k ≤ table.k ∧ table.k < k + tries ∧ g.table table.k = .ok table ∧
      ∀ length, k ≤ length → length < table.k → ∃ cause, g.table length = .error cause := by
  induction tries generalizing k with
  | zero => exact nomatch found
  | succ tries induction =>
      rw [tableFrom?] at found
      cases built : g.table k with
      | ok first =>
          rw [built] at found
          cases found
          obtain ⟨_, same, _⟩ := Table.parts_of_built built
          rw [same]
          exact ⟨Nat.le_refl k, by omega, built, fun length after before => by omega⟩
      | error cause =>
          rw [built] at found
          obtain ⟨after, before, builtLater, fails⟩ := induction found
          refine ⟨by omega, by omega, builtLater, fun length start less => ?_⟩
          rcases Nat.eq_or_lt_of_le start with same | later
          · exact ⟨cause, same ▸ built⟩
          · exact fails length later less

theorem tableFrom?_eq_none_iff {tries : Nat} : g.tableFrom? k tries = none ↔
    ∀ length, k ≤ length → length < k + tries → ∃ cause, g.table length = .error cause := by
  induction tries generalizing k with
  | zero => exact ⟨fun _ length after before => by omega, fun _ => rfl⟩
  | succ tries induction =>
      rw [tableFrom?]
      cases built : g.table k with
      | ok first =>
          constructor
          · exact nofun
          · intro fails
            obtain ⟨cause, failed⟩ := fails k (Nat.le_refl k) (by omega)
            rw [built] at failed
            exact nomatch failed
      | error cause =>
          simp only [induction]
          constructor
          · intro fails length start before
            rcases Nat.eq_or_lt_of_le start with same | later
            · exact ⟨cause, same ▸ built⟩
            · exact fails length later (by omega)
          · exact fun fails length after before => fails length (by omega) (by omega)

/-- The FIRST and FOLLOW sets for a length are those for any greater one with every tuple cut, and
the same nonterminals are without an entry. A grammar with a table for some length has one for every
greater length. The table found by the search is the one for the smallest length that has any, and
none is found exactly if all lengths of the search fail. -/
theorem more_lookahead_never_hurts (g : Grammar) :
    (∀ j k, 1 ≤ j → j ≤ k →
      (∀ n, (g.first j).get? n = ((g.first k).get? n).map (TupleSet.truncate j)) ∧
        (∀ n, (g.follow j).get? n = ((g.follow k).get? n).map (TupleSet.truncate j)) ∧
        ((∃ table, g.table j = .ok table) → ∃ table, g.table k = .ok table)) ∧
      ∀ limit,
        (∀ table, g.smallestTable? limit = some table →
          1 ≤ table.k ∧ table.k ≤ limit ∧ g.table table.k = .ok table ∧
            (∀ k, 1 ≤ k → k < table.k → ∃ cause, g.table k = .error cause) ∧
            ∀ k, table.k ≤ k → ∃ larger, g.table k = .ok larger) ∧
        (g.smallestTable? limit = none ↔
          ∀ k, 1 ≤ k → k ≤ limit → ∃ cause, g.table k = .error cause) := by
  refine ⟨fun j k positive shorter => ⟨?_, ?_, exists_table_mono positive shorter⟩,
    fun limit => ⟨fun table found => ?_, ?_⟩⟩
  · exact (cuts_first g j).get?_eq_truncate (cuts_first g k) positive shorter
  · exact (cuts_follow g j).get?_eq_truncate (cuts_follow g k) positive shorter
  · obtain ⟨positive, before, built, fails⟩ := tableFrom?_of_some found
    exact ⟨positive, by omega, built, fails,
      fun k longer => exists_table_mono positive longer ⟨table, built⟩⟩
  · rw [smallestTable?, tableFrom?_eq_none_iff]
    constructor
    · exact fun fails k positive within => fails k positive (by omega)
    · exact fun fails k positive within => fails k positive (by omega)

end Grammar

/-- Words of one repeated character. -/
def repeated : Grammar :=
  .ofRules (.named "S")
    [⟨.named "S", [.terminal (.char 'a'), .nonterminal (.named "S")], by simp, by simp⟩,
      ⟨.named "S", [.terminal (.char 'a')], by simp, by simp⟩]

/-- The table for repeated characters: with two characters of lookahead the last one is known. -/
def repeatedTable : Table :=
  ⟨2, .ofGrammar repeated,
    ⟨[(.named "S", ⟨[([.char 'a'], 0), ([.char 'a', .char 'a'], 1)], by decide⟩)], by decide⟩⟩

theorem repeated_smallestTable? : repeated.smallestTable? 4 = some repeatedTable := by
  cbv

/-- One character does not tell the two rules apart, and from two on any number does. -/
theorem repeated_needs_two :
    1 ≤ 1 ∧ 1 ≤ 2 ∧ repeated.smallestTable? 4 = some repeatedTable ∧
      (∀ n, (repeated.first 1).get? n = ((repeated.first 2).get? n).map (TupleSet.truncate 1)) ∧
      (∃ cause, repeated.table 1 = .error cause) ∧ ∃ larger, repeated.table 9 = .ok larger := by
  obtain ⟨sets, search⟩ := repeated.more_lookahead_never_hurts
  obtain ⟨_, _, _, fails, succeeds⟩ := (search 4).1 repeatedTable repeated_smallestTable?
  exact ⟨by decide, by decide, repeated_smallestTable?, (sets 1 2 (by decide) (by decide)).1,
    fails 1 (by decide) (by decide), succeeds 9 (by decide)⟩

end StrongLL
