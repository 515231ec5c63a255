import StrongLL.Proofs.Table.Halting

/-!
# When there is a table

Rules are entered one after another until one of them meets a cell that is taken. What was entered
before is known to be in the cells, so the cell belongs to an earlier rule of the same nonterminal,
and both rules apply before its tuple. Rules are numbered without repetition, so the two differ: a
grammar has a table exactly if no tuple lets two of its rules be applied to one nonterminal. Which
of several conflicts is met first is not looked at here.
-/

namespace StrongLL

set_option autoImplicit false

theorem Row.get?_of_taken? {row : Row} {tuples : TupleSet} {tuple : Tuple} {index : Nat}
    (taken : row.taken? tuples = some (tuple, index)) :
    tuple ∈ tuples ∧ row.get? tuple = some index := by
  obtain ⟨found, member, cell⟩ := List.exists_of_findSome?_eq_some taken
  obtain ⟨number, known, same⟩ := Option.map_eq_some_iff.1 cell
  cases same
  exact ⟨member, known⟩

theorem Rows.taken_of_enter {rows : Rows} {rule : Rule} {index other : Nat} {tuples : TupleSet}
    {tuple : Tuple} (refused : rows.enter rule index tuples = .error (tuple, other)) :
    tuple ∈ tuples ∧ (rows.row rule.left).get? tuple = some other := by
  unfold Rows.enter at refused
  split at refused
  · next taken found =>
      cases refused
      exact Row.get?_of_taken? found
  · exact nomatch refused

/-- Where entering rules comes to an end: those before were entered, and the next one meets a cell
that is taken. -/
structure Refusal (g : Grammar) (k : Nat) (lookahead : Rule → Option TupleSet)
    (entries : List (Rule × Nat)) (rows : Rows) where
  before : List (Rule × Nat)
  rule : Rule
  index : Nat
  after : List (Rule × Nat)
  reached : Rows
  tuples : TupleSet
  tuple : Tuple
  other : Nat
  split : entries = before ++ (rule, index) :: after
  filled : g.fillRows k lookahead before rows = .ok reached
  known : lookahead rule = some tuples
  refused : reached.enter rule index tuples = .error (tuple, other)

namespace Refusal

variable {g : Grammar} {k : Nat} {lookahead : Rule → Option TupleSet}
  {entries : List (Rule × Nat)} {rows next : Rows}

/-- The conflict names the refused rule as the second one, and as the first one the rule whose
number is in the cell. -/
def cause (refusal : Refusal g k lookahead entries rows) : TableError :=
  .conflict ⟨k, refusal.rule.left, refusal.tuple,
    ((RuleOrder.ofGrammar g).rule? refusal.other).getD refusal.rule, refusal.rule⟩

/-- The same end, seen from one entry earlier. -/
def behind (refusal : Refusal g k lookahead entries next) (entry : Rule × Nat)
    (passes : ∀ rest,
      g.fillRows k lookahead (entry :: rest) rows = g.fillRows k lookahead rest next) :
    Refusal g k lookahead (entry :: entries) rows :=
  { refusal with
    before := entry :: refusal.before
    split := congrArg (entry :: ·) refusal.split
    filled := (passes refusal.before).trans refusal.filled }

end Refusal

namespace Grammar

variable {g : Grammar} {k : Nat}

/-- When not all rules can be entered, one of them is refused. -/
theorem exists_refusal {lookahead : Rule → Option TupleSet} {entries : List (Rule × Nat)}
    {rows : Rows} {cause : TableError}
    (failed : g.fillRows k lookahead entries rows = .error cause) :
    ∃ refusal : Refusal g k lookahead entries rows, cause = refusal.cause := by
  induction entries generalizing rows with
  | nil => exact nomatch failed
  | cons entry entries induction =>
      obtain ⟨rule, index⟩ := entry
      simp only [fillRows] at failed
      split at failed
      · next unknown =>
          obtain ⟨refusal, same⟩ := induction failed
          exact ⟨refusal.behind (rule, index) fun rest => by simp only [fillRows, unknown], same⟩
      · next tuples known =>
          split at failed
          · next entered done =>
              obtain ⟨refusal, same⟩ := induction failed
              exact ⟨refusal.behind (rule, index) fun rest => by simp only [fillRows, known, done],
                same⟩
          · next tuple other refused =>
              cases failed
              exact ⟨⟨[], rule, index, entries, rows, tuples, tuple, other, rfl, rfl, known,
                refused⟩, rfl⟩

/-- No two rules of one nonterminal apply before the same tuple. -/
def IsStrongLL (g : Grammar) (k : Nat) : Prop :=
  ¬∃ first ∈ g.rules, ∃ second ∈ g.rules, first ≠ second ∧ first.left = second.left ∧
    ∃ tuple, g.Applies k first tuple ∧ g.Applies k second tuple

theorem rules_of_split {before after : List (Rule × Nat)} {rule : Rule} {index : Nat}
    (split : (RuleOrder.ofGrammar g).numbered = before ++ (rule, index) :: after) :
    g.rules.toList = before.map (·.1) ++ rule :: after.map (·.1) := by
  have listed := congrArg (List.map (·.1)) split
  rw [RuleOrder.numbered, List.zipIdx_map_fst, List.map_append, List.map_cons] at listed
  exact listed

theorem not_mem_before {before after : List (Rule × Nat)} {rule : Rule} {index other : Nat}
    (split : (RuleOrder.ofGrammar g).numbered = before ++ (rule, index) :: after) :
    (rule, other) ∉ before := by
  intro earlier
  have distinct := g.rules.nodup_toList
  rw [rules_of_split split, List.nodup_append] at distinct
  exact distinct.2.2 rule (List.mem_map_of_mem (f := (·.1)) earlier) rule List.mem_cons_self rfl

theorem fillRows_of_table_error (positive : 0 < k) {cause : TableError}
    (failed : g.table k = .error cause) :
    g.fillRows k (ruleLookahead k (g.first k) (g.follow k)) (RuleOrder.ofGrammar g).numbered
      (.const ∅ g.nonterminals) = .error cause := by
  rw [table_eq_map_fillRows positive] at failed
  cases filled : g.fillRows k (ruleLookahead k (g.first k) (g.follow k))
      (RuleOrder.ofGrammar g).numbered (.const ∅ g.nonterminals) with
  | ok rows =>
      rw [filled] at failed
      exact nomatch failed
  | error found =>
      rw [filled] at failed
      cases failed
      rfl

/-- When there is no table, two rules of one nonterminal are reported that apply before the tuple. -/
theorem conflict_of_table_error (positive : 0 < k) {cause : TableError}
    (failed : g.table k = .error cause) :
    ∃ found, cause = .conflict found ∧ found.first ∈ g.rules ∧ found.second ∈ g.rules ∧
      found.first ≠ found.second ∧ found.first.left = found.second.left ∧
        g.Applies k found.first found.lookahead ∧ g.Applies k found.second found.lookahead := by
  obtain ⟨refusal, rfl⟩ := exists_refusal (fillRows_of_table_error positive failed)
  obtain ⟨inside, cell⟩ := Rows.taken_of_enter refusal.refused
  have entered := filled_fillRows (Rows.filled_const _ g.nonterminals) refusal.filled
  rw [List.nil_append] at entered
  -- The cell was filled by a rule that was entered before.
  obtain ⟨first, others, earlier, left, knownFirst, insideFirst⟩ :=
    (entered refusal.rule.left refusal.tuple refusal.other).1 cell
  have listed : ∀ entry ∈ refusal.before ++ (refusal.rule, refusal.index) :: refusal.after,
      (RuleOrder.ofGrammar g).rule? entry.2 = some entry.1 := by
    intro entry member
    apply RuleOrder.mem_numbered_iff.1
    rw [refusal.split]
    exact member
  have named := listed _ (List.mem_append_left _ earlier)
  have namedSecond := listed _ (List.mem_append_right _ List.mem_cons_self)
  have different : first ≠ refusal.rule := by
    intro same
    rw [same] at earlier
    exact not_mem_before refusal.split earlier
  refine ⟨_, rfl, ?_⟩
  simp only [named, Option.getD_some]
  exact ⟨RuleOrder.exists_rule?_iff.1 ⟨_, named⟩, RuleOrder.exists_rule?_iff.1 ⟨_, namedSecond⟩,
    different, left, mem_ruleLookahead_iff.1 ⟨others, knownFirst, insideFirst⟩,
    mem_ruleLookahead_iff.1 ⟨refusal.tuples, refusal.known, inside⟩⟩

/-- A grammar has a table exactly if no two rules of one nonterminal apply before the same tuple. -/
theorem exists_table_iff (positive : 0 < k) :
    (∃ table, g.table k = .ok table) ↔ g.IsStrongLL k := by
  constructor
  · rintro ⟨table, built⟩ ⟨first, firstMember, second, secondMember, different, left, tuple,
      firstApplies, secondApplies⟩
    exact different
      (Table.rule_unique built firstMember secondMember left firstApplies secondApplies)
  · intro strong
    cases result : g.table k with
    | ok table => exact ⟨table, rfl⟩
    | error cause =>
        obtain ⟨found, _, first, second, different, left, applies, appliesSecond⟩ :=
          conflict_of_table_error positive result
        exact absurd ⟨found.first, first, found.second, second, different, left, found.lookahead,
          applies, appliesSecond⟩ strong

/-- There is a table exactly if no two rules of one nonterminal can be applied, each in a sentential
form of its own, before words with the same first `k` characters. The cell of a nonterminal and a
tuple then holds the number of the rule that can be applied before a word with that tuple. -/
theorem table_decides_strongLL (g : Grammar) (k : Nat) (positive : 1 ≤ k) :
    ((∃ table, g.table k = .ok table) ↔
        ¬∃ first ∈ g.rules, ∃ second ∈ g.rules, first ≠ second ∧ first.left = second.left ∧
          ∃ behind other word found, g.Context first.left behind ∧ g.Context second.left other ∧
            g.DerivesWord (first.body ++ behind) word ∧
            g.DerivesWord (second.body ++ other) found ∧ Tuple.cut k word = Tuple.cut k found) ∧
      ∀ table, g.table k = .ok table → ∀ n tuple index, table.get? n tuple = some index ↔
        ∃ rule, table.order.rule? index = some rule ∧ rule.left = n ∧
          ∃ behind word, g.Context n behind ∧ g.DerivesWord (rule.body ++ behind) word ∧
            Tuple.cut k word = tuple := by
  constructor
  · rw [exists_table_iff positive]
    apply not_congr
    constructor
    · rintro ⟨first, firstMember, second, secondMember, different, left, tuple,
        ⟨behind, word, context, derives, cut⟩, ⟨other, found, contextOther, derivesOther, same⟩⟩
      exact ⟨first, firstMember, second, secondMember, different, left, behind, other, word, found,
        context, contextOther, derives, derivesOther, cut.trans same.symm⟩
    · rintro ⟨first, firstMember, second, secondMember, different, left, behind, other, word, found,
        context, contextOther, derives, derivesOther, same⟩
      exact ⟨first, firstMember, second, secondMember, different, left, Tuple.cut k word,
        ⟨behind, word, context, derives, rfl⟩,
        ⟨other, found, contextOther, derivesOther, same.symm⟩⟩
  · intro table built n tuple index
    rw [Table.get?_eq_some_iff_applies built]
    constructor
    · rintro ⟨rule, known, rfl, applies⟩
      exact ⟨rule, known, rfl, applies⟩
    · rintro ⟨rule, known, rfl, applies⟩
      exact ⟨rule, known, rfl, applies⟩

end Grammar

/-- The empty rule of nested parentheses is in the cell of the closing one, because a sentential
form lets it be applied there; no other rule can be. -/
theorem nested_table_decides :
    1 ≤ 1 ∧ nested.table 1 = .ok nestedTable ∧
      (¬∃ first ∈ nested.rules, ∃ second ∈ nested.rules, first ≠ second ∧
        first.left = second.left ∧ ∃ behind other word found, nested.Context first.left behind ∧
          nested.Context second.left other ∧ nested.DerivesWord (first.body ++ behind) word ∧
          nested.DerivesWord (second.body ++ other) found ∧
            Tuple.cut 1 word = Tuple.cut 1 found) ∧
      ∃ rule, nestedTable.order.rule? 1 = some rule ∧ rule.left = .named "S" ∧
        ∃ behind word, nested.Context (.named "S") behind ∧
          nested.DerivesWord (rule.body ++ behind) word ∧ Tuple.cut 1 word = [.char ')'] := by
  obtain ⟨decides, cells⟩ := Grammar.table_decides_strongLL nested 1 (Nat.le_refl 1)
  have cell : nestedTable.get? (.named "S") [.char ')'] = some 1 := by
    cbv
  exact ⟨Nat.le_refl 1, nested_table, decides.1 ⟨nestedTable, nested_table⟩,
    (cells nestedTable nested_table (.named "S") [.char ')'] 1).1 cell⟩

end StrongLL
