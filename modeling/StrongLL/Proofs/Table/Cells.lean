import StrongLL.Proofs.Lookahead.Follow
import StrongLL.Recognizer.TableMachine

/-!
# What the cells of a table hold

A rule applies before a tuple when some sentential form lets it: its left side stands before symbols
that, behind the body, derive a word with that tuple as its cut. A table that was built holds in the
cell of a nonterminal and a tuple the number of the one rule that applies there, and no number where
none applies. Two rules of one nonterminal never apply before the same tuple.
-/

namespace StrongLL

set_option autoImplicit false

namespace Row

theorem get?_fill (row : Row) (tuples : TupleSet) (index : Nat) (tuple : Tuple) :
    (row.fill tuples index).get? tuple = if tuple ∈ tuples then some index else row.get? tuple := by
  have general : ∀ (items : List Tuple) (row : Row),
      (items.foldl (fun row tuple => row.insert tuple index) row).get? tuple =
        if tuple ∈ items then some index else row.get? tuple := by
    intro items
    induction items with
    | nil => simp
    | cons item items induction =>
        intro row
        rw [List.foldl_cons, induction, SortedMap.get?_insert]
        by_cases same : tuple = item
        · simp [same]
        · simp [same]
  exact (general tuples.toList row).trans (if_congr Iff.rfl rfl rfl)

theorem get?_eq_none_of_taken? {row : Row} {tuples : TupleSet} (free : row.taken? tuples = none) :
    ∀ tuple ∈ tuples, row.get? tuple = none := by
  intro tuple member
  have absent := List.findSome?_eq_none_iff.1 free tuple member
  simpa using absent

end Row

namespace Rows

theorem get?_bind (rows : Rows) (n : NonTerminal) (tuple : Tuple) :
    (rows.get? n).bind (·.get? tuple) = (rows.row n).get? tuple := by
  unfold Rows.row
  cases rows.get? n <;> simp

/-- The cells hold the numbers of the rules that were entered, each under its own tuples. -/
def Filled (lookahead : Rule → Option TupleSet) (entered : List (Rule × Nat)) (rows : Rows) :
    Prop :=
  ∀ n tuple index, (rows.row n).get? tuple = some index ↔
    ∃ rule tuples, (rule, index) ∈ entered ∧ rule.left = n ∧ lookahead rule = some tuples ∧
      tuple ∈ tuples

theorem filled_const (lookahead : Rule → Option TupleSet) (nonterminals : SortedSet NonTerminal) :
    Filled lookahead [] (.const ∅ nonterminals) := by
  intro n tuple index
  have empty : (Rows.row (.const ∅ nonterminals) n).get? tuple = none := by
    rw [Rows.row, SortedMap.get?_const]
    split <;> rfl
  simp [empty]

theorem row_enter {rows entered : Rows} {rule : Rule} {index : Nat} {tuples : TupleSet}
    (done : rows.enter rule index tuples = .ok entered) (n : NonTerminal) (tuple : Tuple) :
    (entered.row n).get? tuple =
      if n = rule.left ∧ tuple ∈ tuples then some index else (rows.row n).get? tuple := by
  unfold Rows.enter at done
  split at done
  · exact nomatch done
  · cases done
    rw [Rows.row, SortedMap.get?_insert]
    by_cases same : n = rule.left
    · rw [if_pos same, Option.getD_some, Row.get?_fill, same]
      simp
    · rw [if_neg same, if_neg (fun both => same both.1), Rows.row]

theorem free_of_enter {rows entered : Rows} {rule : Rule} {index : Nat} {tuples : TupleSet}
    (done : rows.enter rule index tuples = .ok entered) :
    ∀ tuple ∈ tuples, (rows.row rule.left).get? tuple = none := by
  unfold Rows.enter at done
  split at done
  · exact nomatch done
  · next free => exact Row.get?_eq_none_of_taken? free

theorem filled_enter {lookahead : Rule → Option TupleSet} {done : List (Rule × Nat)}
    {rows entered : Rows} (filled : Filled lookahead done rows) {rule : Rule} {index : Nat}
    {tuples : TupleSet} (found : lookahead rule = some tuples)
    (result : rows.enter rule index tuples = .ok entered) :
    Filled lookahead (done ++ [(rule, index)]) entered := by
  intro n tuple number
  rw [row_enter result]
  constructor
  · intro cell
    split at cell
    · next own =>
        cases cell
        exact ⟨rule, tuples, by simp, own.1.symm, found, own.2⟩
    · obtain ⟨other, others, member, left, foundOther, inside⟩ := (filled n tuple number).1 cell
      exact ⟨other, others, List.mem_append_left _ member, left, foundOther, inside⟩
  · intro ⟨other, others, member, left, foundOther, inside⟩
    rcases List.mem_append.1 member with earlier | last
    · have cell := (filled n tuple number).2 ⟨other, others, earlier, left, foundOther, inside⟩
      rw [if_neg]
      · exact cell
      · intro own
        have free := free_of_enter result tuple own.2
        rw [← own.1, cell] at free
        exact nomatch free
    · cases List.mem_singleton.1 last
      rw [found] at foundOther
      cases foundOther
      rw [if_pos ⟨left.symm, inside⟩]

end Rows

namespace Grammar

variable {g : Grammar} {k : Nat}

theorem filled_fillRows {lookahead : Rule → Option TupleSet} {entries done : List (Rule × Nat)}
    {rows last : Rows} (filled : Rows.Filled lookahead done rows)
    (result : g.fillRows k lookahead entries rows = .ok last) :
    Rows.Filled lookahead (done ++ entries) last := by
  induction entries generalizing rows done with
  | nil =>
      cases result
      rw [List.append_nil]
      exact filled
  | cons entry entries induction =>
      obtain ⟨rule, index⟩ := entry
      rw [List.append_cons]
      simp only [fillRows] at result
      split at result
      · next unknown =>
          apply induction _ result
          intro n tuple number
          rw [filled n tuple number]
          constructor
          · intro ⟨other, others, member, rest⟩
            exact ⟨other, others, List.mem_append_left _ member, rest⟩
          · intro ⟨other, others, member, left, found, inside⟩
            rcases List.mem_append.1 member with earlier | last
            · exact ⟨other, others, earlier, left, found, inside⟩
            · cases List.mem_singleton.1 last
              rw [unknown] at found
              exact nomatch found
      · next tuples found =>
          split at result
          · next entered enteredRows =>
              exact induction (Rows.filled_enter filled found enteredRows) result
          · exact nomatch result

theorem row_fillRows {lookahead : Rule → Option TupleSet} {entries : List (Rule × Nat)}
    {rows last : Rows} (result : g.fillRows k lookahead entries rows = .ok last) (n : NonTerminal)
    (present : rows.get? n ≠ none) : last.get? n ≠ none := by
  induction entries generalizing rows with
  | nil =>
      cases result
      exact present
  | cons entry entries induction =>
      simp only [fillRows] at result
      split at result
      · exact induction result present
      · split at result
        · next entered enteredRows =>
            apply induction result
            unfold Rows.enter at enteredRows
            split at enteredRows
            · exact nomatch enteredRows
            · cases enteredRows
              rw [SortedMap.get?_insert]
              split
              · exact Option.some_ne_none _
              · exact present
        · exact nomatch result

theorem declared_fillRows {lookahead : Rule → Option TupleSet} {entries : List (Rule × Nat)}
    {rows last : Rows} (result : g.fillRows k lookahead entries rows = .ok last)
    (members : ∀ rule index, (rule, index) ∈ entries → rule ∈ g.rules)
    (declared : ∀ n, rows.get? n ≠ none → n ∈ g.nonterminals) {n : NonTerminal}
    (present : last.get? n ≠ none) : n ∈ g.nonterminals := by
  induction entries generalizing rows with
  | nil =>
      cases result
      exact declared n present
  | cons entry entries induction =>
      obtain ⟨rule, index⟩ := entry
      have later := fun rule index member => members rule index (List.mem_cons_of_mem _ member)
      simp only [fillRows] at result
      split at result
      · exact induction result later declared
      · split at result
        · next entered enteredRows =>
            apply induction result later
            intro m here
            unfold Rows.enter at enteredRows
            split at enteredRows
            · exact nomatch enteredRows
            · cases enteredRows
              rw [SortedMap.get?_insert] at here
              split at here
              · next own =>
                  rw [own]
                  exact g.rules_declared rule (members rule index List.mem_cons_self)
                    (.nonterminal rule.left) List.mem_cons_self
              · exact declared m here
        · exact nomatch result

/-- A sentential form lets the rule be applied before a word with this tuple as its cut. -/
def Applies (g : Grammar) (k : Nat) (rule : Rule) (tuple : Tuple) : Prop :=
  ∃ behind word, g.Context rule.left behind ∧ g.DerivesWord (rule.body ++ behind) word ∧
    Tuple.cut k word = tuple

/-- The tuples of a rule are those before which it applies. -/
theorem mem_ruleLookahead_iff {rule : Rule} {tuple : Tuple} :
    (∃ tuples, ruleLookahead k (g.first k) (g.follow k) rule = some tuples ∧ tuple ∈ tuples) ↔
      g.Applies k rule tuple := by
  constructor
  · intro ⟨tuples, found, member⟩
    unfold ruleLookahead at found
    split at found
    · next body trailer foundBody foundTrailer =>
        cases found
        have bodyFilled := (sound_firstOfSequence (sound_first g k) foundBody).1
        have trailerFilled := (sound_follow g k rule.left trailer foundTrailer).1
        obtain ⟨front, inBody, back, inTrailer, rfl⟩ :=
          (TupleSet.mem_concat bodyFilled trailerFilled).1 member
        obtain ⟨inner, derivesInner, rfl⟩ := (mem_firstOfSequence_iff foundBody).1 inBody
        obtain ⟨behind, outer, context, derivesOuter, rfl⟩ :=
          (mem_follow_iff foundTrailer).1 inTrailer
        refine ⟨behind, inner ++ outer, context, ?_, ?_⟩
        · exact (derivesWord_right_iff.1 derivesInner).append derivesOuter
        · rw [Tuple.concat_cut]
    · exact nomatch found
  · intro ⟨behind, word, context, derives, cut⟩
    obtain ⟨inner, outer, rfl, derivesInner, derivesOuter⟩ := derives.split
    obtain ⟨body, foundBody, inBody⟩ :=
      mem_firstOfSequence_of_derives (k := k) (derivesWord_right_iff.2 derivesInner)
    obtain ⟨trailer, foundTrailer, inTrailer⟩ := mem_follow_of_context (k := k) context derivesOuter
    refine ⟨body.concat k trailer, ?_, ?_⟩
    · rw [ruleLookahead, foundBody, foundTrailer]
    · rw [TupleSet.mem_concat (SortedSet.nonempty_iff.2 ⟨_, inBody⟩)
        (SortedSet.nonempty_iff.2 ⟨_, inTrailer⟩)]
      refine ⟨_, inBody, _, inTrailer, ?_⟩
      rw [Tuple.concat_cut, cut]

end Grammar

theorem RuleOrder.mem_numbered_iff {order : RuleOrder} {rule : Rule} {index : Nat} :
    (rule, index) ∈ order.numbered ↔ order.rule? index = some rule :=
  List.mem_zipIdx_iff_getElem?

theorem RuleOrder.exists_rule?_iff {order : RuleOrder} {rule : Rule} :
    (∃ index, order.rule? index = some rule) ↔ rule ∈ order.rules :=
  List.mem_iff_getElem?.symm

theorem Grammar.table_eq_map_fillRows {g : Grammar} {k : Nat} (positive : 0 < k) :
    g.table k =
      (g.fillRows k (ruleLookahead k (g.first k) (g.follow k)) (RuleOrder.ofGrammar g).numbered
        (.const ∅ g.nonterminals)).map (Table.mk k (.ofGrammar g)) := by
  rw [Grammar.table, if_neg (Nat.ne_of_gt positive)]
  rfl

namespace Table

variable {g : Grammar} {k : Nat} {table : Table}

theorem eq_of_built (built : g.table k = .ok table) : 0 < k ∧
    ∃ rows, g.fillRows k (ruleLookahead k (g.first k) (g.follow k)) (RuleOrder.ofGrammar g).numbered
      (.const ∅ g.nonterminals) = .ok rows ∧ table = ⟨k, .ofGrammar g, rows⟩ := by
  have positive : 0 < k := by
    apply Nat.pos_of_ne_zero
    intro none
    rw [Grammar.table, if_pos none] at built
    exact nomatch built
  rw [Grammar.table_eq_map_fillRows positive] at built
  cases filled : g.fillRows k (ruleLookahead k (g.first k) (g.follow k))
    (RuleOrder.ofGrammar g).numbered (.const ∅ g.nonterminals) with
  | error cause =>
      rw [filled] at built
      exact nomatch built
  | ok rows =>
      rw [filled] at built
      cases built
      exact ⟨positive, rows, rfl, rfl⟩

theorem parts_of_built (built : g.table k = .ok table) :
    0 < k ∧ table.k = k ∧ table.order = .ofGrammar g ∧
      (∀ n ∈ g.nonterminals, table.rows.get? n ≠ none) ∧
      Rows.Filled (ruleLookahead k (g.first k) (g.follow k)) table.order.numbered table.rows := by
  obtain ⟨positive, rows, filled, rfl⟩ := eq_of_built built
  refine ⟨positive, rfl, rfl, fun n declared => ?_,
    Grammar.filled_fillRows (Rows.filled_const _ g.nonterminals) filled⟩
  apply Grammar.row_fillRows filled
  rw [SortedMap.get?_const, if_pos declared]
  exact Option.some_ne_none _

/-- The rows are those of the nonterminals of the grammar. -/
theorem mem_keys_rows_iff (built : g.table k = .ok table) {n : NonTerminal} :
    n ∈ table.rows.keys ↔ n ∈ g.nonterminals := by
  rw [SortedMap.mem_keys_iff]
  constructor
  · obtain ⟨_, rows, filled, rfl⟩ := eq_of_built built
    apply Grammar.declared_fillRows filled
    · intro rule index numbered
      exact RuleOrder.exists_rule?_iff.1 ⟨index, RuleOrder.mem_numbered_iff.1 numbered⟩
    · intro n present
      rw [SortedMap.get?_const] at present
      by_contra undeclared
      exact present (if_neg undeclared)
  · obtain ⟨_, _, _, present, _⟩ := parts_of_built built
    exact present n

theorem mem_rules_of_rule? (built : g.table k = .ok table) {index : Nat} {rule : Rule}
    (found : table.order.rule? index = some rule) : rule ∈ g.rules := by
  obtain ⟨_, _, order, _⟩ := parts_of_built built
  rw [order] at found
  exact RuleOrder.exists_rule?_iff.1 ⟨index, found⟩

theorem exists_rule? (built : g.table k = .ok table) {rule : Rule} (member : rule ∈ g.rules) :
    ∃ index, table.order.rule? index = some rule := by
  obtain ⟨_, _, order, _⟩ := parts_of_built built
  rw [order]
  exact RuleOrder.exists_rule?_iff.2 member

theorem get?_eq_some_iff_applies (built : g.table k = .ok table) {n : NonTerminal} {tuple : Tuple}
    {index : Nat} : table.get? n tuple = some index ↔
      ∃ rule, table.order.rule? index = some rule ∧ rule.left = n ∧ g.Applies k rule tuple := by
  obtain ⟨_, _, _, _, filled⟩ := parts_of_built built
  rw [Table.get?, Rows.get?_bind, filled n tuple index]
  constructor
  · intro ⟨rule, tuples, numbered, left, known, member⟩
    exact ⟨rule, RuleOrder.mem_numbered_iff.1 numbered, left,
      Grammar.mem_ruleLookahead_iff.1 ⟨tuples, known, member⟩⟩
  · intro ⟨rule, numbered, left, applies⟩
    obtain ⟨tuples, known, member⟩ := Grammar.mem_ruleLookahead_iff.2 applies
    exact ⟨rule, tuples, RuleOrder.mem_numbered_iff.2 numbered, left, known, member⟩

theorem select?_eq_some_iff (built : g.table k = .ok table) {n : NonTerminal} {tuple : Tuple}
    {selected : AppliedRule} : table.select? n tuple = some selected ↔
      table.order.rule? selected.index = some selected.rule ∧ selected.rule.left = n ∧
        g.Applies k selected.rule tuple := by
  unfold Table.select?
  constructor
  · intro found
    obtain ⟨index, cell, numbered⟩ := Option.bind_eq_some_iff.1 found
    obtain ⟨rule, known, rfl⟩ := Option.map_eq_some_iff.1 numbered
    obtain ⟨other, knownOther, left, applies⟩ := (get?_eq_some_iff_applies built).1 cell
    rw [known] at knownOther
    cases knownOther
    exact ⟨known, left, applies⟩
  · intro ⟨known, left, applies⟩
    have cell := (get?_eq_some_iff_applies built).2 ⟨selected.rule, known, left, applies⟩
    rw [cell, Option.bind_some, known]
    rfl

/-- A table tells the rules of a nonterminal apart. -/
theorem rule_unique (built : g.table k = .ok table) {first second : Rule}
    (firstMember : first ∈ g.rules)
    (secondMember : second ∈ g.rules) (left : first.left = second.left) {tuple : Tuple}
    (firstApplies : g.Applies k first tuple) (secondApplies : g.Applies k second tuple) :
    first = second := by
  obtain ⟨i, knownFirst⟩ := exists_rule? built firstMember
  obtain ⟨j, knownSecond⟩ := exists_rule? built secondMember
  have cellFirst := (get?_eq_some_iff_applies built).2 ⟨first, knownFirst, left, firstApplies⟩
  have cellSecond := (get?_eq_some_iff_applies built).2 ⟨second, knownSecond, rfl, secondApplies⟩
  rw [cellFirst] at cellSecond
  cases cellSecond
  rw [knownFirst] at knownSecond
  exact Option.some.inj knownSecond

end Table

end StrongLL
