import StrongLL.Proofs.Recognizer.Decision
import StrongLL.Proofs.Table.Conflicts

/-!
# Which conflict is reported

Two rules of one nonterminal clash when their lookaheads share a tuple. Rules are entered in their
order, so the one that is refused is the earliest that clashes with a rule before it. Its tuples are
tried in their order, so the one that is reported is the least of those that it shares. The rules
before it did not clash, and therefore no more than one of them has that tuple. The three together
leave one conflict that can be reported, whatever the rules of other nonterminals do in between.
-/

namespace StrongLL

set_option autoImplicit false

open Std

namespace Rule.Before

variable {first second third : Rule}

theorem irrefl (rule : Rule) : ¬rule.Before rule := fun before => before.asymm before

theorem trans (before : first.Before second) (later : second.Before third) :
    first.Before third :=
  TransCmp.lt_trans before later

theorem total (different : first ≠ second) : first.Before second ∨ second.Before first := by
  cases order : Ord.compare first second with
  | lt => exact .inl order
  | eq => exact absurd (LawfulEqOrd.eq_of_compare order) different
  | gt => exact .inr (OrientedCmp.lt_of_gt order)

end Rule.Before

/-- No tuple before the one that is found has a cell. -/
theorem Row.least_of_taken? {row : Row} {tuples : TupleSet} {tuple other : Tuple} {index : Nat}
    (taken : row.taken? tuples = some (tuple, index)) (member : other ∈ tuples)
    (filled : row.get? other ≠ none) : compare other tuple ≠ .lt := by
  intro less
  rcases List.findSome?_eq_some_iff.1 taken with ⟨before, found, after, split, cell, empty⟩
  rcases Option.map_eq_some_iff.1 cell with ⟨number, _, same⟩
  cases same
  have sorted := tuples.sorted
  rw [split, List.pairwise_append, List.pairwise_cons] at sorted
  have place : other ∈ before ++ tuple :: after := split ▸ member
  rcases List.mem_append.1 place with passed | later
  · exact filled (Option.map_eq_none_iff.1 (empty other passed))
  · rcases List.mem_cons.1 later with equal | behind
    · simp [equal, ReflCmp.compare_self] at less
    · have greater := OrientedCmp.gt_of_lt less
      rw [sorted.2.1.1 other behind] at greater
      cases greater

theorem Rows.least_of_enter {rows : Rows} {rule : Rule} {index found : Nat} {tuples : TupleSet}
    {tuple other : Tuple} (refused : rows.enter rule index tuples = .error (tuple, found))
    (member : other ∈ tuples) (filled : (rows.row rule.left).get? other ≠ none) :
    compare other tuple ≠ .lt := by
  unfold Rows.enter at refused
  split at refused
  · next taken first =>
      cases refused
      exact Row.least_of_taken? first member filled
  · cases refused

namespace Grammar

variable {g : Grammar} {k : Nat} {rule earlier other : Rule} {tuple : Tuple}

/-- The tuple is in the lookahead of the rule. -/
def HasLookahead (g : Grammar) (k : Nat) (rule : Rule) (tuple : Tuple) : Prop :=
  ∃ tuples, ruleLookahead k (g.first k) (g.follow k) rule = some tuples ∧ tuple ∈ tuples

/-- The tuple is in the lookahead of the rule and of an earlier rule of the same nonterminal. -/
structure Clashes (g : Grammar) (k : Nat) (earlier rule : Rule) (tuple : Tuple) : Prop where
  earlierMember : earlier ∈ g.rules
  member : rule ∈ g.rules
  left : earlier.left = rule.left
  before : earlier.Before rule
  earlierHas : g.HasLookahead k earlier tuple
  has : g.HasLookahead k rule tuple

/-- The conflict is a clash: of the earliest rule that clashes with an earlier one, at the least tuple
at which it does, and with the only rule with which it does so there. -/
structure IsFirstConflict (g : Grammar) (k : Nat) (found : Conflict) : Prop where
  length : found.k = k
  nonterminal : found.second.left = found.nonterminal
  clash : g.Clashes k found.first found.second found.lookahead
  earliest : ∀ earlier rule tuple, g.Clashes k earlier rule tuple → ¬rule.Before found.second
  least : ∀ earlier tuple, g.Clashes k earlier found.second tuple →
    compare tuple found.lookahead ≠ .lt
  only : ∀ earlier, g.Clashes k earlier found.second found.lookahead → earlier = found.first

/-- When no rule before a rule clashes, no two of them share a tuple with it. -/
theorem Clashes.unique (clash : g.Clashes k earlier rule tuple) (again : g.Clashes k other rule tuple)
    (earliest : ∀ earlier before tuple, g.Clashes k earlier before tuple → ¬before.Before rule) :
    other = earlier := by
  by_contra different
  have left : other.left = earlier.left := again.left.trans clash.left.symm
  rcases Rule.Before.total different with before | behind
  · exact earliest other earlier tuple ⟨again.earlierMember, clash.earlierMember, left, before,
      again.earlierHas, clash.earlierHas⟩ clash.before
  · exact earliest earlier other tuple ⟨clash.earlierMember, again.earlierMember, left.symm, behind,
      clash.earlierHas, again.earlierHas⟩ again.before

theorem IsFirstConflict.unique {found again : Conflict} (first : g.IsFirstConflict k found)
    (second : g.IsFirstConflict k again) : found = again := by
  rcases found with ⟨length, n, lookahead, one, two⟩
  rcases again with ⟨length', n', lookahead', one', two'⟩
  have lengths : length = length' := first.length.trans second.length.symm
  have rules : two = two' := by
    by_contra different
    rcases Rule.Before.total different with before | behind
    · exact second.earliest one two lookahead first.clash before
    · exact first.earliest one' two' lookahead' second.clash behind
  subst lengths rules
  have nonterminals : n = n' := first.nonterminal.symm.trans second.nonterminal
  have tuples : lookahead = lookahead' := by
    have notAfter := first.least one' lookahead' second.clash
    cases order : compare lookahead lookahead' with
    | lt => exact absurd order (second.least one lookahead first.clash)
    | eq => exact LawfulEqOrd.eq_of_compare order
    | gt => exact absurd (OrientedCmp.lt_of_gt order) notAfter
  subst nonterminals tuples
  rw [second.only one first.clash]

end Grammar

namespace Refusal

open Grammar

variable {g : Grammar} {k : Nat} {rule earlier : Rule} {tuple : Tuple}
  (refusal : Refusal g k (ruleLookahead k (g.first k) (g.follow k)) (RuleOrder.ofGrammar g).numbered
    (.const ∅ g.nonterminals))
include refusal

theorem entered : Rows.Filled (ruleLookahead k (g.first k) (g.follow k)) refusal.before
    refusal.reached :=
  filled_fillRows (Rows.filled_const _ g.nonterminals) refusal.filled

theorem named {index : Nat}
    (listed : (rule, index) ∈ refusal.before ++ (refusal.rule, refusal.index) :: refusal.after) :
    (RuleOrder.ofGrammar g).rule? index = some rule := by
  apply RuleOrder.mem_numbered_iff.1
  rw [refusal.split]
  exact listed

theorem member : refusal.rule ∈ g.rules :=
  RuleOrder.exists_rule?_iff.1 ⟨_, refusal.named (List.mem_append_right _ List.mem_cons_self)⟩

/-- The rules that were entered are those that stand before the refused one. -/
theorem exists_mem_before_iff :
    (∃ index, (rule, index) ∈ refusal.before) ↔ rule ∈ g.rules ∧ rule.Before refusal.rule := by
  have rules := rules_of_split refusal.split
  have sorted := g.pairwise_rules
  rw [rules, List.pairwise_append, List.pairwise_cons] at sorted
  have entered : (∃ index, (rule, index) ∈ refusal.before) ↔
      rule ∈ refusal.before.map (·.1) := by simp
  rw [entered, ← SortedSet.mem_toList, rules]
  constructor
  · intro listed
    exact ⟨List.mem_append_left _ listed, sorted.2.2 rule listed refusal.rule List.mem_cons_self⟩
  · intro ⟨listed, before⟩
    rcases List.mem_append.1 listed with passed | later
    · exact passed
    · rcases List.mem_cons.1 later with same | behind
      · rw [same] at before
        exact absurd before (Rule.Before.irrefl _)
      · exact absurd before (sorted.2.1.1 rule behind).asymm

/-- A rule before the refused one is in the cells of its tuples. -/
theorem exists_cell (member : rule ∈ g.rules) (before : rule.Before refusal.rule)
    (has : g.HasLookahead k rule tuple) :
    ∃ index, (refusal.reached.row rule.left).get? tuple = some index ∧
      (RuleOrder.ofGrammar g).rule? index = some rule := by
  rcases refusal.exists_mem_before_iff.2 ⟨member, before⟩ with ⟨index, listed⟩
  rcases has with ⟨tuples, known, inside⟩
  exact ⟨index, (refusal.entered _ _ _).2 ⟨rule, tuples, listed, rfl, known, inside⟩,
    refusal.named (List.mem_append_left _ listed)⟩

theorem not_before_of_clashes (clash : g.Clashes k earlier rule tuple) :
    ¬rule.Before refusal.rule := by
  intro before
  have earlierBefore := clash.before.trans before
  rcases refusal.exists_cell clash.earlierMember earlierBefore clash.earlierHas with
    ⟨index, cell, named⟩
  rcases refusal.exists_cell clash.member before clash.has with ⟨number, taken, other⟩
  -- Both rules are in one cell, which holds one number.
  rw [clash.left, taken] at cell
  cases cell
  rw [other] at named
  cases named
  exact Rule.Before.irrefl _ clash.before

theorem exists_clashes : ∃ first, (RuleOrder.ofGrammar g).rule? refusal.other = some first ∧
    g.Clashes k first refusal.rule refusal.tuple := by
  rcases Rows.taken_of_enter refusal.refused with ⟨inside, cell⟩
  rcases (refusal.entered _ _ _).1 cell with ⟨first, others, listed, left, known, insideFirst⟩
  rcases refusal.exists_mem_before_iff.1 ⟨_, listed⟩ with ⟨firstMember, before⟩
  exact ⟨first, refusal.named (List.mem_append_left _ listed), firstMember, refusal.member, left,
    before, ⟨others, known, insideFirst⟩, ⟨refusal.tuples, refusal.known, inside⟩⟩

theorem least_of_clashes (clash : g.Clashes k earlier refusal.rule tuple) :
    compare tuple refusal.tuple ≠ .lt := by
  rcases refusal.exists_cell clash.earlierMember clash.before clash.earlierHas with ⟨index, cell, _⟩
  rcases clash.has with ⟨tuples, known, inside⟩
  rw [refusal.known] at known
  cases known
  apply Rows.least_of_enter refusal.refused inside
  rw [← clash.left, cell]
  exact Option.some_ne_none index

theorem exists_isFirstConflict :
    ∃ found, refusal.cause = .conflict found ∧ g.IsFirstConflict k found := by
  rcases refusal.exists_clashes with ⟨first, named, clash⟩
  have earliest : ∀ earlier rule tuple, g.Clashes k earlier rule tuple → ¬rule.Before refusal.rule :=
    fun _ _ _ => refusal.not_before_of_clashes
  refine ⟨⟨k, refusal.rule.left, refusal.tuple, first, refusal.rule⟩, ?_, rfl, rfl, clash, earliest,
    ?_, ?_⟩
  · rw [cause, named, Option.getD_some]
  · exact fun _ _ => refusal.least_of_clashes
  · exact fun _ again => clash.unique again earliest

end Refusal

namespace Grammar

variable {g : Grammar} {k : Nat}

theorem isFirstConflict_of_table_error (positive : 0 < k) {cause : TableError}
    (failed : g.table k = .error cause) :
    ∃ found, cause = .conflict found ∧ g.IsFirstConflict k found := by
  rcases exists_refusal (fillRows_of_table_error positive failed) with ⟨refusal, rfl⟩
  exact refusal.exists_isFirstConflict

/-- A table tells apart the rules of a nonterminal, so none of them clash. -/
theorem not_clashes_of_built {table : Table} (built : g.table k = .ok table) {earlier rule : Rule}
    {tuple : Tuple} : ¬g.Clashes k earlier rule tuple := by
  intro clash
  have same := Table.rule_unique built clash.earlierMember clash.member clash.left
    (mem_ruleLookahead_iff.1 clash.earlierHas) (mem_ruleLookahead_iff.1 clash.has)
  exact Rule.Before.irrefl rule (same ▸ clash.before)

theorem table_eq_error_iff (positive : 0 < k) {found : Conflict} :
    g.table k = .error (.conflict found) ↔ g.IsFirstConflict k found := by
  constructor
  · intro failed
    rcases isFirstConflict_of_table_error positive failed with ⟨other, same, first⟩
    cases same
    exact first
  · intro first
    cases result : g.table k with
    | ok table => exact absurd first.clash (not_clashes_of_built result)
    | error cause =>
        rcases isFirstConflict_of_table_error positive result with ⟨other, rfl, again⟩
        rw [first.unique again]

/-- The conflict that is reported is the first one. Its rules are different rules of its nonterminal,
the first before the second, and its tuple is in the lookaheads of both. No rule before the second one
shares a tuple with an earlier rule of its own nonterminal, no tuple before the reported one is shared
by the second rule with an earlier one, and only one earlier rule shares the reported one. Whenever a
conflict has these properties it is reported, and one is reported exactly if two different rules of a
nonterminal share a tuple. -/
theorem first_conflict_is_reported (g : Grammar) (k : Nat) (positive : 1 ≤ k) :
    (∀ found, g.table k = .error (.conflict found) ↔ g.IsFirstConflict k found) ∧
      ((∃ found, g.table k = .error (.conflict found)) ↔
        ∃ first ∈ g.rules, ∃ second ∈ g.rules, first ≠ second ∧ first.left = second.left ∧
          ∃ tuple, g.HasLookahead k first tuple ∧ g.HasLookahead k second tuple) := by
  refine ⟨fun found => table_eq_error_iff positive, ?_⟩
  constructor
  · intro ⟨found, failed⟩
    have clash := ((table_eq_error_iff positive).1 failed).clash
    have different : found.first ≠ found.second := by
      intro same
      exact Rule.Before.irrefl found.second (same ▸ clash.before)
    exact ⟨found.first, clash.earlierMember, found.second, clash.member, different, clash.left,
      found.lookahead, clash.earlierHas, clash.has⟩
  · intro ⟨first, firstMember, second, secondMember, different, left, tuple, has, hasSecond⟩
    cases result : g.table k with
    | ok table =>
        have same := Table.rule_unique result firstMember secondMember left
          (mem_ruleLookahead_iff.1 has) (mem_ruleLookahead_iff.1 hasSecond)
        exact absurd same different
    | error cause =>
        rcases isFirstConflict_of_table_error positive result with ⟨found, rfl, _⟩
        exact ⟨found, rfl⟩

end Grammar

/-- The rules of `T` are told apart. The last rule of `S` begins like each of the two before it. -/
def overlapping : Grammar :=
  .ofRules (.named "S")
    [⟨.named "T", [.terminal (.char 'u')], by simp, by simp⟩,
      ⟨.named "T", [.terminal (.char 'v')], by simp, by simp⟩,
      ⟨.named "S", [.terminal (.char 'u')], by simp, by simp⟩,
      ⟨.named "S", [.terminal (.char 'v')], by simp, by simp⟩,
      ⟨.named "S", [.nonterminal (.named "T")], by simp, by simp⟩]

/-- The third rule of `S` is reported with the first one, at the lesser of the two tuples that it
shares with rules before it. -/
theorem overlapping_reports_the_third_rule :
    1 ≤ 1 ∧ overlapping.IsFirstConflict 1 ⟨1, .named "S", [.char 'u'],
      ⟨.named "S", [.terminal (.char 'u')], by simp, by simp⟩,
      ⟨.named "S", [.nonterminal (.named "T")], by simp, by simp⟩⟩ := by
  refine ⟨Nat.le_refl 1, ((Grammar.first_conflict_is_reported overlapping 1 (Nat.le_refl 1)).1 _).1 ?_⟩
  cbv

end StrongLL
