import StrongLL.Proofs.Derivation.Replay
import StrongLL.Proofs.Table.Halting
import StrongLL.Recognizer.Basic

/-!
# The table machine parses

The machine takes the steps of a leftmost derivation. Each step of a derivation of the whole input
applies its rule before the unread input, so the table selects that rule and the machine follows the
derivation to its end. In the other direction the rules that an accepting run applied are a leftmost
derivation of what it read. Parsing and replay undo each other, and since the machine has one answer
a word has one leftmost derivation.
-/

namespace StrongLL

set_option autoImplicit false

theorem RuleOrder.index_unique {order : RuleOrder} {rule : Rule} {i j : Nat}
    (first : order.rule? i = some rule) (second : order.rule? j = some rule) : i = j := by
  obtain ⟨bound, _⟩ := List.getElem?_eq_some_iff.1 first
  apply (List.getElem?_inj bound order.rules.nodup_toList).1
  rw [rule?] at first second
  rw [first, second]

namespace Table

/-- The numbers are those of the rules. -/
def Numbered (table : Table) (applied : List AppliedRule) : Prop :=
  ∀ selected ∈ applied, table.order.rule? selected.index = some selected.rule

variable {g : Grammar} {k : Nat} {table : Table} {stack : List Symbol} {word : Text}
  {rules : List Rule} {applied : List AppliedRule}

theorem numbered_nil : table.Numbered [] := fun _ member => absurd member List.not_mem_nil

theorem numbered_cons_iff {selected : AppliedRule} :
    table.Numbered (selected :: applied) ↔
      table.order.rule? selected.index = some selected.rule ∧ table.Numbered applied :=
  List.forall_mem_cons

theorem exists_numbered_iff {sequence : List Nat} :
    (∃ applied, table.Numbered applied ∧ applied.map (·.index) = sequence ∧
        applied.map (·.rule) = rules) ↔
      List.Forall₂ (fun index rule => table.order.rule? index = some rule) sequence rules := by
  constructor
  · intro ⟨applied, numbered, indices, bodies⟩
    rw [← indices, ← bodies, List.forall₂_map_left_iff, List.forall₂_map_right_iff]
    exact List.forall₂_same.2 numbered
  · intro matched
    induction matched with
    | nil => exact ⟨[], numbered_nil, rfl, rfl⟩
    | @cons index rule sequence rules known _ induction =>
        obtain ⟨applied, numbered, rfl, rfl⟩ := induction
        exact ⟨⟨index, rule⟩ :: applied, numbered_cons_iff.2 ⟨known, numbered⟩, rfl, rfl⟩

theorem Numbered.ext {other : List AppliedRule} (first : table.Numbered applied)
    (second : table.Numbered other) (same : applied.map (·.rule) = other.map (·.rule)) :
    applied = other := by
  induction applied generalizing other with
  | nil => exact (List.map_eq_nil_iff.1 same.symm).symm
  | cons selected applied induction =>
      obtain ⟨chosen, other, rfl, sameRule, sameRest⟩ := List.map_eq_cons_iff.1 same.symm
      obtain ⟨known, numbered⟩ := numbered_cons_iff.1 first
      obtain ⟨knownOther, numberedOther⟩ := numbered_cons_iff.1 second
      rw [sameRule] at knownOther
      have sameIndex := RuleOrder.index_unique known knownOther
      rw [induction numbered numberedOther sameRest.symm]
      cases selected
      cases chosen
      simp_all

/-- The machine follows a leftmost derivation of the unread input, if its stack is the rest of a
sentential form. -/
theorem halts_of_leftmost (built : g.table k = .ok table) (leftmost : g.Leftmost stack word rules)
    {before : SententialForm} (form : g.Derives [.nonterminal g.start] (before ++ stack)) :
    ∃ applied, table.Numbered applied ∧ applied.map (·.rule) = rules ∧
      ∀ position done, table.Halts ⟨position, stack, word, done⟩ (.ok (done ++ applied)) := by
  induction leftmost generalizing before with
  | nil =>
      refine ⟨[], numbered_nil, rfl, fun position done => ?_⟩
      rw [List.append_nil]
      exact .of_halt rfl
  | skip _ induction =>
      rw [List.append_cons] at form
      obtain ⟨applied, numbered, same, halts⟩ := induction form
      exact ⟨applied, numbered, same, fun position done =>
        .of_on (turn_of_step .drop) (halts position done)⟩
  | scan c _ induction =>
      rw [List.append_cons] at form
      obtain ⟨applied, numbered, same, halts⟩ := induction form
      exact ⟨applied, numbered, same,
        fun position done => .of_on (turn_of_step .read) (halts (position + 1) done)⟩
  | @expand rule member symbols word rules next induction =>
      obtain ⟨_, sameLength, _⟩ := parts_of_built built
      have derives : g.DerivesWord (rule.body ++ symbols) word :=
        Grammar.derivesWord_iff_yields.2 ⟨rules, Grammar.yields_iff_leftmost.2 next⟩
      have applies : g.Applies k rule (table.upcoming word) := by
        refine ⟨symbols, word, ⟨before, form⟩, derives, ?_⟩
        rw [← sameLength]
        rfl
      obtain ⟨index, known⟩ := exists_rule? built member
      have found : table.select? rule.left (table.upcoming word) = some ⟨index, rule⟩ :=
        (select?_eq_some_iff built).2 ⟨known, rfl, applies⟩
      have replaced : g.Derives [.nonterminal g.start] (before ++ (rule.body ++ symbols)) := by
        rw [← List.append_assoc]
        exact form.trans (.of_rule member before symbols)
      obtain ⟨applied, numbered, same, halts⟩ := induction replaced
      refine ⟨⟨index, rule⟩ :: applied, numbered_cons_iff.2 ⟨known, numbered⟩, ?_,
        fun position done => ?_⟩
      · rw [List.map_cons, same]
      · have later := halts position (done ++ [⟨index, rule⟩])
        rw [List.append_assoc, List.singleton_append] at later
        exact .of_on (turn_of_step (.expand found)) later

theorem Step.leftmost (built : g.table k = .ok table) {machine next : Machine}
    (step : table.Step machine next) (numbered : table.Numbered applied)
    (leftmost : g.Leftmost next.stack next.rest (applied.map (·.rule))) :
    ∃ all, table.Numbered all ∧ next.applied ++ applied = machine.applied ++ all ∧
      g.Leftmost machine.stack machine.rest (all.map (·.rule)) := by
  cases step with
  | drop => exact ⟨applied, numbered, rfl, .skip leftmost⟩
  | read => exact ⟨applied, numbered, rfl, .scan _ leftmost⟩
  | @expand _ n stack rest _ selected found =>
      obtain ⟨known, left, _⟩ := (select?_eq_some_iff built).1 found
      refine ⟨selected :: applied, numbered_cons_iff.2 ⟨known, numbered⟩, ?_, ?_⟩
      · rw [List.append_assoc, List.singleton_append]
      · rw [List.map_cons, ← left]
        exact .expand (mem_rules_of_rule? built known) leftmost

/-- The rules of an accepting run are a leftmost derivation. -/
theorem leftmost_of_halts (built : g.table k = .ok table) {machine : Machine}
    {answer : List AppliedRule}
    (halts : table.Halts machine (.ok answer)) :
    ∃ applied, table.Numbered applied ∧ answer = machine.applied ++ applied ∧
      g.Leftmost machine.stack machine.rest (applied.map (·.rule)) := by
  obtain ⟨turns, answered⟩ := halts
  induction turns generalizing machine with
  | zero => exact nomatch answered
  | succ turns induction =>
      cases turned : table.turn machine with
      | on next =>
          rw [loop_of_on turned] at answered
          obtain ⟨applied, numbered, same, leftmost⟩ := induction answered
          obtain ⟨all, numberedAll, sameAll, leftmostAll⟩ :=
            (step_of_turn turned).leftmost built numbered leftmost
          exact ⟨all, numberedAll, same.trans sameAll, leftmostAll⟩
      | halt early =>
          rw [loop_of_halt turned] at answered
          cases answered
          rcases halt_cases turned with ⟨emptyStack, read, accepted⟩ | ⟨cause, rejected, _⟩
          · cases accepted
            refine ⟨[], numbered_nil, by rw [List.append_nil], ?_⟩
            rw [emptyStack, read]
            exact .nil
          · exact nomatch rejected

theorem parse_eq_ok_iff (built : g.table k = .ok table) :
    table.parse g.start word = .ok applied ↔
      table.Numbered applied ∧ g.Leftmost [.nonterminal g.start] word (applied.map (·.rule)) := by
  have halts := halts_parse built g.start word
  constructor
  · intro accepted
    rw [accepted] at halts
    obtain ⟨all, numbered, same, leftmost⟩ := leftmost_of_halts built halts
    have whole : applied = all := same
    rw [whole]
    exact ⟨numbered, leftmost⟩
  · intro ⟨numbered, leftmost⟩
    have form : g.Derives [.nonterminal g.start] ([] ++ [.nonterminal g.start]) := .refl _
    obtain ⟨all, numberedAll, same, accepts⟩ := halts_of_leftmost built leftmost form
    have whole : all = applied := numberedAll.ext numbered same
    rw [whole] at accepts
    exact halts.unique (accepts 0 [])

theorem parseIndices_eq_ok_iff {sequence : List Nat} {start : NonTerminal} :
    table.parseIndices start word = .ok sequence ↔
      ∃ applied, table.parse start word = .ok applied ∧ applied.map (·.index) = sequence := by
  rw [parseIndices]
  cases table.parse start word with
  | error cause =>
      constructor
      · exact nofun
      · exact fun ⟨_, found, _⟩ => nomatch found
  | ok applied =>
      constructor
      · intro same
        exact ⟨applied, rfl, Except.ok.inj same⟩
      · intro ⟨other, found, same⟩
        cases found
        rw [← same]
        rfl

theorem verify_eq_true_iff {start : NonTerminal} :
    (Recognizer.table start table).verify word = true ↔
      ∃ applied, table.parse start word = .ok applied := by
  rw [Recognizer.verify, Recognizer.parse, parseDerivation]
  cases table.parse start word with
  | error cause =>
      constructor
      · exact nofun
      · exact fun ⟨_, found⟩ => nomatch found
  | ok applied => exact ⟨fun _ => ⟨applied, rfl⟩, fun _ => rfl⟩

theorem exists_numbered (built : g.table k = .ok table) (members : ∀ rule ∈ rules, rule ∈ g.rules) :
    ∃ applied, table.Numbered applied ∧ applied.map (·.rule) = rules := by
  induction rules with
  | nil => exact ⟨[], numbered_nil, rfl⟩
  | cons rule rules induction =>
      obtain ⟨first, later⟩ := List.forall_mem_cons.1 members
      obtain ⟨applied, numbered, same⟩ := induction later
      obtain ⟨index, known⟩ := exists_rule? built first
      exact ⟨⟨index, rule⟩ :: applied, numbered_cons_iff.2 ⟨known, numbered⟩,
        by rw [List.map_cons, same]⟩

theorem leftmost_unique (built : g.table k = .ok table) {other : List Rule}
    (first : g.Leftmost [.nonterminal g.start] word rules)
    (second : g.Leftmost [.nonterminal g.start] word other) : rules = other := by
  obtain ⟨applied, numbered, rfl⟩ := exists_numbered built first.mem_rules
  obtain ⟨appliedOther, numberedOther, rfl⟩ := exists_numbered built second.mem_rules
  have parsed := (parse_eq_ok_iff built).2 ⟨numbered, first⟩
  have parsedOther := (parse_eq_ok_iff built).2 ⟨numberedOther, second⟩
  rw [parsed] at parsedOther
  rw [Except.ok.inj parsedOther]

/-- Parsing with a table and replaying in its order undo each other. The machine accepts the
language of the grammar, and every word of it has exactly one leftmost derivation. -/
theorem parse_iff_replay (built : g.table k = .ok table) :
    (∀ word sequence, table.parseIndices g.start word = .ok sequence ↔
        table.order.replay sequence = .ok (word.map .char)) ∧
      (∀ word, (Recognizer.table g.start table).verify word = true ↔ g.Language word) ∧
      ∀ word, g.Language word → ∃! rules, (∀ rule ∈ rules, rule ∈ g.rules) ∧
        (Derivation.mk .leftmost rules).replay g.start = .ok (word.map .char) := by
  obtain ⟨_, _, order, _⟩ := parts_of_built built
  refine ⟨fun word sequence => ?_, fun word => ?_, fun word inside => ?_⟩
  · rw [parseIndices_eq_ok_iff, RuleOrder.replay_eq_ok_iff]
    constructor
    · intro ⟨applied, parsed, same⟩
      obtain ⟨numbered, leftmost⟩ := (parse_eq_ok_iff built).1 parsed
      refine ⟨_, exists_numbered_iff.1 ⟨applied, numbered, same, rfl⟩, ?_⟩
      rw [order]
      exact (Grammar.replay_leftmost_eq_ok_iff (Grammar.yields_iff_leftmost.2 leftmost).mem_rules).2
        leftmost
    · intro ⟨rules, matched, replayed⟩
      obtain ⟨applied, numbered, same, rfl⟩ := exists_numbered_iff.2 matched
      have members : ∀ rule ∈ applied.map (·.rule), rule ∈ g.rules := by
        intro rule occurs
        obtain ⟨selected, member, rfl⟩ := List.mem_map.1 occurs
        exact mem_rules_of_rule? built (numbered selected member)
      rw [order] at replayed
      have leftmost := (Grammar.replay_leftmost_eq_ok_iff members).1 replayed
      exact ⟨applied, (parse_eq_ok_iff built).2 ⟨numbered, leftmost⟩, same⟩
  · rw [verify_eq_true_iff, Grammar.language_iff_yields]
    constructor
    · intro ⟨applied, parsed⟩
      exact ⟨_, Grammar.yields_iff_leftmost.2 ((parse_eq_ok_iff built).1 parsed).2⟩
    · intro ⟨rules, yields⟩
      obtain ⟨applied, numbered, rfl⟩ := exists_numbered built yields.mem_rules
      exact ⟨applied, (parse_eq_ok_iff built).2 ⟨numbered, Grammar.yields_iff_leftmost.1 yields⟩⟩
  · obtain ⟨rules, yields⟩ := Grammar.language_iff_yields.1 inside
    have leftmost := Grammar.yields_iff_leftmost.1 yields
    refine ⟨rules, ⟨yields.mem_rules,
      (Grammar.replay_leftmost_eq_ok_iff yields.mem_rules).2 leftmost⟩, ?_⟩
    intro other ⟨members, replayed⟩
    exact leftmost_unique built ((Grammar.replay_leftmost_eq_ok_iff members).1 replayed) leftmost

end Table

/-- One pair of parentheses is parsed because it is replayed, and it is nested because it is parsed. -/
theorem nested_parses :
    nested.table 1 = .ok nestedTable ∧
      nestedTable.order.replay [0, 1, 1] = .ok [.char '(', .char ')'] ∧
      nestedTable.parseIndices nested.start ['(', ')'] = .ok [0, 1, 1] ∧
      nested.Language ['(', ')'] := by
  obtain ⟨inverse, accepts, _⟩ := Table.parse_iff_replay nested_table
  have replayed : nestedTable.order.replay [0, 1, 1] = .ok [.char '(', .char ')'] := by
    cbv
  refine ⟨nested_table, replayed, (inverse ['(', ')'] [0, 1, 1]).2 replayed,
    (accepts ['(', ')']).1 ?_⟩
  cbv

end StrongLL
