import StrongLL.Proofs.Order.Bisection
import StrongLL.Proofs.Table.Parsing

/-!
# Derivations as numbers

The number of a rule and the rule with a number are inverse to each other, because the rules of an
order are all different. A leftmost derivation has numbers exactly if the order has all of its
rules, and nothing is lost by passing to them: replaying the numbers looks up the same rules, so it
ends with the same word or with the same error in the same step. The table machine keeps the number
of every rule that it applies, and these are the numbers of the derivation that it answers with.
-/

namespace StrongLL

set_option autoImplicit false

namespace RuleOrder

variable {order : RuleOrder} {rule : Rule} {rules : List Rule} {sequence : List Nat}

theorem indexOf?_eq_some_iff {index : Nat} :
    order.indexOf? rule = some index ↔ order.rule? index = some rule := by
  rw [indexOf?, rule?, List.idxOf?_eq_some_iff, List.getElem?_eq_some_iff]
  constructor
  · rintro ⟨bound, found, _⟩
    exact ⟨bound, found⟩
  · rintro ⟨bound, found⟩
    refine ⟨bound, found, fun earlier before same => ?_⟩
    have places := (List.getElem_inj order.rules.nodup_toList).1 (same.trans found.symm)
    exact absurd before (places ▸ Nat.lt_irrefl index)

/-- Halving finds the number of a rule: the rules are sorted by the order in which they are
compared. -/
theorem indexOf?_eq_bisect? (order : RuleOrder) (rule : Rule) :
    order.indexOf? rule = order.rules.bisect? rule := by
  apply Option.ext
  intro index
  rw [indexOf?_eq_some_iff, SortedSet.bisect?_eq_some_iff, rule?]

theorem indexOf?_eq_none_iff : order.indexOf? rule = none ↔ rule ∉ order.rules := by
  rw [indexOf?, List.idxOf?_eq_none_iff, SortedSet.mem_toList]

end RuleOrder

namespace Derivation

variable {order : RuleOrder} {how : DerivationOrder} {rules : List Rule} {sequence : List Nat}

theorem indices?_nil : (mk how []).indices? order = some [] := rfl

theorem indices?_cons (rule : Rule) :
    (mk how (rule :: rules)).indices? order =
      (order.indexOf? rule).bind fun index =>
        ((mk how rules).indices? order).map (index :: ·) := by
  rw [indices?, List.mapM_cons]
  cases order.indexOf? rule with
  | none => rfl
  | some index =>
      rw [indices?]
      cases rules.mapM order.indexOf? with
      | none => rfl
      | some sequence => rfl

/-- The numbers of a derivation are those under which the order has its rules. -/
theorem indices?_eq_some_iff :
    (mk how rules).indices? order = some sequence ↔
      List.Forall₂ (fun index rule => order.rule? index = some rule) sequence rules := by
  induction rules generalizing sequence with
  | nil => rw [indices?_nil, List.forall₂_nil_right_iff, Option.some_inj, eq_comm]
  | cons rule rules induction =>
      simp only [indices?_cons, Option.bind_eq_some_iff, Option.map_eq_some_iff, induction,
        RuleOrder.indexOf?_eq_some_iff, List.forall₂_cons_right_iff]
      constructor
      · intro ⟨index, known, rest, matched, whole⟩
        exact ⟨index, rest, known, matched, whole.symm⟩
      · intro ⟨index, rest, known, matched, whole⟩
        exact ⟨index, known, rest, matched, whole.symm⟩

theorem indices?_eq_none_iff :
    (mk how rules).indices? order = none ↔ ∃ rule ∈ rules, rule ∉ order.rules := by
  induction rules with
  | nil =>
      rw [indices?_nil]
      exact ⟨nofun, fun ⟨_, member, _⟩ => absurd member List.not_mem_nil⟩
  | cons rule rules induction =>
      rw [indices?_cons, List.exists_mem_cons_iff, ← induction, ← RuleOrder.indexOf?_eq_none_iff]
      cases order.indexOf? rule with
      | none => exact ⟨fun _ => .inl rfl, fun _ => rfl⟩
      | some index => simp

/-- The numbers of a leftmost derivation replay as it does. -/
theorem replay_indices (known : (mk .leftmost rules).indices? order = some sequence) :
    order.replay sequence = (mk .leftmost rules).replay order.start := by
  rw [RuleOrder.replay, RuleOrder.rules?_eq_ok_iff.2 (indices?_eq_some_iff.1 known)]

end Derivation

namespace Table

variable {g : Grammar} {k : Nat} {table : Table}

theorem Numbered.indices? {applied : List AppliedRule} (numbered : table.Numbered applied)
    (how : DerivationOrder) :
    (Derivation.mk how (applied.map (·.rule))).indices? table.order =
      some (applied.map (·.index)) :=
  Derivation.indices?_eq_some_iff.2 (exists_numbered_iff.1 ⟨applied, numbered, rfl, rfl⟩)

/-- The machine gives its answer as a derivation or as numbers: it rejects with one error, or the
numbers are those of the derivation. -/
theorem parseIndices_eq_indices? (built : g.table k = .ok table) (word : Text) :
    (∃ cause, table.parseDerivation g.start word = .error cause ∧
        table.parseIndices g.start word = .error cause) ∨
      ∃ rules sequence, table.parseDerivation g.start word = .ok ⟨.leftmost, rules⟩ ∧
        table.parseIndices g.start word = .ok sequence ∧
          (Derivation.mk .leftmost rules).indices? table.order = some sequence := by
  rw [parseDerivation, parseIndices]
  cases parsed : table.parse g.start word with
  | error cause => exact .inl ⟨cause, rfl, rfl⟩
  | ok applied =>
      have numbered := ((parse_eq_ok_iff built).1 parsed).1
      exact .inr ⟨_, _, rfl, rfl, numbered.indices? .leftmost⟩

end Table

/-- Numbering is a bijection that derivations survive. A rule of a grammar has the number at which
it is found, also when it is found by halving. A leftmost derivation has no numbers exactly if one
of its rules is not in the order, and otherwise its numbers replay to the same word or to the same
error in the same step. A table of the grammar rejects an input with the same error in both forms,
or it answers with a derivation and with the numbers of that derivation. -/
theorem Grammar.derivations_survive_numbering (g : Grammar) :
    (∀ rule index, (RuleOrder.ofGrammar g).indexOf? rule = some index ↔
        (RuleOrder.ofGrammar g).rule? index = some rule) ∧
      (∀ rule, (RuleOrder.ofGrammar g).indexOf? rule = g.rules.bisect? rule) ∧
      (∀ rules,
        ((Derivation.mk .leftmost rules).indices? (.ofGrammar g) = none ↔
            ∃ rule ∈ rules, rule ∉ g.rules) ∧
          ∀ sequence, (Derivation.mk .leftmost rules).indices? (.ofGrammar g) = some sequence →
            (RuleOrder.ofGrammar g).replay sequence =
              (Derivation.mk .leftmost rules).replay (RuleOrder.ofGrammar g).start) ∧
      ∀ k table, g.table k = .ok table → ∀ word,
        (∃ cause, (Recognizer.table g.start table).parse word = .error cause ∧
            table.parseIndices g.start word = .error cause) ∨
          ∃ rules sequence,
            (Recognizer.table g.start table).parse word = .ok ⟨.leftmost, rules⟩ ∧
              table.parseIndices g.start word = .ok sequence ∧
                (Derivation.mk .leftmost rules).indices? table.order = some sequence := by
  refine ⟨fun rule index => RuleOrder.indexOf?_eq_some_iff,
    RuleOrder.indexOf?_eq_bisect? (.ofGrammar g), fun rules => ⟨?_, ?_⟩, ?_⟩
  · exact Derivation.indices?_eq_none_iff
  · intro sequence known
    exact Derivation.replay_indices known
  · intro k table built word
    exact Table.parseIndices_eq_indices? built word

/-- Both rules of nested parentheses, each applied once, stop at a form that the numbers stop at, and
a pair of parentheses is parsed to a derivation with the numbers that the machine gives. -/
theorem nested_survives_numbering :
    (Derivation.mk .leftmost nested.rules.toList).indices? (.ofGrammar nested) = some [0, 1] ∧
      (RuleOrder.ofGrammar nested).replay [0, 1] =
        (Derivation.mk .leftmost nested.rules.toList).replay (.named "S") ∧
      nested.table 1 = .ok nestedTable ∧
      ∃ rules, (Recognizer.table nested.start nestedTable).parse ['(', ')'] =
          .ok ⟨.leftmost, rules⟩ ∧
        (Derivation.mk .leftmost rules).indices? nestedTable.order = some [0, 1, 1] := by
  obtain ⟨_, _, derivations, answers⟩ := Grammar.derivations_survive_numbering nested
  have known : (Derivation.mk .leftmost nested.rules.toList).indices? (.ofGrammar nested) =
      some [0, 1] := by
    decide
  have numbers : nestedTable.parseIndices nested.start ['(', ')'] = .ok [0, 1, 1] := by
    cbv
  refine ⟨known, (derivations _).2 _ known, nested_table, ?_⟩
  rcases answers 1 nestedTable nested_table ['(', ')'] with ⟨cause, _, rejected⟩ |
    ⟨rules, sequence, parsed, indices, same⟩
  · rw [numbers] at rejected
    cases rejected
  · rw [numbers] at indices
    cases indices
    exact ⟨rules, parsed, same⟩

end StrongLL
