import Mathlib.Data.List.Forall2
import StrongLL.Proofs.Derivation.Yields

/-!
# Replaying leftmost derivations

Replay looks for the first nonterminal of the whole form at every step, while `Leftmost` passes over
a terminal once and for all. A terminal at the front takes no part in what is replayed behind it, so
the two agree: a list of rules replays to a word exactly if it is a leftmost derivation of it.
-/

namespace StrongLL

set_option autoImplicit false

theorem any_isNonTerminal_map_terminal (terminals : List Terminal) :
    (terminals.map Symbol.terminal).any Symbol.isNonTerminal = false := by
  simp [Symbol.isNonTerminal]

theorem filterMap_terminal?_map_terminal (terminals : List Terminal) :
    (terminals.map Symbol.terminal).filterMap Symbol.terminal? = terminals := by
  rw [List.filterMap_map]
  exact List.filterMap_some

theorem map_terminal_filterMap {form : SententialForm}
    (closed : form.any Symbol.isNonTerminal = false) :
    (form.filterMap Symbol.terminal?).map Symbol.terminal = form := by
  induction form with
  | nil => rfl
  | cons s form induction =>
      cases s with
      | nonterminal n => exact nomatch closed
      | terminal t =>
          have rest : form.any Symbol.isNonTerminal = false := closed
          exact congrArg (.terminal t :: ·) (induction rest)

/-- Replay gives the terminals of the last form, if nothing else is in it. -/
theorem Derivation.replay_eq_ok_iff_reach {derivation : Derivation} {start : NonTerminal}
    {terminals : List Terminal} :
    derivation.replay start = .ok terminals ↔
      derivation.order.reach 0 [.nonterminal start] derivation.rules =
        .ok (terminals.map .terminal) := by
  unfold Derivation.replay
  constructor
  · intro replayed
    split at replayed
    · next form reached =>
        split at replayed
        · exact nomatch replayed
        · next closed =>
            have kept : form.filterMap Symbol.terminal? = terminals := Except.ok.inj replayed
            rw [reached, ← kept, map_terminal_filterMap (by simpa using closed)]
    · exact nomatch replayed
  · intro reached
    rw [reached]
    simp only [any_isNonTerminal_map_terminal, filterMap_terminal?_map_terminal,
      Bool.false_eq_true, if_false]

theorem Derivation.replay_eq_ok_iff {derivation : Derivation} {start : NonTerminal} {word : Text} :
    derivation.replay start = .ok (word.map .char) ↔
      derivation.order.reach 0 [.nonterminal start] derivation.rules = .ok (spelled word) := by
  rw [replay_eq_ok_iff_reach, List.map_map]
  rfl

namespace DerivationOrder

theorem reach_leftmost_terminal (step : Nat) (t : Terminal) (form : SententialForm)
    (rules : List Rule) :
    leftmost.reach step (.terminal t :: form) rules =
      (leftmost.reach step form rules).map (.terminal t :: ·) := by
  induction rules generalizing step form with
  | nil => rfl
  | cons rule rules induction =>
      simp only [reach, apply, focus?, Focus.leftmost?]
      cases Focus.leftmost? form with
      | none => rfl
      | some focus =>
          simp only [Option.map_some]
          by_cases fits : focus.found = rule.left
          · simp only [fits, if_true]
            exact induction (step + 1) (focus.replace rule.body)
          · simp only [fits, if_false]
            rfl

theorem reach_leftmost_nonterminal (step : Nat) (n : NonTerminal) (form : SententialForm)
    (rule : Rule) (rules : List Rule) :
    leftmost.reach step (.nonterminal n :: form) (rule :: rules) =
      if n = rule.left then leftmost.reach (step + 1) (rule.body ++ form) rules
      else .error (.wrongNonTerminal step rule n) := by
  simp only [reach, apply, focus?, Focus.leftmost?, Focus.replace, List.nil_append]
  by_cases fits : n = rule.left
  · simp only [fits, if_true]
  · simp only [fits, if_false]

end DerivationOrder

namespace Grammar

variable {g : Grammar}

theorem Leftmost.reach {form : SententialForm} {word : Text} {rules : List Rule}
    (leftmost : g.Leftmost form word rules) (plain : Symbol.terminal .epsilon ∉ form) (step : Nat) :
    DerivationOrder.leftmost.reach step form rules = .ok (spelled word) := by
  induction leftmost generalizing step with
  | nil => rfl
  | skip => exact absurd List.mem_cons_self plain
  | scan c _ induction =>
      rw [DerivationOrder.reach_leftmost_terminal,
        induction (fun occurs => plain (List.mem_cons_of_mem _ occurs)) step]
      rfl
  | @expand rule _ symbols _ _ _ induction =>
      rw [DerivationOrder.reach_leftmost_nonterminal, if_pos rfl]
      exact induction (rule.epsilon_not_mem_replaced [] plain) (step + 1)

theorem Leftmost.of_reach {form : SententialForm} {word : Text} {rules : List Rule} {step : Nat}
    (members : ∀ rule ∈ rules, rule ∈ g.rules)
    (reached : DerivationOrder.leftmost.reach step form rules = .ok (spelled word)) :
    g.Leftmost form word rules := by
  -- The outer induction pays for the expansions, the inner one for the terminals between them.
  induction rules generalizing form word step with
  | nil =>
      have same : form = spelled word := Except.ok.inj reached
      rw [same, ← yields_iff_leftmost]
      exact yields_spelled word
  | cons rule rules induction =>
      induction form generalizing word with
      | nil => exact nomatch reached
      | cons s form formInduction =>
          cases s with
          | terminal t =>
              rw [DerivationOrder.reach_leftmost_terminal] at reached
              cases found : DerivationOrder.leftmost.reach step form (rule :: rules) with
              | error cause => rw [found] at reached; exact nomatch reached
              | ok last =>
                  rw [found] at reached
                  have spelling : .terminal t :: last = spelled word := Except.ok.inj reached
                  obtain ⟨c, rest, rfl, same, tail⟩ := List.map_eq_cons_iff.1 spelling.symm
                  cases same
                  exact .scan c (formInduction (by rw [found, ← tail]; rfl))
          | nonterminal n =>
              rw [DerivationOrder.reach_leftmost_nonterminal] at reached
              split at reached
              · next fits =>
                  rw [fits]
                  apply Leftmost.expand (members rule List.mem_cons_self)
                  exact induction
                    (fun other later => members other (List.mem_cons_of_mem rule later))
                    reached
              · exact nomatch reached

/-- The rules of the grammar that replay leftmost from the start to a word are those of its leftmost
derivations. -/
theorem replay_leftmost_eq_ok_iff {start : NonTerminal} {word : Text} {rules : List Rule}
    (members : ∀ rule ∈ rules, rule ∈ g.rules) :
    (Derivation.mk .leftmost rules).replay start = .ok (word.map .char) ↔
      g.Leftmost [.nonterminal start] word rules := by
  rw [Derivation.replay_eq_ok_iff]
  constructor
  · exact fun reached => Leftmost.of_reach members reached
  · exact fun leftmost => leftmost.reach (by simp) 0

theorem Leftmost.replays {start : NonTerminal} {word : Text} {rules : List Rule}
    (leftmost : g.Leftmost [.nonterminal start] word rules) :
    (Derivation.mk .leftmost rules).replay start = .ok (word.map .char) :=
  (replay_leftmost_eq_ok_iff leftmost.mem_rules).2 leftmost

end Grammar

namespace RuleOrder

variable {order : RuleOrder}

theorem rules?_eq_ok_iff {step : Nat} {sequence : List Nat} {rules : List Rule} :
    order.rules? step sequence = .ok rules ↔
      List.Forall₂ (fun index rule => order.rule? index = some rule) sequence rules := by
  induction sequence generalizing step rules with
  | nil =>
      constructor
      · intro found
        cases found
        exact .nil
      · intro matched
        cases matched
        rfl
  | cons index sequence induction =>
      simp only [rules?]
      constructor
      · intro found
        split at found
        · next rule known =>
            cases rest : order.rules? (step + 1) sequence with
            | error cause => rw [rest] at found; exact nomatch found
            | ok tail =>
                rw [rest] at found
                have same : rule :: tail = rules := Except.ok.inj found
                rw [← same]
                exact .cons known (induction.1 rest)
        · exact nomatch found
      · intro matched
        cases matched with
        | cons known rest =>
            rw [known]
            simp only [induction.2 rest]
            rfl

theorem replay_eq_ok_iff {sequence : List Nat} {terminals : List Terminal} :
    order.replay sequence = .ok terminals ↔
      ∃ rules, List.Forall₂ (fun index rule => order.rule? index = some rule) sequence rules ∧
        (Derivation.mk .leftmost rules).replay order.start = .ok terminals := by
  unfold RuleOrder.replay
  constructor
  · intro replayed
    split at replayed
    · next rules known => exact ⟨rules, rules?_eq_ok_iff.1 known, replayed⟩
    · exact nomatch replayed
  · rintro ⟨rules, known, replayed⟩
    rw [rules?_eq_ok_iff.2 known]
    exact replayed

end RuleOrder

end StrongLL
