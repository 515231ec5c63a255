import StrongLL.Proofs.Derivation.Traces
import StrongLL.Proofs.Grammar.Units
import StrongLL.Proofs.Recognizer.FirstRun
import StrongLL.Proofs.Recognizer.LeastDerivation
import StrongLL.Proofs.Recognizer.StepLimit

/-!
# The searches answer with short derivations

Count every nonterminal of a sentential form once and every terminal twice. Without empty rules no
step lowers this weight, and only unit rules leave it as it is. The start symbol weighs one and the
input twice its length, so a derivation has fewer than twice as many other rules as there are
characters. A unit rule leaves a nonterminal, so the last rule is none, and every run of unit rules
stands before one of the others. What is left is the length of the runs. The top-down search limits
it as it goes. The bottom-up search counts moves, but a unit reduction needs a nonterminal on top of
the stack, where a shift puts a character, so it counts the rules in a row as well.
-/

namespace StrongLL

set_option autoImplicit false

namespace SententialForm

/-- The nonterminals of the form, and its terminals twice. -/
def weight (form : SententialForm) : Nat := form.length + terminalCount form

variable {rule : Rule}

theorem weight_append (first second : SententialForm) :
    weight (first ++ second) = weight first + weight second := by
  simp only [weight, List.length_append, terminalCount_append]
  omega

theorem weight_nonterminal (n : NonTerminal) (form : SententialForm) :
    weight (.nonterminal n :: form) = weight form + 1 := by
  simp only [weight, List.length_cons, terminalCount_nonterminal]
  omega

theorem weight_spelled (word : Text) : weight (spelled word) = 2 * word.length := by
  induction word with
  | nil => rfl
  | cons c word induction =>
      rw [weight] at induction ⊢
      rw [show spelled (c :: word) = .terminal (.char c) :: spelled word from rfl,
        terminalCount_terminal, List.length_cons, List.length_cons]
      omega

/-- Only a unit rule has a right side that weighs no more than the left one. -/
theorem one_add_le_weight_right (rule : Rule) :
    1 + (if rule.isUnit then 0 else 1) ≤ weight rule.right := by
  cases unit : rule.isUnit with
  | true =>
      have counts := Rule.length_of_isUnit unit
      rw [weight, counts.1, counts.2]
      simp
  | false => exact Rule.two_le_of_not_isUnit unit

end SententialForm

namespace DerivationOrder

open SententialForm

variable {order : DerivationOrder} {step : Nat} {rule : Rule} {form next last : SententialForm}
  {rules : List Rule}

theorem Replaces.weight_le (replaces : order.Replaces rule form next)
    (filled : rule.body = rule.right) :
    weight form + (if rule.isUnit then 0 else 1) ≤ weight next := by
  rcases replaces with ⟨focus, finds, _, same⟩
  have heavier := one_add_le_weight_right rule
  rw [finds.splits, same, filled, weight_append, weight_append, weight_append, weight_nonterminal]
  omega

/-- Every rule that is no unit rule adds to the weight. -/
theorem weight_le_of_reach (reached : order.reach step form rules = .ok last)
    (filled : ∀ rule ∈ rules, rule.body = rule.right) :
    weight form + rules.countP (!·.isUnit) ≤ weight last := by
  induction rules generalizing step form with
  | nil =>
      cases reached
      exact Nat.le_refl _
  | cons rule rules induction =>
      rcases List.forall_mem_cons.1 filled with ⟨first, others⟩
      rw [reach] at reached
      split at reached
      · next next applied =>
          have heavier := (((order.apply_iff step rule form).1 next).1 applied).weight_le first
          have later := induction reached others
          rw [List.countP_cons]
          cases unit : rule.isUnit with
          | true =>
              rw [unit, if_pos rfl] at heavier
              simp only [Bool.not_true, Bool.false_eq_true, if_false]
              omega
          | false =>
              rw [unit, if_neg Bool.false_ne_true] at heavier
              simp only [Bool.not_false, if_true]
              omega
      · cases reached

theorem Replaces.not_isUnit (replaces : order.Replaces rule form next)
    (filled : rule.body = rule.right) (closed : next.any Symbol.isNonTerminal = false) :
    rule.isUnit = false := by
  cases unit : rule.isUnit with
  | false => rfl
  | true =>
      rcases Rule.exists_right_of_isUnit unit with ⟨n, right⟩
      rcases replaces with ⟨focus, _, _, same⟩
      rw [same, filled, right] at closed
      simp [Symbol.isNonTerminal] at closed

/-- The rule that replaces the last nonterminal is no unit rule. -/
theorem not_isUnit_of_getLast? (reached : order.reach step form rules = .ok last)
    (filled : ∀ rule ∈ rules, rule.body = rule.right)
    (closed : last.any Symbol.isNonTerminal = false) :
    ∀ rule ∈ rules.getLast?, rule.isUnit = false := by
  induction rules generalizing step form with
  | nil => exact nofun
  | cons rule rules induction =>
      rcases List.forall_mem_cons.1 filled with ⟨first, others⟩
      rw [reach] at reached
      split at reached
      · next next applied =>
          cases rules with
          | nil =>
              cases reached
              intro other ends
              cases ends
              exact (((order.apply_iff step rule form).1 last).1 applied).not_isUnit first closed
          | cons second rules =>
              rw [List.getLast?_cons_cons]
              exact induction reached others
      · cases reached

end DerivationOrder

/-- A derivation of a word from a grammar without empty rules is short if its runs of unit rules
are. -/
theorem Derivation.Derives.length_le {g : Grammar} {word : Text} {derivation : Derivation}
    (derives : derivation.Derives g word) (free : g.EpsilonFree) {limit : Nat}
    (limited : RunsWithin Rule.isUnit limit derivation.rules) :
    derivation.rules.length ≤ (2 * word.length - 1) * (limit + 1) := by
  have filled : ∀ rule ∈ derivation.rules, rule.body = rule.right := fun rule applied =>
    free.body_eq_right (derives.members rule applied)
  have reached := Derivation.replay_eq_ok_iff.1 derives.replays
  have closed : (spelled word).any Symbol.isNonTerminal = false := by
    simp [spelled, Symbol.isNonTerminal]
  have ends := DerivationOrder.not_isUnit_of_getLast? reached filled closed
  have heavier := DerivationOrder.weight_le_of_reach reached filled
  rw [SententialForm.weight_spelled, SententialForm.weight_nonterminal] at heavier
  have fewer : derivation.rules.countP (!·.isUnit) ≤ 2 * word.length - 1 := by omega
  exact (limited.length_le ends).trans (Nat.mul_le_mul_right (limit + 1) fewer)

/-- The unit rules that an accepting run reduces by in a row are unit reductions in a row. Only a
shift may stand between two of its rules, and it leaves no nonterminal on top of the stack. -/
theorem Grammar.AcceptingRun.runsOn_rules {g : Grammar} {stack : List Symbol} {rest : Text}
    {run : List BottomUp.Move} (accepts : g.AcceptingRun stack rest run) {limit spent units : Nat}
    (runs : RunsOn BottomUp.Move.isUnit limit spent run) (short : units ≤ limit)
    (unbroken : units = spent ∨ ∀ n below, stack ≠ .nonterminal n :: below) :
    RunsOn Rule.isUnit limit units (run.filterMap BottomUp.Move.rule?) := by
  induction accepts generalizing spent units with
  | done => exact runsOn_nil_iff.2 short
  | shift _ induction =>
      have fresh := ((runsOn_cons_iff_of_other rfl).1 runs).2
      exact induction fresh short (.inr nofun)
  | @reduce rule member below rest run _ induction =>
      rcases runsOn_cons_iff.1 runs with ⟨_, room, later⟩
      rw [show (BottomUp.Move.reduce rule).isUnit = rule.isUnit from rfl] at room later
      have same : rule.isUnit = true → units = spent := by
        intro unit
        rcases Rule.exists_right_of_isUnit unit with ⟨n, right⟩
        apply unbroken.resolve_right
        intro other
        exact other n below (by rw [right]; rfl)
      have counts : (if rule.isUnit then units + 1 else 0) =
          if rule.isUnit then spent + 1 else 0 := by
        cases unit : rule.isUnit with
        | true => rw [same unit]
        | false => rfl
      have left : rule.isUnit = true → units < limit := fun unit => same unit ▸ room unit
      apply runsOn_cons_iff.2
      exact ⟨short, left, induction later (Rule.count_le left) (.inl counts)⟩

namespace TopDown

variable {g : Grammar} {word : Text} {limit : Option Nat} {answer : Derivation}

theorem runsWithin_of_parse (filled : word ≠ [])
    (answered : (ofGrammar g limit).parse word = .ok answer) :
    RunsWithin Rule.isUnit g.epsilonFree.unitCount answer.rules := by
  rcases exists_threshold g word with ⟨threshold, _, cut⟩
  exact (firstAmong_of_parse filled (cut.unlimited_of_ok answered)).2.holds.limited

end TopDown

namespace BottomUp

variable {g : Grammar} {word : Text} {limit : Option Nat} {answer : Derivation}

theorem runsWithin_of_parse (filled : word ≠ [])
    (answered : (ofGrammar g limit).parse word = .ok answer) :
    RunsWithin Rule.isUnit g.epsilonFree.unitCount answer.rules := by
  rcases exists_threshold g word with ⟨threshold, _, cut⟩
  rcases exists_first_of_parse filled (cut.unlimited_of_ok answered) with ⟨run, first, same⟩
  have runs := first.holds.accepts.runsOn_rules (runsOn_zero_iff.2 first.holds.limited)
    (Nat.zero_le _) (.inl rfl)
  rw [same]
  exact runs.within.reverse

end BottomUp

/-- Let `U` be the number of unit rules of the grammar without empty rules. A derivation that either
search answers for `n` characters, at least one, has at most `(2 * n - 1) * (U + 1)` rules and no
more than `U` unit rules in a row. A step limit does not matter. -/
theorem searches_answer_short_derivations (g : Grammar) (c : Char) (rest : Text)
    (limit : Option Nat) (answer : Derivation)
    (answered : (TopDown.ofGrammar g limit).parse (c :: rest) = .ok answer ∨
      (BottomUp.ofGrammar g limit).parse (c :: rest) = .ok answer) :
    answer.rules.length ≤
        (2 * (c :: rest).length - 1) * (g.epsilonFree.unitCount + 1) ∧
      RunsWithin Rule.isUnit g.epsilonFree.unitCount answer.rules := by
  have filled : c :: rest ≠ [] := List.cons_ne_nil c rest
  have free := g.epsilonFree_epsilonFree
  rcases answered with topDown | bottomUp
  · have limited := TopDown.runsWithin_of_parse filled topDown
    exact ⟨(TopDown.derives_of_parse filled topDown).length_le free limited, limited⟩
  · have limited := BottomUp.runsWithin_of_parse filled bottomUp
    exact ⟨(BottomUp.derives_of_parse filled bottomUp).length_le free limited, limited⟩

def oneLink : Rule := ⟨.named "P", [.nonterminal (.named "Q")], by simp, by simp⟩

def nextLink : Rule := ⟨.named "Q", [.nonterminal (.named "R")], by simp, by simp⟩

def lastLetter : Rule := ⟨.named "R", [.terminal (.char 'z')], by simp, by simp⟩

def lastParts : Rule :=
  ⟨.named "R", [.nonterminal (.named "P"), .nonterminal (.named "P")], by simp, by simp⟩

/-- Both unit rules are needed before each of the others. -/
def chained : Grammar := .ofRules (.named "P") [oneLink, nextLink, lastLetter, lastParts]

def chainedRules : List Rule :=
  [oneLink, nextLink, lastParts, oneLink, nextLink, lastLetter, oneLink, nextLink, lastLetter]

/-- Both searches answer two characters with as many rules as there may be. -/
theorem chained_reaches_the_bound :
    (TopDown.ofGrammar chained none).parse ['z', 'z'] = .ok ⟨.leftmost, chainedRules⟩ ∧
      (BottomUp.ofGrammar chained (some 100)).parse ['z', 'z'] = .ok ⟨.rightmost, chainedRules⟩ ∧
      chainedRules.length = (2 * 2 - 1) * (chained.epsilonFree.unitCount + 1) ∧
      RunsWithin Rule.isUnit chained.epsilonFree.unitCount chainedRules := by
  have topDown : (TopDown.ofGrammar chained none).parse ['z', 'z'] =
      .ok ⟨.leftmost, chainedRules⟩ := by
    decide +kernel
  have found : (BottomUp.ofGrammar chained (some 100)).space.search 100
      (BottomUp.initial ['z', 'z']) [] =
        .found ⟨[.nonterminal (.named "P")], [], 2, chainedRules⟩ := by
    cbv
  have bottomUp : (BottomUp.ofGrammar chained (some 100)).parse ['z', 'z'] =
      .ok ⟨.rightmost, chainedRules⟩ := by
    have limit : (BottomUp.ofGrammar chained (some 100)).stepLimit = some 100 := rfl
    simp only [BottomUp.parse, limit, Option.getD_some, found]
    rfl
  have short := searches_answer_short_derivations chained 'z' ['z'] (some 100) _ (.inr bottomUp)
  exact ⟨topDown, bottomUp, by decide +kernel, short.2⟩

end StrongLL
