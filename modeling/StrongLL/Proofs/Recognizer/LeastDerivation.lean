import StrongLL.Proofs.Recognizer.Answers
import StrongLL.Proofs.Search.First
import StrongLL.Proofs.Search.Runs

/-!
# The top-down search answers with the least derivation

The rules that a nonterminal has are tried in their order, so the search reads derivations in
lexicographic order and answers with the first one. It leaves out the states with more pending
symbols than unread characters, from which no word is derived, and the expansions that would make a
run of unit rules too long. A character is never read inside such a run, because the nonterminal
that a unit rule leaves is pending first. So the answer is the least of all leftmost derivations of
the input whose runs of unit rules keep to the limit.
-/

namespace StrongLL

set_option autoImplicit false

open Std

theorem Derivation.ext {first second : Derivation} (order : first.order = second.order)
    (rules : first.rules = second.rules) : first = second := by
  cases first
  cases second
  simp_all

/-- The rules of the grammar that replay leftmost from the start to the word, with no more unit
rules in a row than the grammar has. -/
structure Grammar.LimitedDerivation (g : Grammar) (word : Text) (rules : List Rule) : Prop where
  derives : (Derivation.mk .leftmost rules).Derives g word
  limited : RunsWithin Rule.isUnit g.unitCount rules

theorem Grammar.limitedDerivation_iff {g : Grammar} {word : Text} {rules : List Rule} :
    g.LimitedDerivation word rules ↔
      g.Leftmost [.nonterminal g.start] word rules ∧ RunsWithin Rule.isUnit g.unitCount rules := by
  constructor
  · intro ⟨⟨members, replays⟩, limited⟩
    exact ⟨(replay_leftmost_eq_ok_iff members).1 replays, limited⟩
  · intro ⟨leftmost, limited⟩
    exact ⟨leftmost.answers, limited⟩

namespace TopDown

variable {search : TopDown} {state next last : State}

/-- The rule that a move applies. -/
def Move.rule? : Move → Option Rule
  | scan => none
  | expand rule => some rule

/-- The moves at a state are in the order of their rules. -/
inductive Move.Before : Move → Move → Prop where
  | expand {first second : Rule} (before : first.Before second) :
    Before (.expand first) (.expand second)

theorem pairwise_moves (search : TopDown) (state : State) :
    (search.space.moves state).Pairwise Move.Before := by
  simp only [space, moves]
  split
  · exact List.Pairwise.nil
  · split
    · exact List.Pairwise.nil
    · exact List.pairwise_singleton ..
    · next n _ _ =>
        have ordered := search.grammar.pairwise_rules.filter fun rule => rule.left == n
        exact List.pairwise_map.2 (ordered.imp .expand)

theorem lex_rules {path other : List Move} (less : List.Lex Move.Before path other) :
    path.filterMap Move.rule? = other.filterMap Move.rule? ∨
      List.Lex Rule.Before (path.filterMap Move.rule?) (other.filterMap Move.rule?) := by
  induction less with
  | nil => exact nil_eq_or_lex _
  | rel before =>
      cases before with
      | expand before => exact .inr (.rel before)
  | @cons move _ _ _ induction =>
      cases move with
      | scan => exact induction
      | expand rule =>
          rcases induction with same | less
          · exact .inl (congrArg (rule :: ·) same)
          · exact .inr (.cons less)

theorem applied_of_made {move : Move} {memo : Memo}
    (made : search.space.perform? state move = some (next, memo)) :
    next.applied = move.rule?.toList ++ state.applied := by
  cases move with
  | scan =>
      simp only [space, perform?] at made
      split at made
      · split at made
        · cases made
          rfl
        · cases made
      · cases made
  | expand rule =>
      simp only [space, perform?] at made
      split at made
      · cases made
      · cases made
        rfl

theorem Move.eq_scan {move : Move} {applied : List Rule}
    (label : applied = move.rule?.toList ++ applied) : move = .scan := by
  have nothing : move.rule?.toList = [] := List.self_eq_append_left.1 label
  cases move with
  | scan => rfl
  | expand rule => cases nothing

theorem Move.eq_expand {move : Move} {rule : Rule} {applied : List Rule}
    (label : rule :: applied = move.rule?.toList ++ applied) : move = .expand rule := by
  have applies : [rule] = move.rule?.toList :=
    List.append_cancel_right (List.singleton_append.trans label)
  cases move with
  | scan => cases applies
  | expand other =>
      cases applies
      rfl

theorem applied_of_path {path : List Move} (leads : search.space.Path state path last) :
    last.applied = (path.filterMap Move.rule?).reverse ++ state.applied :=
  leads.log_eq applied_of_made

/-- After a unit rule a nonterminal is pending first. -/
def State.Unbroken (state : State) : Prop :=
  state.units = 0 ∨ ∃ n pending, state.pending = .nonterminal n :: pending

theorem Step.unbroken (step : search.Step state next) : next.Unbroken := by
  cases step with
  | scan _ => exact .inl rfl
  | @expand rule _ pending _ _ _ _ _ =>
      cases unit : rule.isUnit with
      | false => exact .inl rfl
      | true =>
          rcases Rule.exists_right_of_isUnit unit with ⟨n, right⟩
          exact .inr ⟨n, pending, by rw [right]; rfl⟩

/-- The rules of a path keep to the limit of unit rules that is left at its beginning. -/
theorem runsOn_of_path {path : List Move} (leads : search.space.Path state path last)
    (unbroken : state.Unbroken) (short : state.units ≤ search.unitLimit) :
    RunsOn Rule.isUnit search.unitLimit state.units (path.filterMap Move.rule?) := by
  induction leads with
  | nil => exact runsOn_nil_iff.2 short
  | @cons state next _ move memo path offered made _ induction =>
      have step := step_of_leads ⟨move, offered, memo, made⟩
      have label := applied_of_made made
      have later := induction step.unbroken
      cases step with
      | scan _ =>
          -- No unit rule stands right before a character, so the limit is whole here.
          have fresh := unbroken.resolve_right nofun
          simp only at fresh
          rw [Move.eq_scan label, fresh]
          exact later (Nat.zero_le _)
      | @expand rule _ pending rest units applied _ room =>
          rw [Move.eq_expand label]
          exact runsOn_cons_iff.2 ⟨short, room, later (Rule.count_le room)⟩

theorem Step.accepts {path : List Move} (step : search.Step state next)
    (accepts : search.space.Accepts next path) :
    ∃ move, search.space.Accepts state (move :: path) ∧
      next.applied = move.rule?.toList ++ state.applied := by
  rcases accepts.of_leads (leads_of_step step) with ⟨move, memo, made, whole⟩
  exact ⟨move, whole, applied_of_made made⟩

/-- Every derivation of the unread input from the pending symbols is one that the search would come
to, if its runs of unit rules keep to the limit. -/
theorem exists_accepts (free : search.grammar.EpsilonFree) {pending : List Symbol} {rest : Text}
    {rules : List Rule} (leftmost : search.grammar.Leftmost pending rest rules)
    (plain : Symbol.terminal .epsilon ∉ pending) {units : Nat}
    (runs : RunsOn Rule.isUnit search.unitLimit units rules) (applied : List Rule) :
    ∃ path, search.space.Accepts ⟨pending, rest, units, applied⟩ path ∧
      path.filterMap Move.rule? = rules := by
  induction leftmost generalizing units applied with
  | nil => exact ⟨[], ⟨_, .nil, rfl⟩, rfl⟩
  | skip => exact absurd List.mem_cons_self plain
  | @scan c symbols word rules behind induction =>
      have plainBehind : Symbol.terminal .epsilon ∉ symbols := fun occurs =>
        plain (List.mem_cons_of_mem _ occurs)
      have alive := free.length_le (Grammar.yields_iff_leftmost.2 behind) plainBehind
      rcases induction plainBehind (runsOn_zero_iff.2 runs.within) applied with
        ⟨path, accepts, same⟩
      have step : search.Step ⟨.terminal (.char c) :: symbols, c :: word, units, applied⟩ _ :=
        .scan alive
      rcases step.accepts accepts with ⟨move, whole, label⟩
      rw [Move.eq_scan label] at whole
      exact ⟨.scan :: path, whole, same⟩
  | @expand rule member symbols word rules later induction =>
      have alive := free.length_le (Grammar.yields_iff_leftmost.2 (.expand member later)) plain
      have body := free.body_eq_right member
      have plainLater : Symbol.terminal .epsilon ∉ rule.body ++ symbols :=
        rule.epsilon_not_mem_replaced [] plain
      rcases runsOn_cons_iff.1 runs with ⟨_, room, after⟩
      rcases induction plainLater after (rule :: applied) with ⟨path, accepts, same⟩
      rw [body] at accepts
      rcases (Step.expand member alive room).accepts accepts with ⟨move, whole, label⟩
      rw [Move.eq_expand label] at whole
      exact ⟨.expand rule :: path, whole, congrArg (rule :: ·) same⟩

theorem exists_accepts_initial_iff (g : Grammar) (word : Text) (rules : List Rule) :
    (∃ path, (ofGrammar g none).space.Accepts ((ofGrammar g none).initial word) path ∧
        path.filterMap Move.rule? = rules) ↔ g.epsilonFree.LimitedDerivation word rules := by
  rw [Grammar.limitedDerivation_iff]
  constructor
  · intro ⟨path, ⟨last, leads, accepted⟩, same⟩
    rcases leftmost_of_reaches g.epsilonFree_epsilonFree leads.reaches accepted with
      ⟨derived, applied, leftmost⟩
    have listed := applied_of_path leads
    rw [same] at listed
    have equal : rules.reverse = derived.reverse :=
      List.append_cancel_right (listed.symm.trans applied)
    rw [List.reverse_inj.1 equal]
    have runs := runsOn_of_path leads (.inl rfl) (Nat.zero_le _)
    rw [same, List.reverse_inj.1 equal] at runs
    exact ⟨leftmost, runs.within⟩
  · intro ⟨leftmost, limited⟩
    exact exists_accepts g.epsilonFree_epsilonFree leftmost (by simp)
      (runsOn_zero_iff.2 limited) []

theorem firstAmong_of_parse {g : Grammar} {word : Text} (filled : word ≠ []) {answer : Derivation}
    (answered : (ofGrammar g none).parse word = .ok answer) :
    answer.order = .leftmost ∧
      FirstAmong Rule.Before (g.epsilonFree.LimitedDerivation word) answer.rules := by
  rw [parse_filled _ filled] at answered
  rcases Verdict.answer_eq_ok_iff.1 answered with ⟨last, found, rfl⟩
  have first := Space.exists_first_of_search (restores_space _)
    (fun _ _ leads => height_lt (step_of_leads leads)) (length_moves_le _) (pairwise_moves _) found
  rcases first with ⟨path, leads, first⟩
  have applied := applied_of_path leads
  have listed : last.applied.reverse = path.filterMap Move.rule? := by
    rw [applied, List.reverse_append, List.reverse_reverse]
    rfl
  have candidate_iff := exists_accepts_initial_iff g word
  refine ⟨rfl, ?_⟩
  simp only [listed]
  constructor
  · exact (candidate_iff _).1 ⟨path, first.holds, rfl⟩
  · intro other candidate
    rcases (candidate_iff other).2 candidate with ⟨rival, accepts, same⟩
    rw [← same]
    rcases first.before rival accepts with equal | less
    · exact .inl (congrArg _ equal)
    · exact lex_rules less

end TopDown

/-- Without a step limit the top-down search answers a non-empty input with a derivation exactly if
it is the least of all leftmost derivations of the input in the grammar without empty rules that
have no more unit rules in a row than the grammar has. -/
theorem topDown_answers_least_derivation (g : Grammar) (c : Char) (rest : Text)
    (answer : Derivation) :
    (TopDown.ofGrammar g none).parse (c :: rest) = .ok answer ↔
      answer.order = .leftmost ∧
        FirstAmong Rule.Before (g.epsilonFree.LimitedDerivation (c :: rest)) answer.rules := by
  have filled : c :: rest ≠ [] := List.cons_ne_nil c rest
  constructor
  · exact TopDown.firstAmong_of_parse filled
  · intro ⟨order, first⟩
    have derived := (Grammar.limitedDerivation_iff.1 first.holds).1
    have free := Grammar.language_iff_leftmost.2 ⟨_, derived⟩
    have inside := (Grammar.language_epsilonFree_iff.1 free).2
    rcases (TopDown.decided_parse g (c :: rest)).1.2 inside with ⟨other, answered⟩
    rcases TopDown.firstAmong_of_parse filled answered with ⟨same, least⟩
    have equal : other = answer :=
      Derivation.ext (same.trans order.symm) (least.unique Rule.Before.asymm first)
    rw [answered, equal]

def oneLetter : Rule := ⟨.named "S", [.terminal (.char 'x')], by simp, by simp⟩

def twoParts : Rule :=
  ⟨.named "S", [.nonterminal (.named "S"), .nonterminal (.named "S")], by simp, by simp⟩

/-- A word of three letters or more is derived in more than one way. -/
def ambiguous : Grammar := .ofRules (.named "S") [oneLetter, twoParts]

/-- The letter comes before the parts, so the left part is as short as it can be. -/
example : (TopDown.ofGrammar ambiguous none).parse ['x', 'x', 'x'] =
    .ok ⟨.leftmost, [twoParts, oneLetter, twoParts, oneLetter, oneLetter]⟩ := by
  decide +kernel

end StrongLL
