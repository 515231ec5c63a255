import StrongLL.Proofs.Grammar.Units
import StrongLL.Proofs.Recognizer.Decision
import StrongLL.Recognizer.TopDown

/-!
# Top-down search decides the language

The states that lead to acceptance are those whose pending symbols derive the unread input. A
shortest derivation is never cut. Its pending symbols do not outnumber the unread characters,
because each of them derives at least one. Its runs of unit rules do not repeat a rule: the symbols
behind the first one are the same before every rule of a run, and deriving the unread input from an
earlier left side takes more rules than from a later one.

The search ends because three times the unread characters less the pending symbols and less the
terminals among them falls with every move but a unit rule, and a run of unit rules is limited.
-/

namespace StrongLL

set_option autoImplicit false

open Relation

namespace TopDown

/-- A move of the search, with the conditions under which it is made. -/
inductive Step (search : TopDown) : State → State → Prop where
  | scan {c : Char} {pending : List Symbol} {rest : Text} {units : Nat} {applied : List Rule}
      (alive : pending.length ≤ rest.length) :
      Step search ⟨.terminal (.char c) :: pending, c :: rest, units, applied⟩
        ⟨pending, rest, 0, applied⟩
  | expand {rule : Rule} (member : rule ∈ search.grammar.rules) {pending : List Symbol}
      {rest : Text} {units : Nat} {applied : List Rule} (alive : pending.length < rest.length)
      (short : rule.isUnit = true → units < search.unitLimit) :
      Step search ⟨.nonterminal rule.left :: pending, rest, units, applied⟩
        ⟨rule.right ++ pending, rest, if rule.isUnit then units + 1 else 0, rule :: applied⟩

variable {search : TopDown} {state next : State}

theorem leads_of_step (step : search.Step state next) : search.space.Leads state next := by
  cases step with
  | @scan c pending rest units applied alive =>
      refine ⟨.scan, ?_, .scanned c units, ?_⟩
      · simp only [space, moves, List.length_cons]
        rw [if_neg (by omega)]
        exact List.mem_cons_self
      · simp only [space, perform?, if_true]
  | @expand rule member pending rest units applied alive short =>
      refine ⟨.expand rule, ?_, .expanded rule units, ?_⟩
      · simp only [space, moves, List.length_cons]
        rw [if_neg (by omega)]
        exact List.mem_map_of_mem (Grammar.mem_rulesOf.2 ⟨member, rfl⟩)
      · simp only [space, perform?, Rule.uncut_iff.2 short, Bool.false_eq_true, if_false, List.tail_cons]

theorem step_of_leads (leads : search.space.Leads state next) : search.Step state next := by
  obtain ⟨move, offered, memo, made⟩ := leads
  obtain ⟨pending, rest, units, applied⟩ := state
  simp only [space, moves] at offered
  split at offered
  · exact absurd offered List.not_mem_nil
  · next alive =>
      simp only [Nat.not_lt] at alive
      cases pending with
      | nil => exact absurd offered List.not_mem_nil
      | cons top pending =>
          cases top with
          | terminal t =>
              cases List.mem_singleton.1 offered
              cases t with
              | epsilon => cases made
              | char c =>
                  cases rest with
                  | nil => cases made
                  | cons found rest =>
                      by_cases same : c = found
                      · simp only [space, perform?, same, if_true] at made
                        cases made
                        exact same ▸ .scan (Nat.le_of_succ_le_succ alive)
                      · simp only [space, perform?, same, if_false] at made
                        cases made
          | nonterminal n =>
              obtain ⟨rule, listed, rfl⟩ := List.mem_map.1 offered
              obtain ⟨member, rfl⟩ := Grammar.mem_rulesOf.1 listed
              cases cut : (rule.isUnit && decide (search.unitLimit ≤ units)) with
              | true => simp [space, perform?, cut] at made
              | false =>
                  simp only [space, perform?, cut, Bool.false_eq_true, if_false, List.tail_cons] at made
                  cases made
                  exact .expand member alive (Rule.uncut_iff.1 cut)

/-- Three times the unread characters, less the pending symbols and less the terminals among them. -/
def State.rank (state : State) : Nat :=
  3 * state.rest.length - state.pending.length - terminalCount state.pending

/-- How far a state is from the end of every path: nothing at a dead state. -/
def height (search : TopDown) (state : State) : Nat :=
  if state.pending.length ≤ state.rest.length then
    rankLeft search.unitLimit state.rank state.units + 1
  else 0

theorem height_of_alive (alive : state.pending.length ≤ state.rest.length) :
    search.height state = rankLeft search.unitLimit state.rank state.units + 1 :=
  if_pos alive

theorem height_lt_of_rankLeft (alive : state.pending.length ≤ state.rest.length)
    (less : next.pending.length ≤ next.rest.length →
      rankLeft search.unitLimit next.rank next.units <
        rankLeft search.unitLimit state.rank state.units) :
    search.height next < search.height state := by
  rw [height_of_alive alive, height]
  split
  · next aliveNext => exact Nat.succ_lt_succ (less aliveNext)
  · exact Nat.succ_pos _

theorem height_lt (step : search.Step state next) : search.height next < search.height state := by
  cases step with
  | @scan c pending rest units applied alive =>
      have few := terminalCount_le_length pending
      refine height_lt_of_rankLeft (Nat.succ_le_succ alive) fun _ => ?_
      apply rankLeft_lt_of_rank
      simp only [State.rank, terminalCount_terminal, List.length_cons]
      omega
  | @expand rule member pending rest units applied alive short =>
      have few := terminalCount_le_length pending
      refine height_lt_of_rankLeft alive fun aliveNext => ?_
      rw [List.length_append] at aliveNext
      cases unit : rule.isUnit with
      | true =>
          obtain ⟨one, none⟩ := Rule.length_of_isUnit unit
          have same : State.rank ⟨rule.right ++ pending, rest, units + 1, rule :: applied⟩ =
              State.rank ⟨.nonterminal rule.left :: pending, rest, units, applied⟩ := by
            simp only [State.rank, terminalCount_append, terminalCount_nonterminal, List.length_append,
              List.length_cons]
            omega
          simp only [if_true]
          rw [same]
          exact rankLeft_lt_of_unit (short unit)
      | false =>
          have wide := Rule.two_le_of_not_isUnit unit
          have fewRight := terminalCount_le_length rule.right
          apply rankLeft_lt_of_rank
          simp only [State.rank, terminalCount_append, terminalCount_nonterminal, List.length_append,
            List.length_cons]
          omega

theorem length_moves_le (search : TopDown) (state : State) :
    (search.space.moves state).length ≤ search.grammar.rules.size + 1 := by
  simp only [space, moves]
  split
  · exact Nat.zero_le _
  · split
    · exact Nat.zero_le _
    · exact Nat.le_add_left ..
    · rw [List.length_map]
      exact Nat.le_succ_of_le (search.grammar.length_rulesOf_le _)

theorem leftmost_of_reaches (free : search.grammar.EpsilonFree) {last : State}
    (reaches : search.space.Reaches state last) (accepted : last.accepted = true) :
    ∃ rules, last.applied = rules.reverse ++ state.applied ∧
      search.grammar.Leftmost state.pending state.rest rules := by
  induction reaches using ReflTransGen.head_induction_on with
  | refl =>
      obtain ⟨noPending, noRest⟩ := Bool.and_eq_true_iff.1 accepted
      rw [List.isEmpty_iff] at noPending noRest
      rw [noPending, noRest]
      exact ⟨[], rfl, .nil⟩
  | head leads _ induction =>
      obtain ⟨rules, same, leftmost⟩ := induction
      cases step_of_leads leads with
      | @scan c _ _ _ _ _ => exact ⟨rules, same, .scan c leftmost⟩
      | @expand rule member _ _ _ applied _ _ =>
          refine ⟨rule :: rules, ?_, .expand member ?_⟩
          · rw [same, List.reverse_cons, List.append_assoc]
            rfl
          · rw [free.body_eq_right member]
            exact leftmost

/-- The rules that take part in deriving the unread input from a left side before `behind`. -/
def Costs (search : TopDown) (behind : List Symbol) (rest : Text) (rule : Rule) (cost : Nat) :
    Prop :=
  ∃ rules, search.grammar.Leftmost (.nonterminal rule.left :: behind) rest rules ∧
    rules.length = cost

/-- The search follows a shortest derivation. -/
theorem exists_accepted (free : search.grammar.EpsilonFree)
    (limit : search.unitLimit = search.grammar.unitCount) {pending : List Symbol} {rest : Text}
    {rules : List Rule} (leftmost : search.grammar.Leftmost pending rest rules)
    (plain : Symbol.terminal .epsilon ∉ pending)
    (shortest : ∀ others, search.grammar.Leftmost pending rest others →
      rules.length ≤ others.length)
    {run : List Rule}
    (unitRun : search.grammar.UnitRun (search.Costs pending.tail rest) rules.length run)
    (applied : List Rule) :
    ∃ last, search.space.Reaches ⟨pending, rest, run.length, applied⟩ last ∧
      last.accepted = true := by
  induction leftmost generalizing run applied with
  | nil => exact ⟨_, .refl, rfl⟩
  | skip => exact absurd List.mem_cons_self plain
  | @scan c symbols word rules behind induction =>
      have plainBehind : Symbol.terminal .epsilon ∉ symbols := fun occurs =>
        plain (List.mem_cons_of_mem _ occurs)
      have alive := free.length_le (Grammar.yields_iff_leftmost.2 behind) plainBehind
      obtain ⟨last, reaches, accepted⟩ := induction plainBehind
        (fun others found => shortest others (.scan c found)) Grammar.unitRun_nil applied
      exact ⟨last, .head (leads_of_step (.scan alive)) reaches, accepted⟩
  | @expand rule member symbols word rules later induction =>
      have whole :
          search.grammar.Leftmost (.nonterminal rule.left :: symbols) word (rule :: rules) :=
        .expand member later
      have alive := free.length_le (Grammar.yields_iff_leftmost.2 whole) plain
      have body := free.body_eq_right member
      have plainLater : Symbol.terminal .epsilon ∉ rule.body ++ symbols :=
        rule.epsilon_not_mem_replaced [] plain
      have shortestLater : ∀ others, search.grammar.Leftmost (rule.body ++ symbols) word others →
          rules.length ≤ others.length := fun others found =>
        Nat.le_of_succ_le_succ (shortest (rule :: others) (.expand member found))
      cases unit : rule.isUnit with
      | false =>
          obtain ⟨last, reaches, accepted⟩ :=
            induction plainLater shortestLater Grammar.unitRun_nil (rule :: applied)
          have step :
              search.Step ⟨.nonterminal rule.left :: symbols, word, run.length, applied⟩ _ :=
            .expand member alive fun given => nomatch unit.symm.trans given
          rw [unit, ← body] at step
          exact ⟨last, .head (leads_of_step step) reaches, accepted⟩
      | true =>
          obtain ⟨n, right⟩ := Rule.exists_right_of_isUnit unit
          have cheapest : ∀ other, search.Costs symbols word rule other →
              rules.length + 1 ≤ other := by
            rintro _ ⟨others, found, rfl⟩
            exact shortest others found
          obtain ⟨room, extended⟩ := unitRun.extend member unit ⟨_, whole, rfl⟩ cheapest
          have tail : (rule.body ++ symbols).tail = symbols := by
            rw [body, right]
            rfl
          rw [← tail] at extended
          obtain ⟨last, reaches, accepted⟩ :=
            induction plainLater shortestLater extended (rule :: applied)
          have step :
              search.Step ⟨.nonterminal rule.left :: symbols, word, run.length, applied⟩ _ :=
            .expand member alive fun _ => limit ▸ room
          rw [unit, ← body] at step
          exact ⟨last, .head (leads_of_step step) reaches, accepted⟩

theorem reaches_accepted_iff (free : search.grammar.EpsilonFree)
    (limit : search.unitLimit = search.grammar.unitCount) {word : Text} :
    (∃ last, search.space.Reaches (search.initial word) last ∧ last.accepted = true) ↔
      search.grammar.Language word := by
  rw [Grammar.language_iff_leftmost]
  constructor
  · intro ⟨last, reaches, accepted⟩
    obtain ⟨rules, _, leftmost⟩ := leftmost_of_reaches free reaches accepted
    exact ⟨rules, leftmost⟩
  · intro ⟨rules, leftmost⟩
    obtain ⟨fewest, found, shortest⟩ := leftmost.exists_shortest
    exact exists_accepted free limit found (by simp) shortest Grammar.unitRun_nil []

theorem pow_height_le (search : TopDown) (word : Text) :
    (search.grammar.rules.size + 1 + 1) ^ search.height (search.initial word) ≤
      search.visitBound word.length := by
  rw [visitBound, Nat.pow_eq]
  apply Nat.pow_le_pow_right (Nat.succ_pos _)
  unfold height
  split
  · next alive =>
      have rank : (search.initial word).rank = 3 * word.length - 1 := rfl
      have some : 1 ≤ word.length := alive
      obtain ⟨less, same⟩ : ∃ less, 3 * word.length = less + 1 := ⟨3 * word.length - 1, by omega⟩
      rw [rank, same, Nat.add_sub_cancel, rankLeft, Nat.succ_mul]
      omega
  · exact Nat.zero_le _

theorem exists_verdict (g : Grammar) (limit : Option Nat) (word : Text) :
    ∃ verdict, (ofGrammar g limit).space.Ends ((ofGrammar g limit).initial word) verdict ∧
      ∀ visits, (ofGrammar g limit).visitBound word.length ≤ visits →
        (ofGrammar g limit).space.search visits ((ofGrammar g limit).initial word) [] = verdict :=
  Space.exists_verdict_of_bound (restores_space _)
    (fun _ _ leads => height_lt (step_of_leads leads))
    (length_moves_le _) (pow_height_le _ word)

theorem parse_filled (search : TopDown) {input : Text} (filled : input ≠ []) :
    search.parse input =
      (search.space.search (search.stepLimit.getD (search.visitBound input.length))
        (search.initial input) []).answer (fun last => ⟨.leftmost, last.applied.reverse⟩)
        (search.stepLimit.getD (search.visitBound input.length)) := by
  rw [parse, if_neg (by simpa using filled)]
  simp only
  cases search.space.search (search.stepLimit.getD (search.visitBound input.length))
    (search.initial input) [] with
  | found last => rfl
  | exhausted back => rfl
  | cut => rfl

theorem decided_parse (g : Grammar) (word : Text) :
    Decided g word ((ofGrammar g none).parse word) := by
  by_cases empty : word = []
  · rw [empty]
    exact decided_onEmpty g
  · have filled : word.isEmpty = false := by simpa using empty
    have reaches_iff :
        (∃ last, (ofGrammar g none).space.Reaches ((ofGrammar g none).initial word) last ∧
          last.accepted = true) ↔ g.epsilonFree.Language word :=
      reaches_accepted_iff g.epsilonFree_epsilonFree rfl
    obtain ⟨verdict, ends, answers⟩ := exists_verdict g none word
    rw [parse, filled, if_neg Bool.false_ne_true]
    simp only
    have unlimited : (ofGrammar g none).stepLimit = none := rfl
    rw [unlimited, Option.getD_none, answers _ (Nat.le_refl _)]
    cases ends with
    | found reaches accepted => exact decided_found reaches_iff reaches accepted _
    | exhausted nothing => exact decided_exhausted reaches_iff empty nothing

end TopDown

/-- Without a step limit the top-down search decides the language of the grammar: it accepts the
words and rejects everything else as underivable. It ends by itself: beyond some number of visits
the search ends with the same verdict whatever visits it is given. -/
theorem topDown_decides_language (g : Grammar) (word : Text) :
    ((∃ derivation, (TopDown.ofGrammar g none).parse word = .ok derivation) ↔ g.Language word) ∧
      (¬g.Language word → (TopDown.ofGrammar g none).parse word = .error .noDerivation) ∧
      ∃ enough verdict, verdict ≠ .cut ∧ ∀ visits, enough ≤ visits →
        (TopDown.ofGrammar g none).space.search visits
          ((TopDown.ofGrammar g none).initial word) [] = verdict := by
  obtain ⟨accepts, rejects⟩ := TopDown.decided_parse g word
  obtain ⟨verdict, ends, answers⟩ := TopDown.exists_verdict g none word
  exact ⟨accepts, rejects, _, verdict, ends.ne_cut, answers⟩

end StrongLL
