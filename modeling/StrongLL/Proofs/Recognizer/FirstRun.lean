import StrongLL.Proofs.Recognizer.BottomUp
import StrongLL.Proofs.Search.First
import StrongLL.Proofs.Search.Runs

/-!
# The bottom-up search answers with the first run

At every state the reductions are tried in the order of their rules and the shift comes last, so the
search makes runs of shifts and reductions in the lexicographic order of their moves and stops at
the first that accepts. The filter on reductions takes part in this without changing which run that
is: on the way to acceptance the unread input always follows the left side that is reduced to. So
the runs that are compared here know nothing of the filter, and only the limit on unit reductions in
a row is left of the search.
-/

namespace StrongLL

set_option autoImplicit false

namespace BottomUp

/-- The rule that a move reduces by. -/
def Move.rule? : Move → Option Rule
  | reduce rule => some rule
  | shift => none

def Move.isUnit : Move → Bool
  | reduce rule => rule.isUnit
  | shift => false

/-- Reductions stand in the order of their rules and before the shift. -/
inductive Move.Before : Move → Move → Prop where
  | reduce {first second : Rule} (before : first.Before second) :
    Before (.reduce first) (.reduce second)
  | shift (rule : Rule) : Before (.reduce rule) .shift

theorem Move.Before.asymm {first second : Move} (before : first.Before second) :
    ¬second.Before first := by
  intro behind
  cases before with
  | reduce before =>
      cases behind with
      | reduce behind => exact before.asymm behind
  | shift rule => exact nomatch behind

end BottomUp

namespace Grammar

/-- The moves, made in turn, take the stack and the unread input to the start symbol alone. A shift
puts the next character on the stack, and a reduction replaces the right side of any rule that ends
the stack by the left side. -/
inductive AcceptingRun (g : Grammar) : List Symbol → Text → List BottomUp.Move → Prop where
  | done : AcceptingRun g [.nonterminal g.start] [] []
  | shift {c : Char} {stack : List Symbol} {rest : Text} {run : List BottomUp.Move}
      (later : AcceptingRun g (.terminal (.char c) :: stack) rest run) :
      AcceptingRun g stack (c :: rest) (.shift :: run)
  | reduce {rule : Rule} (member : rule ∈ g.rules) {below : List Symbol} {rest : Text}
      {run : List BottomUp.Move}
      (later : AcceptingRun g (.nonterminal rule.left :: below) rest run) :
      AcceptingRun g (rule.right.reverse ++ below) rest (.reduce rule :: run)

/-- A run on the word from the empty stack, with no more unit reductions in a row than the grammar
has unit rules. -/
structure LimitedRun (g : Grammar) (word : Text) (run : List BottomUp.Move) : Prop where
  accepts : g.AcceptingRun [] word run
  limited : RunsWithin BottomUp.Move.isUnit g.unitCount run

theorem AcceptingRun.shiftReduce {g : Grammar} {stack : List Symbol} {rest : Text}
    {run : List BottomUp.Move} (accepts : g.AcceptingRun stack rest run) :
    g.ShiftReduce stack rest run.length := by
  induction accepts with
  | done => exact .done
  | shift _ induction => exact .shift induction
  | reduce member _ induction => exact .reduce member induction

end Grammar

namespace BottomUp

variable {search : BottomUp} {state next last : State}

theorem pairwise_moves (search : BottomUp) (state : State) :
    (search.space.moves state).Pairwise Move.Before := by
  simp only [space, moves]
  rw [List.pairwise_append]
  refine ⟨List.pairwise_map.2 (search.grammar.pairwise_rules.imp .reduce),
    List.pairwise_singleton .., ?_⟩
  intro move listed last other
  rcases List.mem_map.1 listed with ⟨rule, _, rfl⟩
  rw [List.mem_singleton.1 other]
  exact .shift rule

theorem reductions_of_made {move : Move} {memo : Memo}
    (made : search.space.perform? state move = some (next, memo)) :
    next.reductions = move.rule?.toList ++ state.reductions := by
  cases move with
  | shift =>
      simp only [space, perform?] at made
      split at made
      · cases made
      · cases made
        rfl
  | reduce rule =>
      simp only [space, perform?] at made
      split at made
      · cases made
      · split at made
        · cases made
        · split at made
          · cases made
            rfl
          · cases made

theorem reductions_of_path {path : List Move} (leads : search.space.Path state path last) :
    last.reductions = (path.filterMap Move.rule?).reverse ++ state.reductions :=
  leads.log_eq reductions_of_made

theorem Step.accepts {path : List Move} (step : search.Step state next)
    (accepts : search.space.Accepts next path) :
    ∃ move, search.space.Accepts state (move :: path) ∧
      next.reductions = move.rule?.toList ++ state.reductions := by
  rcases accepts.of_leads (leads_of_step step) with ⟨move, memo, made, whole⟩
  exact ⟨move, whole, reductions_of_made made⟩

theorem Move.eq_shift {move : Move} {reductions : List Rule}
    (label : reductions = move.rule?.toList ++ reductions) : move = .shift := by
  have nothing : move.rule?.toList = [] := List.self_eq_append_left.1 label
  cases move with
  | shift => rfl
  | reduce rule => cases nothing

theorem Move.eq_reduce {move : Move} {rule : Rule} {reductions : List Rule}
    (label : rule :: reductions = move.rule?.toList ++ reductions) : move = .reduce rule := by
  have applies : [rule] = move.rule?.toList :=
    List.append_cancel_right (List.singleton_append.trans label)
  cases move with
  | shift => cases applies
  | reduce other =>
      cases applies
      rfl

theorem run_of_path {path : List Move} (leads : search.space.Path state path last)
    (accepted : search.accepted last = true) (short : state.units ≤ search.unitLimit) :
    search.grammar.AcceptingRun state.stack state.rest path ∧
      RunsOn Move.isUnit search.unitLimit state.units path := by
  induction leads with
  | nil =>
      rcases accepted_iff.1 accepted with ⟨read, reduced⟩
      rw [read, reduced]
      exact ⟨.done, runsOn_nil_iff.2 short⟩
  | @cons _ next _ move memo path offered made _ induction =>
      have step := step_of_leads ⟨move, offered, memo, made⟩
      have label := reductions_of_made made
      have later := induction accepted
      cases step with
      | shift =>
          rw [Move.eq_shift label]
          rcases later (Nat.zero_le _) with ⟨run, runs⟩
          exact ⟨.shift run, (runsOn_cons_iff_of_other rfl).2 ⟨short, runs⟩⟩
      | @reduce rule member below rest units reductions _ room =>
          rw [Move.eq_reduce label]
          rcases later (Rule.count_le room) with ⟨run, runs⟩
          exact ⟨.reduce member run, runsOn_cons_iff.2 ⟨short, room, runs⟩⟩

/-- Every accepting run is a path of the search if it keeps to the limit: the filter lets all of its
reductions pass. -/
theorem accepts_of_run (free : search.grammar.EpsilonFree)
    (follow : search.follow = search.grammar.follow 1) {stack : List Symbol} {rest : Text}
    {run : List Move} (accepts : search.grammar.AcceptingRun stack rest run) {units : Nat}
    (runs : RunsOn Move.isUnit search.unitLimit units run) (reductions : List Rule) :
    search.space.Accepts ⟨stack, rest, units, reductions⟩ run := by
  induction accepts generalizing units reductions with
  | done =>
      have accepted : search.accepted ⟨[.nonterminal search.grammar.start], [], units, reductions⟩ =
          true := accepted_iff.2 ⟨rfl, rfl⟩
      exact ⟨_, .nil, accepted⟩
  | @shift c stack rest run _ induction =>
      have step : search.Step ⟨stack, c :: rest, units, reductions⟩ _ := .shift
      have after := ((runsOn_cons_iff_of_other rfl).1 runs).2
      rcases step.accepts (induction after reductions) with ⟨move, whole, label⟩
      rw [Move.eq_shift label] at whole
      exact whole
  | @reduce rule member below rest run later induction =>
      rcases runsOn_cons_iff.1 runs with ⟨_, room, after⟩
      have follows := mayFollow_of_shiftReduce free follow later.shiftReduce
      have step : search.Step ⟨rule.right.reverse ++ below, rest, units, reductions⟩ _ :=
        .reduce member follows room
      rcases step.accepts (induction after (rule :: reductions)) with ⟨move, whole, label⟩
      rw [Move.eq_reduce label] at whole
      exact whole

theorem accepts_initial_iff (g : Grammar) (word : Text) (run : List Move) :
    (ofGrammar g none).space.Accepts (initial word) run ↔ g.epsilonFree.LimitedRun word run := by
  constructor
  · intro ⟨last, leads, accepted⟩
    rcases run_of_path leads accepted (Nat.zero_le _) with ⟨accepts, runs⟩
    exact ⟨accepts, runs.within⟩
  · intro ⟨accepts, limited⟩
    exact accepts_of_run g.epsilonFree_epsilonFree rfl accepts (runsOn_zero_iff.2 limited) []

theorem exists_first_of_parse {g : Grammar} {word : Text} (filled : word ≠ []) {answer : Derivation}
    (answered : (ofGrammar g none).parse word = .ok answer) :
    ∃ run, FirstAmong Move.Before (g.epsilonFree.LimitedRun word) run ∧
      answer = ⟨.rightmost, (run.filterMap Move.rule?).reverse⟩ := by
  rw [parse_filled _ filled] at answered
  rcases Verdict.answer_eq_ok_iff.1 answered with ⟨last, found, rfl⟩
  have first := Space.exists_first_of_search (restores_space _)
    (fun _ _ leads => height_lt (step_of_leads leads))
    (fun state => Nat.le_of_eq (length_moves _ state)) (pairwise_moves _) found
  rcases first with ⟨path, leads, first⟩
  have reductions := reductions_of_path leads
  rw [show (initial word).reductions = [] from rfl, List.append_nil] at reductions
  refine ⟨path, ⟨(accepts_initial_iff g word path).1 first.holds, fun other limited => ?_⟩, ?_⟩
  · exact first.before other ((accepts_initial_iff g word other).2 limited)
  · rw [reductions]

end BottomUp

/-- Without a step limit the bottom-up search answers a non-empty input with a derivation exactly if
it is the reversal of the reductions of the first accepting run: of all runs of shifts and
reductions over the grammar without empty rules that have no more unit reductions in a row than the
grammar has unit rules, whether or not the filter would let their reductions pass. -/
theorem bottomUp_answers_first_run (g : Grammar) (c : Char) (rest : Text) (answer : Derivation) :
    (BottomUp.ofGrammar g none).parse (c :: rest) = .ok answer ↔
      ∃ run, FirstAmong BottomUp.Move.Before (g.epsilonFree.LimitedRun (c :: rest)) run ∧
        answer = ⟨.rightmost, (run.filterMap BottomUp.Move.rule?).reverse⟩ := by
  have filled : c :: rest ≠ [] := List.cons_ne_nil c rest
  constructor
  · exact BottomUp.exists_first_of_parse filled
  · intro ⟨run, first, same⟩
    have free := (Grammar.language_iff_shiftReduce g.epsilonFree_epsilonFree).2
      ⟨_, first.holds.accepts.shiftReduce⟩
    have inside := (Grammar.language_epsilonFree_iff.1 free).2
    rcases (BottomUp.decided_parse g (c :: rest)).1.2 inside with ⟨other, answered⟩
    rcases BottomUp.exists_first_of_parse filled answered with ⟨found, least, reversed⟩
    rw [answered, reversed, least.unique BottomUp.Move.Before.asymm first, same]

end StrongLL
