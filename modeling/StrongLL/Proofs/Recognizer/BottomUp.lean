import StrongLL.Proofs.Grammar.Units
import StrongLL.Proofs.Lookahead.Follow
import StrongLL.Proofs.Recognizer.Decision
import StrongLL.Recognizer.BottomUp

/-!
# Bottom-up search decides the language

A state leads to acceptance when shifts and reductions turn its stack and the unread input into the
start symbol. Read backwards these are a derivation, so before every reduction the unread input
follows the left side and the filter lets it pass. A shortest way to acceptance is never cut: the
symbols below the top are the same before every reduction of a run of units, and the way from an
earlier right side is longer than from a later one.

The search ends because three times the unread characters, with the symbols on the stack and the
terminals among them, falls with every move but a unit reduction, and a run of those is limited.
-/

namespace StrongLL

set_option autoImplicit false

open Relation

/-- Shifts and reductions turn the stack and the unread input into the start symbol. -/
inductive Grammar.ShiftReduce (g : Grammar) : List Symbol → Text → Nat → Prop where
  | done : ShiftReduce g [.nonterminal g.start] [] 0
  | shift {c : Char} {stack : List Symbol} {rest : Text} {moves : Nat}
      (later : ShiftReduce g (.terminal (.char c) :: stack) rest moves) :
      ShiftReduce g stack (c :: rest) (moves + 1)
  | reduce {rule : Rule} (member : rule ∈ g.rules) {below : List Symbol} {rest : Text} {moves : Nat}
      (later : ShiftReduce g (.nonterminal rule.left :: below) rest moves) :
      ShiftReduce g (rule.right.reverse ++ below) rest (moves + 1)

namespace Grammar

variable {g : Grammar} {stack : List Symbol} {rest : Text} {moves : Nat}

theorem ShiftReduce.derives (free : g.EpsilonFree) (way : g.ShiftReduce stack rest moves) :
    g.Derives [.nonterminal g.start] (stack.reverse ++ spelled rest) := by
  induction way with
  | done => exact .refl _
  | @shift c stack rest _ _ induction =>
      rw [List.reverse_cons, List.append_assoc] at induction
      exact induction
  | @reduce rule member below rest _ _ induction =>
      rw [List.reverse_cons, List.append_assoc, List.singleton_append] at induction
      have replaced := Derives.of_rule member below.reverse (spelled rest)
      rw [free.body_eq_right member] at replaced
      rw [List.reverse_append, List.reverse_reverse]
      exact induction.trans replaced

/-- What the symbols yield can be read before the symbols are put on the stack. -/
theorem Yields.shiftReduce (free : g.EpsilonFree) {symbols : List Symbol} {word : Text}
    {rules : List Rule} (yields : g.Yields symbols word rules)
    (plain : Symbol.terminal .epsilon ∉ symbols) (stack : List Symbol) (rest : Text)
    (later : ∃ moves, g.ShiftReduce (symbols.reverse ++ stack) rest moves) :
    ∃ moves, g.ShiftReduce stack (word ++ rest) moves := by
  induction yields generalizing stack rest with
  | nil => exact later
  | skip => exact absurd List.mem_cons_self plain
  | scan c _ induction =>
      rw [List.reverse_cons, List.append_assoc] at later
      obtain ⟨moves, way⟩ :=
        induction (fun occurs => plain (List.mem_cons_of_mem _ occurs)) _ rest later
      exact ⟨moves + 1, .shift way⟩
  | @expand rule member symbols inner word _ _ _ _ body behind =>
      rw [List.reverse_cons, List.append_assoc] at later
      obtain ⟨moves, way⟩ :=
        behind (fun occurs => plain (List.mem_cons_of_mem _ occurs)) _ rest later
      rw [List.append_assoc]
      apply body rule.epsilon_not_mem_body
      rw [free.body_eq_right member]
      exact ⟨moves + 1, .reduce member way⟩

theorem language_iff_shiftReduce (free : g.EpsilonFree) {word : Text} :
    g.Language word ↔ ∃ moves, g.ShiftReduce [] word moves := by
  constructor
  · intro inside
    obtain ⟨rules, yields⟩ := language_iff_yields.1 inside
    have way := yields.shiftReduce free (by simp) [] [] ⟨0, .done⟩
    rw [List.append_nil] at way
    exact way
  · intro ⟨moves, way⟩
    exact way.derives free

theorem ShiftReduce.exists_shortest (way : g.ShiftReduce stack rest moves) :
    ∃ fewest, g.ShiftReduce stack rest fewest ∧
      ∀ others, g.ShiftReduce stack rest others → fewest ≤ others := by
  classical
  have ways : ∃ count, g.ShiftReduce stack rest count := ⟨moves, way⟩
  exact ⟨Nat.find ways, Nat.find_spec ways, fun _ found => Nat.find_min' ways found⟩

end Grammar

namespace BottomUp

/-- A move of the search, with the conditions under which it is made. -/
inductive Step (search : BottomUp) : State → State → Prop where
  | shift {c : Char} {stack : List Symbol} {rest : Text} {units : Nat} {reductions : List Rule} :
      Step search ⟨stack, c :: rest, units, reductions⟩
        ⟨.terminal (.char c) :: stack, rest, 0, reductions⟩
  | reduce {rule : Rule} (member : rule ∈ search.grammar.rules) {below : List Symbol} {rest : Text}
      {units : Nat} {reductions : List Rule} (follows : search.mayFollow rule.left rest = true)
      (short : rule.isUnit = true → units < search.unitLimit) :
      Step search ⟨rule.right.reverse ++ below, rest, units, reductions⟩
        ⟨.nonterminal rule.left :: below, rest, if rule.isUnit then units + 1 else 0,
          rule :: reductions⟩

variable {search : BottomUp} {state next : State}

theorem below?_append (handle below : List Symbol) :
    below? handle (handle ++ below) = some below := by
  induction handle with
  | nil => rfl
  | cons s handle induction => rw [List.cons_append, below?, if_pos rfl, induction]

theorem leads_of_step (step : search.Step state next) : search.space.Leads state next := by
  cases step with
  | @shift c stack rest units reductions =>
      exact ⟨.shift, List.mem_append_right _ List.mem_cons_self, .shifted c units, rfl⟩
  | @reduce rule member below rest units reductions follows short =>
      refine ⟨.reduce rule, List.mem_append_left _ (List.mem_map_of_mem member),
        .reduced rule units, ?_⟩
      simp only [space, perform?, below?_append, Rule.uncut_iff.2 short, follows, Bool.false_eq_true,
        if_false, if_true]

theorem step_of_leads (leads : search.space.Leads state next) : search.Step state next := by
  obtain ⟨move, offered, memo, made⟩ := leads
  obtain ⟨stack, rest, units, reductions⟩ := state
  cases move with
  | shift =>
      cases rest with
      | nil => cases made
      | cons c rest =>
          cases made
          exact .shift
  | reduce rule =>
      have member : rule ∈ search.grammar.rules := by
        rcases List.mem_append.1 offered with listed | other
        · obtain ⟨same, member, equal⟩ := List.mem_map.1 listed
          cases equal
          exact member
        · cases List.mem_singleton.1 other
      simp only [space, perform?] at made
      cases found : below? rule.right.reverse stack with
      | none =>
          rw [found] at made
          cases made
      | some below =>
          simp only [found] at made
          cases cut : (rule.isUnit && decide (search.unitLimit ≤ units)) with
          | true => simp [cut] at made
          | false =>
              cases follows : search.mayFollow rule.left rest with
              | false => simp [cut, follows] at made
              | true =>
                  simp only [cut, follows, Bool.false_eq_true, if_false, if_true] at made
                  cases made
                  rw [below?_eq_some found]
                  exact .reduce member follows (Rule.uncut_iff.1 cut)

/-- Three times the unread characters, with the symbols on the stack and the terminals among them. -/
def State.rank (state : State) : Nat :=
  3 * state.rest.length + state.stack.length + terminalCount state.stack

/-- How far a state is from the end of every path. -/
def height (search : BottomUp) (state : State) : Nat :=
  rankLeft search.unitLimit state.rank state.units

theorem height_lt (step : search.Step state next) : search.height next < search.height state := by
  cases step with
  | @shift c stack rest units reductions =>
      apply rankLeft_lt_of_rank
      simp only [State.rank, terminalCount_terminal, List.length_cons]
      omega
  | @reduce rule member below rest units reductions follows short =>
      have terminals : terminalCount rule.right.reverse = terminalCount rule.right :=
        List.countP_reverse
      cases unit : rule.isUnit with
      | true =>
          obtain ⟨one, none⟩ := Rule.length_of_isUnit unit
          have same :
              State.rank ⟨.nonterminal rule.left :: below, rest, units + 1, rule :: reductions⟩ =
                State.rank ⟨rule.right.reverse ++ below, rest, units, reductions⟩ := by
            simp only [State.rank, terminalCount_append, terminalCount_nonterminal, List.length_append,
              List.length_cons, List.length_reverse]
            omega
          simp only [height, if_true]
          rw [same]
          exact rankLeft_lt_of_unit (short unit)
      | false =>
          have wide := Rule.two_le_of_not_isUnit unit
          apply rankLeft_lt_of_rank
          simp only [State.rank, terminalCount_append, terminalCount_nonterminal, List.length_append,
            List.length_cons, List.length_reverse]
          omega

theorem length_moves (search : BottomUp) (state : State) :
    (search.space.moves state).length = search.grammar.rules.size + 1 := by
  simp only [space, moves, List.length_append, List.length_map, List.length_singleton]
  rfl

theorem accepted_iff : search.accepted state = true ↔
    state.rest = [] ∧ state.stack = [.nonterminal search.grammar.start] := by
  rw [accepted, Bool.and_eq_true, List.isEmpty_iff, beq_iff_eq]

theorem shiftReduce_of_reaches {last : State} (reaches : search.space.Reaches state last)
    (accepted : search.accepted last = true) :
    ∃ moves, search.grammar.ShiftReduce state.stack state.rest moves := by
  induction reaches using ReflTransGen.head_induction_on with
  | refl =>
      obtain ⟨read, reduced⟩ := accepted_iff.1 accepted
      rw [read, reduced]
      exact ⟨0, .done⟩
  | head leads _ induction =>
      obtain ⟨moves, way⟩ := induction
      cases step_of_leads leads with
      | shift => exact ⟨moves + 1, .shift way⟩
      | reduce member _ _ => exact ⟨moves + 1, .reduce member way⟩

/-- The moves that a way to acceptance makes from a right side on top of `below`. -/
def Costs (search : BottomUp) (below : List Symbol) (rest : Text) (rule : Rule) (cost : Nat) :
    Prop :=
  search.grammar.ShiftReduce (rule.right.reverse ++ below) rest cost

theorem upcoming_eq_cut (rest : Text) : upcoming rest = Tuple.cut 1 rest := by
  cases rest with
  | nil => rfl
  | cons c rest => rfl

/-- The filter lets every reduction on a way to acceptance pass. -/
theorem mayFollow_of_shiftReduce (free : search.grammar.EpsilonFree)
    (follow : search.follow = search.grammar.follow 1) {n : NonTerminal} {below : List Symbol}
    {rest : Text} {moves : Nat}
    (way : search.grammar.ShiftReduce (.nonterminal n :: below) rest moves) :
    search.mayFollow n rest = true := by
  have form := way.derives free
  rw [List.reverse_cons, List.append_assoc] at form
  have derives : search.grammar.DerivesWord (spelled rest) rest :=
    Grammar.derivesWord_iff_yields.2 ⟨[], Grammar.yields_spelled rest⟩
  obtain ⟨set, found, member⟩ :=
    Grammar.mem_follow_of_context (k := 1) ⟨below.reverse, form⟩ derives
  rw [mayFollow, follow, found, upcoming_eq_cut, Option.any_some]
  exact SortedSet.contains_iff.2 member

/-- The search follows a shortest way to acceptance. -/
theorem exists_accepted (free : search.grammar.EpsilonFree)
    (follow : search.follow = search.grammar.follow 1)
    (limit : search.unitLimit = search.grammar.unitCount) {stack : List Symbol} {rest : Text}
    {moves : Nat} (way : search.grammar.ShiftReduce stack rest moves)
    (shortest : ∀ others, search.grammar.ShiftReduce stack rest others → moves ≤ others)
    {run : List Rule} (unitRun : search.grammar.UnitRun (search.Costs stack.tail rest) moves run)
    (reductions : List Rule) :
    ∃ last, search.space.Reaches ⟨stack, rest, run.length, reductions⟩ last ∧
      search.accepted last = true := by
  induction way generalizing run reductions with
  | done => exact ⟨_, .refl, accepted_iff.2 ⟨rfl, rfl⟩⟩
  | @shift c stack rest moves later induction =>
      obtain ⟨last, reaches, accepted⟩ := induction
        (fun others found => Nat.le_of_succ_le_succ (shortest _ (.shift found)))
        Grammar.unitRun_nil reductions
      exact ⟨last, .head (leads_of_step .shift) reaches, accepted⟩
  | @reduce rule member below rest moves later induction =>
      have whole : search.grammar.ShiftReduce (rule.right.reverse ++ below) rest (moves + 1) :=
        .reduce member later
      have follows := mayFollow_of_shiftReduce free follow later
      have shortestLater : ∀ others,
          search.grammar.ShiftReduce (.nonterminal rule.left :: below) rest others →
            moves ≤ others :=
        fun others found => Nat.le_of_succ_le_succ (shortest _ (.reduce member found))
      cases unit : rule.isUnit with
      | false =>
          obtain ⟨last, reaches, accepted⟩ :=
            induction shortestLater Grammar.unitRun_nil (rule :: reductions)
          have step : search.Step ⟨rule.right.reverse ++ below, rest, run.length, reductions⟩ _ :=
            .reduce member follows fun given => nomatch unit.symm.trans given
          rw [unit] at step
          exact ⟨last, .head (leads_of_step step) reaches, accepted⟩
      | true =>
          obtain ⟨n, right⟩ := Rule.exists_right_of_isUnit unit
          have tail : (rule.right.reverse ++ below).tail = below := by
            rw [right]
            rfl
          rw [tail] at unitRun
          obtain ⟨room, extended⟩ := unitRun.extend member unit whole shortest
          obtain ⟨last, reaches, accepted⟩ := induction shortestLater extended (rule :: reductions)
          have step : search.Step ⟨rule.right.reverse ++ below, rest, run.length, reductions⟩ _ :=
            .reduce member follows fun _ => limit ▸ room
          rw [unit] at step
          exact ⟨last, .head (leads_of_step step) reaches, accepted⟩

theorem reaches_accepted_iff (free : search.grammar.EpsilonFree)
    (follow : search.follow = search.grammar.follow 1)
    (limit : search.unitLimit = search.grammar.unitCount) {word : Text} :
    (∃ last, search.space.Reaches (initial word) last ∧ search.accepted last = true) ↔
      search.grammar.Language word := by
  rw [Grammar.language_iff_shiftReduce free]
  constructor
  · intro ⟨last, reaches, accepted⟩
    exact shiftReduce_of_reaches reaches accepted
  · intro ⟨moves, way⟩
    obtain ⟨fewest, found, shortest⟩ := way.exists_shortest
    exact exists_accepted free follow limit found shortest Grammar.unitRun_nil []

theorem pow_height_le (search : BottomUp) (word : Text) :
    (search.grammar.rules.size + 1 + 1) ^ search.height (initial word) ≤
      search.visitBound word.length := by
  rw [visitBound, Nat.pow_eq]
  apply Nat.pow_le_pow_right (Nat.succ_pos _)
  have rank : (initial word).rank = 3 * word.length := rfl
  have units : (initial word).units = 0 := rfl
  rw [height, rank, units, rankLeft]
  omega

theorem exists_verdict (g : Grammar) (limit : Option Nat) (word : Text) :
    ∃ verdict, (ofGrammar g limit).space.Ends (initial word) verdict ∧
      ∀ visits, (ofGrammar g limit).visitBound word.length ≤ visits →
        (ofGrammar g limit).space.search visits (initial word) [] = verdict :=
  Space.exists_verdict_of_bound (restores_space _)
    (fun _ _ leads => height_lt (step_of_leads leads))
    (fun state => Nat.le_of_eq (length_moves _ state)) (pow_height_le _ word)

theorem parse_filled (search : BottomUp) {input : Text} (filled : input ≠ []) :
    search.parse input =
      (search.space.search (search.stepLimit.getD (search.visitBound input.length))
        (initial input) []).answer (fun last => ⟨.rightmost, last.reductions⟩)
        (search.stepLimit.getD (search.visitBound input.length)) := by
  rw [parse, if_neg (by simpa using filled)]
  simp only
  cases search.space.search (search.stepLimit.getD (search.visitBound input.length))
    (initial input) [] with
  | found last => rfl
  | exhausted back => rfl
  | cut => rfl

theorem decided_parse (g : Grammar) (word : Text) :
    Decided g word ((ofGrammar g none).parse word) := by
  by_cases empty : word = []
  · rw [empty]
    exact decided_onEmpty g
  · have filled : word.isEmpty = false := by simpa using empty
    have reaches_iff : (∃ last, (ofGrammar g none).space.Reaches (initial word) last ∧
        (ofGrammar g none).accepted last = true) ↔ g.epsilonFree.Language word :=
      reaches_accepted_iff g.epsilonFree_epsilonFree rfl rfl
    obtain ⟨verdict, ends, answers⟩ := exists_verdict g none word
    rw [parse, filled, if_neg Bool.false_ne_true]
    simp only
    have unlimited : (ofGrammar g none).stepLimit = none := rfl
    rw [unlimited, Option.getD_none, answers _ (Nat.le_refl _)]
    cases ends with
    | found reaches accepted => exact decided_found reaches_iff reaches accepted _
    | exhausted nothing => exact decided_exhausted reaches_iff empty nothing

end BottomUp

/-- Without a step limit the bottom-up search decides the language of the grammar: neither the filter
on reductions nor the cut of unit runs loses a word, and everything else is rejected as underivable.
It ends by itself: beyond some number of visits the search ends with the same verdict whatever
visits it is given. -/
theorem bottomUp_decides_language (g : Grammar) (word : Text) :
    ((∃ derivation, (BottomUp.ofGrammar g none).parse word = .ok derivation) ↔ g.Language word) ∧
      (¬g.Language word → (BottomUp.ofGrammar g none).parse word = .error .noDerivation) ∧
      ∃ enough verdict, verdict ≠ .cut ∧ ∀ visits, enough ≤ visits →
        (BottomUp.ofGrammar g none).space.search visits (BottomUp.initial word) [] = verdict := by
  obtain ⟨accepts, rejects⟩ := BottomUp.decided_parse g word
  obtain ⟨verdict, ends, answers⟩ := BottomUp.exists_verdict g none word
  exact ⟨accepts, rejects, _, verdict, ends.ne_cut, answers⟩

end StrongLL
