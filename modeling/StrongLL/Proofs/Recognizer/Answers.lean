import StrongLL.Proofs.Derivation.Forms
import StrongLL.Proofs.Recognizer.BottomUp
import StrongLL.Proofs.Recognizer.TopDown
import StrongLL.Proofs.Table.Parsing

/-!
# Answers are derivations of the input

A recognizer that answers with a derivation has derived its input. The rules that the table machine
and the top-down search apply are a leftmost derivation of what they read, and so are the rules that
derive nothing. The bottom-up search goes the other way round: at every state its reductions, the
latest first, lead rightmost from the stack and the unread input to the whole input, and at the end
the stack is the start symbol. Replay does not know how an answer was found and agrees with all of
them.
-/

namespace StrongLL

set_option autoImplicit false

/-- The rules are those of a grammar and replay from its start symbol to the word. -/
structure Derivation.Derives (derivation : Derivation) (g : Grammar) (word : Text) : Prop where
  members : ∀ rule ∈ derivation.rules, rule ∈ g.rules
  replays : derivation.replay g.start = .ok (word.map .char)

variable {g : Grammar} {word : Text} {derivation : Derivation}

theorem Grammar.Leftmost.answers {rules : List Rule}
    (leftmost : g.Leftmost [.nonterminal g.start] word rules) :
    (Derivation.mk .leftmost rules).Derives g word where
  members := leftmost.mem_rules
  replays := leftmost.replays

/-- Both searches answer the empty input with the derivation that the witnesses give. -/
theorem derives_onEmpty
    (answered : (match g.nullDerivation g.start with
      | some rules => .ok ⟨.leftmost, rules⟩
      | none => .error .noDerivation : Except ParseError Derivation) = .ok derivation) :
    derivation.Derives g [] := by
  split at answered
  · next rules found =>
      cases answered
      exact (Grammar.yields_iff_leftmost.1 (Grammar.yields_of_nullDerivation found)).answers
  · exact nomatch answered

theorem Table.derives_of_parse {k : Nat} {table : Table} (built : g.table k = .ok table)
    (answered : table.parseDerivation g.start word = .ok derivation) :
    derivation.Derives g word := by
  rw [parseDerivation] at answered
  cases parsed : table.parse g.start word with
  | error cause =>
      rw [parsed] at answered
      cases answered
  | ok applied =>
      rw [parsed] at answered
      cases answered
      exact ((parse_eq_ok_iff built).1 parsed).2.answers

namespace TopDown

variable {limit : Option Nat}

theorem derives_of_parse (filled : word ≠ [])
    (answered : (ofGrammar g limit).parse word = .ok derivation) :
    derivation.Derives g.epsilonFree word := by
  rw [parse_filled _ filled] at answered
  rcases Verdict.answer_eq_ok_iff.1 answered with ⟨last, found, rfl⟩
  have ends := Space.reaches_of_search (restores_space _)
    (fun _ _ leads => height_lt (step_of_leads leads)) (length_moves_le _) found
  rcases leftmost_of_reaches g.epsilonFree_epsilonFree ends.1 ends.2 with ⟨rules, same, leftmost⟩
  have applied : last.applied = rules.reverse := same.trans (List.append_nil _)
  rw [applied, List.reverse_reverse]
  exact leftmost.answers

end TopDown

namespace BottomUp

variable {search : BottomUp} {state next : State} {limit : Option Nat}

/-- The reductions, the latest first, lead rightmost from the symbols on the stack and the unread
input to the word. -/
structure Reverses (search : BottomUp) (word : Text) (state : State) : Prop where
  members : ∀ rule ∈ state.reductions, rule ∈ search.grammar.rules
  reaches : ∀ step, DerivationOrder.rightmost.reach step
    (state.stack.reverse ++ spelled state.rest) state.reductions = .ok (spelled word)

theorem reverses_initial (word : Text) : search.Reverses word (initial word) where
  members := fun _ member => absurd member List.not_mem_nil
  reaches := fun _ => rfl

theorem Step.reverses (free : search.grammar.EpsilonFree) (step : search.Step state next)
    (reverses : search.Reverses word state) : search.Reverses word next := by
  obtain ⟨members, reaches⟩ := reverses
  cases step with
  | @shift c stack rest units reductions =>
      refine ⟨members, fun step => ?_⟩
      have form : (Symbol.terminal (.char c) :: stack).reverse ++ spelled rest =
          stack.reverse ++ spelled (c :: rest) := by
        rw [List.reverse_cons, List.append_assoc]
        rfl
      simp only [form]
      exact reaches step
  | @reduce rule member below rest units reductions follows short =>
      refine ⟨List.forall_mem_cons.2 ⟨member, members⟩, fun step => ?_⟩
      have form : (Symbol.nonterminal rule.left :: below).reverse ++ spelled rest =
          below.reverse ++ .nonterminal rule.left :: spelled rest := by
        rw [List.reverse_cons, List.append_assoc, List.singleton_append]
      have handle : (rule.right.reverse ++ below).reverse = below.reverse ++ rule.body := by
        rw [List.reverse_append, List.reverse_reverse, free.body_eq_right member]
      simp only [handle] at reaches
      simp only [form, DerivationOrder.reach_rightmost_nonterminal]
      exact reaches (step + 1)

theorem reverses_of_reaches (free : search.grammar.EpsilonFree) {last : State}
    (reaches : search.space.Reaches (initial word) last) : search.Reverses word last := by
  induction reaches with
  | refl => exact reverses_initial word
  | tail _ leads induction => exact (step_of_leads leads).reverses free induction

theorem derives_of_parse (filled : word ≠ [])
    (answered : (ofGrammar g limit).parse word = .ok derivation) :
    derivation.Derives g.epsilonFree word := by
  rw [parse_filled _ filled] at answered
  rcases Verdict.answer_eq_ok_iff.1 answered with ⟨last, found, rfl⟩
  have ends := Space.reaches_of_search (restores_space _)
    (fun _ _ leads => height_lt (step_of_leads leads))
    (fun state => Nat.le_of_eq (length_moves _ state)) found
  rcases reverses_of_reaches g.epsilonFree_epsilonFree ends.1 with ⟨members, replays⟩
  rcases accepted_iff.1 ends.2 with ⟨read, reduced⟩
  rw [read, reduced] at replays
  exact ⟨members, Derivation.replay_eq_ok_iff.2 (replays 0)⟩

end BottomUp

/-- The grammar whose rules an answer to the input applies: the searches have no use for empty rules
unless the input is empty. -/
def Strategy.source (strategy : Strategy) (g : Grammar) (input : Text) : Grammar :=
  if strategy = .table ∨ input = [] then g else g.epsilonFree

theorem Strategy.start_source {strategy : Strategy} : (strategy.source g word).start = g.start := by
  rw [source]
  split <;> rfl

theorem derives_of_parse {strategy : Strategy} {config : RecognizerConfig} {recognizer : Recognizer}
    (built : strategy.build g config = .ok recognizer)
    (answered : recognizer.parse word = .ok derivation) :
    derivation.Derives (strategy.source g word) word := by
  rw [Strategy.source]
  cases strategy with
  | table =>
      rw [if_pos (.inl rfl)]
      cases tabulated : g.table config.k with
      | error cause =>
          rw [Strategy.build, tabulated] at built
          exact nomatch built
      | ok cells =>
          rw [Strategy.build, tabulated] at built
          cases built
          exact cells.derives_of_parse tabulated answered
  | topDown =>
      cases built
      by_cases empty : word = []
      · cases empty
        exact derives_onEmpty answered
      · rw [if_neg (by simp [empty])]
        exact TopDown.derives_of_parse empty answered
  | bottomUp =>
      cases built
      by_cases empty : word = []
      · cases empty
        exact derives_onEmpty answered
      · rw [if_neg (by simp [empty])]
        exact BottomUp.derives_of_parse empty answered

end StrongLL
