import StrongLL.Proofs.Recognizer.Answers
import StrongLL.Report

/-!
# Reports on an input

A report on an input goes through five steps: the grammar is read, the strategy is looked up and
built, the input is parsed, and the derivation is shown. Showing replays the derivation, and since
every answer of a recognizer replays to its input, this step does not fail and shows the input as
what is derived.
-/

namespace StrongLL

set_option autoImplicit false

namespace Report

/-- What a report on an input says: the first step that fails, or a derivation shown as one of the
input. No constructor stands for a derivation that does not replay. -/
inductive Verifies (grammar : Text) (k : Nat) (name : String) (input : Text) : Json → Prop where
  | unread {cause : ReadError} (fails : Grammar.read grammar = .error cause) :
      Verifies grammar k name input (failure cause.message)
  | unnamed {g : Grammar} (read : Grammar.read grammar = .ok g)
      (unknown : Strategy.ofName? name = none) :
      Verifies grammar k name input (failure (Strategy.unknownMessage name))
  | unbuilt {g : Grammar} {strategy : Strategy} {cause : TableError}
      (read : Grammar.read grammar = .ok g) (named : Strategy.ofName? name = some strategy)
      (fails : strategy.build g ⟨k, some stepLimit⟩ = .error cause) :
      Verifies grammar k name input (failure cause.message)
  | rejected {g : Grammar} {strategy : Strategy} {recognizer : Recognizer} {cause : ParseError}
      (read : Grammar.read grammar = .ok g) (named : Strategy.ofName? name = some strategy)
      (built : strategy.build g ⟨k, some stepLimit⟩ = .ok recognizer)
      (fails : recognizer.parse input = .error cause) :
      Verifies grammar k name input (failure cause.message)
  | derived {g : Grammar} {strategy : Strategy} {recognizer : Recognizer} {derivation : Derivation}
      {view : DerivationView} (read : Grammar.read grammar = .ok g)
      (named : Strategy.ofName? name = some strategy)
      (built : strategy.build g ⟨k, some stepLimit⟩ = .ok recognizer)
      (answered : recognizer.parse input = .ok derivation)
      (shown : derivation.view g.start = .ok view) (derives : view.derived = input) :
      Verifies grammar k name input (View.json view)

theorem verifies_verify (grammar : Text) (k : Nat) (name : String) (input : Text) :
    Verifies grammar k name input (verify grammar k name input) := by
  simp only [verify, bind, Except.bind]
  cases read : Grammar.read grammar with
  | error cause => exact .unread read
  | ok g =>
      cases named : Strategy.ofName? name with
      | none => exact .unnamed read named
      | some strategy =>
          simp only [Except.mapError, Option.elim]
          cases built : strategy.build g ⟨k, some stepLimit⟩ with
          | error cause => exact .unbuilt read named built
          | ok recognizer =>
              cases answered : recognizer.parse input with
              | error cause =>
                  simp only [answered]
                  exact .rejected read named built answered
              | ok derivation =>
                  have replays := (derives_of_parse built answered).replays
                  rw [Strategy.start_source] at replays
                  obtain ⟨view, shown, shows⟩ := Derivation.exists_view replays
                  simp only [answered, shown]
                  exact .derived read named built answered shown shows.derived

theorem failure_injective : Function.Injective failure := by
  intro first second same
  simp only [failure, Json.object.injEq, List.cons.injEq, Prod.mk.injEq, Json.string.injEq, true_and,
    and_true] at same
  exact String.toList_injective same

/-- The first field of a derivation is not the one of a failure. -/
theorem json_ne_failure (view : DerivationView) (message : String) :
    View.json view ≠ failure message := by
  simp [View.json, failure]

section Wordings

variable {message : String} {a b : Char}

/-- The wording begins with two given characters. -/
def Begins (message : String) (a b : Char) : Prop := ∃ rest, message.toList = a :: b :: rest

theorem begins_append (begins : Begins message a b) (more : String) :
    Begins (message ++ more) a b := by
  obtain ⟨rest, same⟩ := begins
  refine ⟨rest ++ more.toList, ?_⟩
  rw [String.toList_append, same]
  rfl

/-- The wording opens like that of a derivation that does not replay. -/
def OpensAsReplay (message : String) : Prop := message.toList.take 2 ∈ [['s', 't'], ['d', 'e']]

theorem opensAsReplay_iff (a b : Char) (begins : Begins message a b) :
    OpensAsReplay message ↔ [a, b] ∈ [['s', 't'], ['d', 'e']] := by
  rcases begins with ⟨rest, same⟩
  rw [OpensAsReplay, same]
  rfl

theorem not_opensAsReplay (a b : Char) (other : [a, b] ∉ [['s', 't'], ['d', 'e']])
    (begins : Begins message a b) : ¬OpensAsReplay message :=
  mt (opensAsReplay_iff a b begins).1 other

theorem opensAsReplay_replay (cause : ReplayError) : OpensAsReplay cause.message := by
  cases cause with
  | unknownRule | noNonTerminal | wrongNonTerminal =>
      apply (opensAsReplay_iff 's' 't' _).2 (by decide)
      repeat apply begins_append
      exact ⟨_, rfl⟩
  | incomplete =>
      apply (opensAsReplay_iff 'd' 'e' _).2 (by decide)
      repeat apply begins_append
      exact ⟨_, rfl⟩

theorem not_opensAsReplay_read (cause : ReadError) : ¬OpensAsReplay cause.message := by
  cases cause with
  | atLine =>
      apply not_opensAsReplay 'L' 'i' (by decide)
      repeat apply begins_append
      exact ⟨_, rfl⟩
  | noProductions => exact not_opensAsReplay 't' 'h' (by decide) ⟨_, rfl⟩

theorem not_opensAsReplay_unknown (name : String) :
    ¬OpensAsReplay (Strategy.unknownMessage name) := by
  apply not_opensAsReplay 'u' 'n' (by decide)
  repeat apply begins_append
  exact ⟨_, rfl⟩

theorem not_opensAsReplay_table (cause : TableError) : ¬OpensAsReplay cause.message := by
  cases cause with
  | zeroLookahead => exact not_opensAsReplay 'l' 'o' (by decide) ⟨_, rfl⟩
  | conflict =>
      apply not_opensAsReplay 'g' 'r' (by decide)
      repeat apply begins_append
      exact ⟨_, rfl⟩

theorem not_opensAsReplay_parse (cause : ParseError) : ¬OpensAsReplay cause.message := by
  cases cause with
  | unexpectedEnd | mismatch | unrecognizedLookahead | trailingInput =>
      apply not_opensAsReplay 'p' 'o' (by decide)
      repeat apply begins_append
      exact ⟨_, rfl⟩
  | noDerivation => exact not_opensAsReplay 'n' 'o' (by decide) ⟨_, rfl⟩
  | stepLimitExceeded =>
      apply not_opensAsReplay 's' 'e' (by decide)
      repeat apply begins_append
      exact ⟨_, rfl⟩

theorem failure_ne_failure (other : ¬OpensAsReplay message) (cause : ReplayError) :
    failure message ≠ failure cause.message := by
  intro same
  exact other (failure_injective same ▸ opensAsReplay_replay cause)

end Wordings

variable {grammar input : Text} {k : Nat} {name : String} {report : Json}

/-- No report that is reached on the way says that a derivation does not replay. -/
theorem Verifies.ne_failure (verifies : Verifies grammar k name input report)
    (cause : ReplayError) : report ≠ failure cause.message := by
  cases verifies with
  | unread => exact failure_ne_failure (not_opensAsReplay_read _) cause
  | unnamed => exact failure_ne_failure (not_opensAsReplay_unknown _) cause
  | unbuilt => exact failure_ne_failure (not_opensAsReplay_table _) cause
  | rejected => exact failure_ne_failure (not_opensAsReplay_parse _) cause
  | derived => exact json_ne_failure _ _

end Report

/-- Every answer of a recognizer is a derivation of its input: in its own order its rules replay to
the input, they are rules of the grammar that the strategy works on, and the view of them ends with
the input. So a report on an input shows the input as derived or names a step before replay. -/
theorem answers_derive_their_input :
    (∀ (g : Grammar) (strategy : Strategy) (config : RecognizerConfig) (recognizer : Recognizer),
      strategy.build g config = .ok recognizer → ∀ input derivation,
        recognizer.parse input = .ok derivation →
          derivation.replay g.start = .ok (input.map .char) ∧
            (∀ rule ∈ derivation.rules, rule ∈ (strategy.source g input).rules) ∧
            ∃ view, derivation.view g.start = .ok view ∧
              view.Shows g.start derivation.rules input) ∧
      ∀ grammar k name input,
        Report.Verifies grammar k name input (Report.verify grammar k name input) ∧
          ∀ cause : ReplayError,
            Report.verify grammar k name input ≠ Report.failure cause.message := by
  constructor
  · intro g strategy config recognizer built input derivation answered
    obtain ⟨members, replays⟩ := derives_of_parse built answered
    rw [Strategy.start_source] at replays
    exact ⟨replays, members, Derivation.exists_view replays⟩
  · intro grammar k name input
    have verifies := Report.verifies_verify grammar k name input
    exact ⟨verifies, verifies.ne_failure⟩

/-- The rightmost derivation of two pairs of parentheses side by side, without empty rules. -/
def twoPairs : Derivation :=
  ⟨.rightmost,
    [⟨.named "S", [.terminal (.char '('), .terminal (.char ')'), .nonterminal (.named "S")], by simp,
        by simp⟩,
      ⟨.named "S", [.terminal (.char '('), .terminal (.char ')')], by simp, by simp⟩]⟩

/-- The bottom-up search finds two pairs of parentheses and replay reads them back. -/
theorem nested_answers :
    Strategy.bottomUp.build nested ⟨1, some 100⟩ =
        .ok (.bottomUp (.ofGrammar nested (some 100))) ∧
      (BottomUp.ofGrammar nested (some 100)).parse ['(', ')', '(', ')'] = .ok twoPairs ∧
      twoPairs.replay nested.start = .ok [.char '(', .char ')', .char '(', .char ')'] ∧
      ∀ rule ∈ twoPairs.rules, rule ∈ nested.epsilonFree.rules := by
  have built : Strategy.bottomUp.build nested ⟨1, some 100⟩ =
      .ok (.bottomUp (.ofGrammar nested (some 100))) := rfl
  have found : (BottomUp.ofGrammar nested (some 100)).space.search 100
      (BottomUp.initial ['(', ')', '(', ')']) [] =
        .found ⟨[.nonterminal (.named "S")], [], 0, twoPairs.rules⟩ := by
    cbv
  have answered : (BottomUp.ofGrammar nested (some 100)).parse ['(', ')', '(', ')'] =
      .ok twoPairs := by
    have limit : (BottomUp.ofGrammar nested (some 100)).stepLimit = some 100 := rfl
    simp only [BottomUp.parse, limit, Option.getD_some, found]
    rfl
  obtain ⟨replays, members, _⟩ := answers_derive_their_input.1 _ _ _ _ built _ _ answered
  exact ⟨built, answered, replays, members⟩

end StrongLL
