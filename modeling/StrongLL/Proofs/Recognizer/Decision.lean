import StrongLL.Proofs.Grammar.EpsilonFree
import StrongLL.Proofs.Search.Walk
import StrongLL.Recognizer.Error

/-!
# Right answers

An answer is right when it is a derivation for the words of the grammar and the underivable
rejection for everything else. Nothing here says that the derivation is one of the word, nor which
one it is: that depends on the order of the rules, in which both searches try them.
-/

namespace StrongLL

set_option autoImplicit false

/-- The answer accepts the words of the grammar and rejects everything else as underivable. -/
def Decided (g : Grammar) (word : Text) (answer : Except ParseError Derivation) : Prop :=
  ((∃ derivation, answer = .ok derivation) ↔ g.Language word) ∧
    (¬g.Language word → answer = .error .noDerivation)

/-- The first rule stands before the second in the order of rules. -/
def Rule.Before (first second : Rule) : Prop := Ord.compare first second = .lt

theorem Rule.Before.asymm {first second : Rule} (before : first.Before second) :
    ¬second.Before first := by
  intro behind
  have swapped : Ord.compare first second = .gt := Std.OrientedCmp.gt_of_lt behind
  rw [before] at swapped
  exact nomatch swapped

theorem Grammar.pairwise_rules (g : Grammar) : g.rules.toList.Pairwise Rule.Before :=
  g.rules.sorted

variable {g : Grammar} {word : Text}

theorem decided_ok (inside : g.Language word) (derivation : Derivation) :
    Decided g word (.ok derivation) :=
  ⟨⟨fun _ => inside, fun _ => ⟨derivation, rfl⟩⟩, fun outside => absurd inside outside⟩

theorem decided_error (outside : ¬g.Language word) : Decided g word (.error .noDerivation) :=
  ⟨⟨nofun, fun inside => absurd inside outside⟩, fun _ => rfl⟩

theorem Decided.ok_or_noDerivation {answer : Except ParseError Derivation}
    (decided : Decided g word answer) :
    (∃ derivation, answer = .ok derivation) ∨ answer = .error .noDerivation := by
  by_cases inside : g.Language word
  · exact .inl (decided.1.2 inside)
  · exact .inr (decided.2 inside)

/-- The empty input is decided by the derivation of the empty word that the witnesses give. -/
theorem decided_onEmpty (g : Grammar) :
    Decided g []
      (match g.nullDerivation g.start with
        | some rules => .ok ⟨.leftmost, rules⟩
        | none => .error .noDerivation) := by
  have known : (∃ rules, g.nullDerivation g.start = some rules) ↔ g.Language [] :=
    Grammar.exists_nullDerivation_iff
  cases found : g.nullDerivation g.start with
  | some rules => exact decided_ok (known.1 ⟨rules, found⟩) _
  | none =>
      apply decided_error
      intro inside
      obtain ⟨rules, other⟩ := known.2 inside
      rw [found] at other
      exact nomatch other

/-- What is answered when a search of some visits ends. -/
def Verdict.answer {State : Type} (derivation : State → Derivation) (visits : Nat) :
    Verdict State → Except ParseError Derivation
  | found last => .ok (derivation last)
  | exhausted _ => .error .noDerivation
  | cut => .error (.stepLimitExceeded visits)

theorem Verdict.answer_eq_ok_iff {State : Type} {verdict : Verdict State}
    {derivation : State → Derivation} {visits : Nat} {answer : Derivation} :
    verdict.answer derivation visits = .ok answer ↔
      ∃ last, verdict = .found last ∧ derivation last = answer := by
  cases verdict with
  | found last => simp [Verdict.answer]
  | exhausted back => simp [Verdict.answer]
  | cut => simp [Verdict.answer]

section Searches

variable {State Move Memo : Type} {space : Space State Move Memo} {start : State}

theorem decided_found
    (reaches_iff : (∃ last, space.Reaches start last ∧ space.accepted last = true) ↔
      g.epsilonFree.Language word)
    {last : State} (reaches : space.Reaches start last) (accepted : space.accepted last = true)
    (derivation : Derivation) : Decided g word (.ok derivation) := by
  have inside := reaches_iff.1 ⟨last, reaches, accepted⟩
  exact decided_ok (Grammar.language_epsilonFree_iff.1 inside).2 derivation

theorem decided_exhausted
    (reaches_iff : (∃ last, space.Reaches start last ∧ space.accepted last = true) ↔
      g.epsilonFree.Language word)
    (nonempty : word ≠ [])
    (nothing : ∀ last, space.Reaches start last → space.accepted last = false) :
    Decided g word (.error .noDerivation) := by
  apply decided_error
  intro inside
  obtain ⟨last, reaches, accepted⟩ :=
    reaches_iff.2 (Grammar.language_epsilonFree_iff.2 ⟨nonempty, inside⟩)
  rw [nothing last reaches] at accepted
  exact nomatch accepted

end Searches

end StrongLL
