import StrongLL.Proofs.Recognizer.BottomUp
import StrongLL.Proofs.Recognizer.TopDown

/-!
# Step limits

A step limit cuts a search and changes nothing else. No move of a search looks at the limit, so the
visits that a search takes on an input are one number. A smaller limit is exceeded, and under any
other the search answers what it answers without a limit. The empty input is answered without a
search, so no limit is too small for it.
-/

namespace StrongLL

set_option autoImplicit false

/-- The answers to an input under all step limits and without one: every limit below the threshold
is exceeded, no other limit is felt, and without one the answer is a derivation or that there is
none. -/
structure CutBelow (threshold : Nat) (answer : Option Nat → Except ParseError Derivation) :
    Prop where
  few : ∀ limit, limit < threshold → answer (some limit) = .error (.stepLimitExceeded limit)
  enough : ∀ limit, threshold ≤ limit → answer (some limit) = answer none
  unlimited : (∃ derivation, answer none = .ok derivation) ∨ answer none = .error .noDerivation

/-- A derivation that is found under a limit is the one that is found without one. -/
theorem CutBelow.unlimited_of_ok {threshold : Nat}
    {answer : Option Nat → Except ParseError Derivation} (cut : CutBelow threshold answer)
    {limit : Option Nat} {derivation : Derivation} (answered : answer limit = .ok derivation) :
    answer none = .ok derivation := by
  cases limit with
  | none => exact answered
  | some limit =>
      rcases Nat.lt_or_ge limit threshold with less | more
      · rw [cut.few limit less] at answered
        exact nomatch answered
      · rw [← cut.enough limit more]
        exact answered

theorem Verdict.answer_of_ne_cut {State : Type} {verdict : Verdict State} (whole : verdict ≠ .cut)
    (derivation : State → Derivation) (visits other : Nat) :
    verdict.answer derivation visits = verdict.answer derivation other ∧
      ((∃ found, verdict.answer derivation visits = .ok found) ∨
        verdict.answer derivation visits = .error .noDerivation) := by
  cases verdict with
  | found last => exact ⟨rfl, .inl ⟨_, rfl⟩⟩
  | exhausted back => exact ⟨rfl, .inr rfl⟩
  | cut => exact absurd rfl whole

/-- The answers that a search gives are cut below the visits that it takes. -/
theorem Space.exists_cutBelow {State Move Memo : Type} {space : Space State Move Memo}
    (restores : space.Restores) {height : State → Nat} {width bound : Nat}
    (lower : ∀ state next, space.Leads state next → height next < height state)
    (narrow : ∀ state, (space.moves state).length ≤ width) {start : State}
    (room : (width + 1) ^ height start ≤ bound) (derivation : State → Derivation) :
    ∃ threshold, 0 < threshold ∧ CutBelow threshold fun limit =>
      (space.search (limit.getD bound) start []).answer derivation (limit.getD bound) := by
  rcases exists_verdict restores lower narrow start with ⟨count, verdict, few, ends, answers⟩
  have whole := Verdict.answer_of_ne_cut ends.ne_cut derivation
  have free : space.search bound start [] = verdict := by
    rw [answers, if_neg (by omega)]
  refine ⟨count + 1, Nat.succ_pos count, ?_, ?_, ?_⟩
  · intro limit less
    have cut : space.search limit start [] = .cut := by
      rw [answers, if_pos (Nat.le_of_lt_succ less)]
    simp only [Option.getD_some, cut, Verdict.answer]
  · intro limit more
    have felt : space.search limit start [] = verdict := by
      rw [answers, if_neg (Nat.not_le.2 more)]
    simp only [Option.getD_some, Option.getD_none, felt, free]
    exact (whole limit bound).1
  · simp only [Option.getD_none, free]
    exact (whole bound bound).2

/-- An answer that does not look at the limit is never cut. -/
theorem cutBelow_zero {answer : Option Nat → Except ParseError Derivation}
    (same : ∀ limit, answer (some limit) = answer none)
    (unlimited : (∃ derivation, answer none = .ok derivation) ∨
      answer none = .error .noDerivation) :
    CutBelow 0 answer :=
  ⟨fun limit less => absurd less (Nat.not_lt_zero limit), fun limit _ => same limit, unlimited⟩

theorem TopDown.exists_threshold (g : Grammar) (input : Text) :
    ∃ threshold, (threshold = 0 ↔ input = []) ∧
      CutBelow threshold fun limit => (ofGrammar g limit).parse input := by
  by_cases empty : input = []
  · have unlimited := (decided_parse g input).ok_or_noDerivation
    rw [empty] at unlimited ⊢
    exact ⟨0, by simp, cutBelow_zero (fun _ => rfl) unlimited⟩
  · have answers := Space.exists_cutBelow (restores_space (ofGrammar g none))
      (fun _ _ leads => height_lt (step_of_leads leads)) (length_moves_le _)
      (pow_height_le (ofGrammar g none) input) fun last => ⟨.leftmost, last.applied.reverse⟩
    rcases answers with ⟨threshold, positive, cut⟩
    simp only [parse_filled _ empty]
    exact ⟨threshold, by simp [empty, Nat.ne_of_gt positive], cut⟩

theorem BottomUp.exists_threshold (g : Grammar) (input : Text) :
    ∃ threshold, (threshold = 0 ↔ input = []) ∧
      CutBelow threshold fun limit => (ofGrammar g limit).parse input := by
  by_cases empty : input = []
  · have unlimited := (decided_parse g input).ok_or_noDerivation
    rw [empty] at unlimited ⊢
    exact ⟨0, by simp, cutBelow_zero (fun _ => rfl) unlimited⟩
  · have answers := Space.exists_cutBelow (restores_space (ofGrammar g none))
      (fun _ _ leads => height_lt (step_of_leads leads))
      (fun state => Nat.le_of_eq (length_moves _ state)) (pow_height_le (ofGrammar g none) input)
      fun last => ⟨.rightmost, last.reductions⟩
    rcases answers with ⟨threshold, positive, cut⟩
    simp only [parse_filled _ empty]
    exact ⟨threshold, by simp [empty, Nat.ne_of_gt positive], cut⟩

/-- A step limit only cuts. For each of the searches and each input there is one number of visits:
under a limit below it the answer is that the limit was exceeded, and under any other limit it is
the derivation or the rejection that is given without one. The number is zero for the empty input
and for no other. -/
theorem step_limit_only_cuts (g : Grammar) (input : Text) :
    (∃ threshold, (threshold = 0 ↔ input = []) ∧
      CutBelow threshold fun limit => (TopDown.ofGrammar g limit).parse input) ∧
      ∃ threshold, (threshold = 0 ↔ input = []) ∧
        CutBelow threshold fun limit => (BottomUp.ofGrammar g limit).parse input :=
  ⟨TopDown.exists_threshold g input, BottomUp.exists_threshold g input⟩

end StrongLL
