import StrongLL.Proofs.Derivation.Replay
import StrongLL.Render.Derivation

/-!
# The forms of a derivation

Replay keeps the last form only and the view keeps every form that is passed. Both take the same
steps, so whatever replays can be shown, and the last form that is shown is the word. At the other
end from `Leftmost`, a rightmost step finds its nonterminal in front of the characters that end a
form and leaves everything before it alone.
-/

namespace StrongLL

set_option autoImplicit false

namespace Focus

theorem leftmost?_eq_none {form : SententialForm} (closed : form.any Symbol.isNonTerminal = false) :
    leftmost? form = none := by
  induction form with
  | nil => rfl
  | cons s form induction =>
      cases s with
      | nonterminal n => exact nomatch closed
      | terminal t =>
          have rest : form.any Symbol.isNonTerminal = false := closed
          rw [leftmost?, induction rest]
          rfl

theorem rightmost?_eq_none {form : SententialForm}
    (closed : form.any Symbol.isNonTerminal = false) :
    rightmost? form = none := by
  induction form with
  | nil => rfl
  | cons s form induction =>
      cases s with
      | nonterminal n => exact nomatch closed
      | terminal t =>
          have rest : form.any Symbol.isNonTerminal = false := closed
          simp only [rightmost?, induction rest]

theorem leftmost?_of_closed {before behind : SententialForm} (n : NonTerminal)
    (closed : before.any Symbol.isNonTerminal = false) :
    leftmost? (before ++ .nonterminal n :: behind) = some ⟨before, n, behind⟩ := by
  induction before with
  | nil => rfl
  | cons s before induction =>
      cases s with
      | nonterminal m => exact nomatch closed
      | terminal t =>
          have rest : before.any Symbol.isNonTerminal = false := closed
          rw [List.cons_append, leftmost?, induction rest]
          rfl

theorem rightmost?_of_closed {behind : SententialForm} (before : SententialForm) (n : NonTerminal)
    (closed : behind.any Symbol.isNonTerminal = false) :
    rightmost? (before ++ .nonterminal n :: behind) = some ⟨before, n, behind⟩ := by
  induction before with
  | nil => simp only [List.nil_append, rightmost?, rightmost?_eq_none closed]
  | cons s before induction => simp only [List.cons_append, rightmost?, induction]

end Focus

namespace DerivationOrder

variable {order : DerivationOrder} {step : Nat} {form last : SententialForm} {rules : List Rule}

theorem reach_rightmost_nonterminal (step : Nat) (before : SententialForm) (rule : Rule)
    (word : Text) (rules : List Rule) :
    rightmost.reach step (before ++ .nonterminal rule.left :: spelled word) (rule :: rules) =
      rightmost.reach (step + 1) (before ++ rule.body ++ spelled word) rules := by
  have closed : (spelled word).any Symbol.isNonTerminal = false := by
    simp [spelled, Symbol.isNonTerminal]
  simp only [reach, apply, focus?, Focus.rightmost?_of_closed before rule.left closed,
    Focus.replace, if_true]

/-- Rules that reach a form pass one form each, the one they start from not counted. -/
theorem exists_trace (reached : order.reach step form rules = .ok last) :
    ∃ forms, order.trace step form rules = .ok forms ∧ forms.length = rules.length + 1 ∧
      forms.head? = some form ∧ forms.getLast? = some last := by
  induction rules generalizing step form with
  | nil =>
      have same : form = last := Except.ok.inj reached
      exact ⟨[form], rfl, rfl, rfl, same ▸ rfl⟩
  | cons rule rules induction =>
      rw [reach] at reached
      rw [trace]
      split at reached
      · next next _ =>
          obtain ⟨forms, traced, length, _, ends⟩ := induction reached
          refine ⟨form :: forms, ?_, ?_, rfl, ?_⟩
          · rw [traced]
            rfl
          · rw [List.length_cons, length, List.length_cons]
          · rw [List.getLast?_cons, ends, Option.getD_some]
      · cases reached

end DerivationOrder

theorem displayAll_spelled (word : Text) : Symbol.displayAll (spelled word) = word := by
  rw [Symbol.displayAll, spelled, List.flatMap_map]
  exact List.flatMap_singleton' word

theorem flatMap_display_chars (word : Text) :
    (word.map Terminal.char).flatMap Terminal.display = word := by
  rw [List.flatMap_map]
  exact List.flatMap_singleton' word

/-- A view of a derivation of a word from a start symbol: the start alone, then for every rule its
display and the form that it leads to, and the word at last. -/
structure DerivationView.Shows (view : DerivationView) (start : NonTerminal) (rules : List Rule)
    (word : Text) : Prop where
  derived : view.derived = word
  rules : view.steps.map (·.rule) = none :: rules.map fun rule => some rule.display
  first : (view.steps.map (·.form)).head? = some start.display
  last : (view.steps.map (·.form)).getLast? = some word

/-- The steps that are shown for rules and for the forms that they pass. -/
def stepsOf (rules : List Rule) (forms : List SententialForm) : List StepView :=
  List.zipWith (fun rule form => ⟨rule, Symbol.displayAll form⟩)
    (none :: rules.map fun rule => some rule.display) forms

theorem map_stepsOf {rules : List Rule} {forms : List SententialForm}
    (length : forms.length = rules.length + 1) :
    (stepsOf rules forms).map (·.rule) = (none :: rules.map fun rule => some rule.display) ∧
      (stepsOf rules forms).map (·.form) = forms.map Symbol.displayAll := by
  have equal : (none :: rules.map fun rule => some rule.display).length = forms.length := by
    rw [length, List.length_cons, List.length_map]
  rw [stepsOf, ← List.map_uncurry_zip_eq_zipWith, List.map_map, List.map_map]
  constructor
  · exact List.map_fst_zip (Nat.le_of_eq equal)
  · have second := List.map_snd_zip (Nat.le_of_eq equal.symm)
    have shown := congrArg (List.map Symbol.displayAll) second
    rw [List.map_map] at shown
    exact shown

theorem Derivation.view_eq_ok {derivation : Derivation} {start : NonTerminal}
    {forms : List SententialForm} {word : List Terminal}
    (traced : derivation.sententialForms start = .ok forms)
    (replayed : derivation.replay start = .ok word) :
    derivation.view start =
      .ok ⟨word.flatMap Terminal.display, stepsOf derivation.rules forms⟩ := by
  rw [view, traced, replayed]
  rfl

/-- A derivation that replays to a word is shown as one of the word. -/
theorem Derivation.exists_view {derivation : Derivation} {start : NonTerminal} {word : Text}
    (replayed : derivation.replay start = .ok (word.map .char)) :
    ∃ view, derivation.view start = .ok view ∧ view.Shows start derivation.rules word := by
  obtain ⟨forms, traced, length, first, last⟩ :=
    DerivationOrder.exists_trace (replay_eq_ok_iff.1 replayed)
  have shown := view_eq_ok traced replayed
  rw [flatMap_display_chars] at shown
  obtain ⟨rules, shownForms⟩ := map_stepsOf length
  refine ⟨_, shown, rfl, rules, ?_, ?_⟩
  · rw [shownForms, List.head?_map, first, Option.map_some, Symbol.displayAll,
      List.flatMap_singleton]
    rfl
  · rw [shownForms, List.getLast?_map, last, Option.map_some, displayAll_spelled]

end StrongLL
