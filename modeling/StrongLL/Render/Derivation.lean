import StrongLL.Derivation.Basic
import StrongLL.Render.Format

/-!
# Derivations step by step

A derivation of a word is shown by its sentential forms, each but the first with the rule that led
to it.
-/

namespace StrongLL

set_option autoImplicit false

/-- A sentential form and the rule that led to it. -/
structure StepView where
  rule : Option Text
  form : Text
deriving DecidableEq

/-- A derivation with the word that it derives. -/
structure DerivationView where
  derived : Text
  steps : List StepView
deriving DecidableEq

instance : View DerivationView where
  plain view :=
    let width := Text.columnWidth (view.steps.map (·.form))
    Text.join "\n" (view.steps.map fun step =>
      match step.rule with
      | some rule => "=> ".toList ++ Text.alignLeft width step.form ++ "  (".toList ++ rule ++ [')']
      | none => "   ".toList ++ step.form)
  latex escape view :=
    let forms := view.steps.map fun step => Latex.escapeWithEpsilon escape step.form
    "\\[".toList ++ Text.join " \\Rightarrow " forms ++ "\\]".toList
  json view :=
    .object
      [("accepted", .boolean true), ("derived", .string view.derived),
        ("steps", .array (view.steps.map fun step =>
          .object [("rule", .optional .string step.rule), ("form", .string step.form)]))]

namespace Derivation

def view (derivation : Derivation) (start : NonTerminal) : Except ReplayError DerivationView := do
  let forms ← derivation.sententialForms start
  let word ← derivation.replay start
  let rules := none :: derivation.rules.map fun rule => some rule.display
  return {
    derived := word.flatMap Terminal.display
    steps := List.zipWith (fun rule form => ⟨rule, Symbol.displayAll form⟩) rules forms }

end Derivation

end StrongLL
