import StrongLL.Derivation.Basic

/-!
# The language of a grammar

One step replaces any nonterminal of a sentential form by the body of one of its rules, and a form
derives what any number of steps lead to. The language holds the words that the start symbol
derives. Nothing here says how a word is recognized. The main statements say that derivations can be
put one after another and side by side.
-/

namespace StrongLL

set_option autoImplicit false

/-- The sentential form that is a word. -/
def spelled (word : Text) : SententialForm := word.map fun c => .terminal (.char c)

/-- The form without the empty word, which stands for nothing. -/
def withoutEpsilon (form : SententialForm) : SententialForm := form.filter (!·.isEpsilon)

namespace Grammar

/-- A nonterminal between the symbols `before` and `behind` is replaced by the body of a rule. -/
inductive Step (g : Grammar) : SententialForm → SententialForm → Prop
  | replace (before behind : SententialForm) (rule : Rule) (member : rule ∈ g.rules) :
    Step g (before ++ .nonterminal rule.left :: behind) (before ++ rule.body ++ behind)

/-- Some number of steps lead from one form to another. -/
inductive Derives (g : Grammar) : SententialForm → SententialForm → Prop
  | refl (form : SententialForm) : Derives g form form
  | step {form next last : SententialForm} (first : g.Step form next)
    (more : Derives g next last) : Derives g form last

/-- A form derives a word of terminals. -/
def DerivesWord (g : Grammar) (form : SententialForm) (word : Text) : Prop :=
  g.Derives (withoutEpsilon form) (spelled word)

/-- The words that the start symbol derives. -/
def Language (g : Grammar) (word : Text) : Prop := g.DerivesWord [.nonterminal g.start] word

variable {g : Grammar}

theorem Derives.trans {first middle last : SententialForm} (before : g.Derives first middle)
    (after : g.Derives middle last) : g.Derives first last := by
  induction before with
  | refl => exact after
  | step head _ induction => exact .step head (induction after)

theorem Step.within {form next : SententialForm} (step : g.Step form next)
    (before behind : SententialForm) :
    g.Step (before ++ form ++ behind) (before ++ next ++ behind) := by
  cases step with
  | replace inner outer rule member =>
    simpa using Step.replace (before ++ inner) (outer ++ behind) rule member

theorem Derives.within {form last : SententialForm} (derives : g.Derives form last)
    (before behind : SententialForm) :
    g.Derives (before ++ form ++ behind) (before ++ last ++ behind) := by
  induction derives with
  | refl => exact .refl _
  | step head _ induction => exact .step (head.within before behind) induction

/-- Two forms derive side by side what each of them derives. -/
theorem Derives.append {left leftLast right rightLast : SententialForm}
    (first : g.Derives left leftLast) (second : g.Derives right rightLast) :
    g.Derives (left ++ right) (leftLast ++ rightLast) := by
  have front := first.within [] right
  have back := second.within leftLast []
  simp only [List.nil_append, List.append_nil] at front back
  exact front.trans back

end Grammar

end StrongLL
