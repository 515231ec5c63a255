import Mathlib.Data.Nat.Find
import StrongLL.Language

/-!
# Two views of a derivation

`Derives` replaces nonterminals anywhere in a form. Here the same derivations are read in two fixed
orders. `Yields` is the forest view: every symbol of a sequence derives its own part of the word.
`Leftmost` is the step view: the first nonterminal is replaced before anything behind it. Both list
the rules in the order in which a leftmost derivation applies them, so they agree on the list and
not only on the word. The word is derived in either view exactly if it is derived at all.
-/

namespace StrongLL

set_option autoImplicit false

namespace Grammar

/-- The symbols derive the word side by side. -/
inductive Yields (g : Grammar) : List Symbol → Text → List Rule → Prop
  | nil : Yields g [] [] []
  | skip {symbols : List Symbol} {word : Text} {rules : List Rule}
      (behind : Yields g symbols word rules) :
      Yields g (.terminal .epsilon :: symbols) word rules
  | scan (c : Char) {symbols : List Symbol} {word : Text} {rules : List Rule}
      (behind : Yields g symbols word rules) :
      Yields g (.terminal (.char c) :: symbols) (c :: word) rules
  | expand {rule : Rule} (member : rule ∈ g.rules) {symbols : List Symbol} {inner word : Text}
      {innerRules rules : List Rule} (body : Yields g rule.body inner innerRules)
      (behind : Yields g symbols word rules) :
      Yields g (.nonterminal rule.left :: symbols) (inner ++ word) (rule :: (innerRules ++ rules))

/-- The rules, applied to the first nonterminal each, turn the symbols into the word. -/
inductive Leftmost (g : Grammar) : List Symbol → Text → List Rule → Prop
  | nil : Leftmost g [] [] []
  | skip {symbols : List Symbol} {word : Text} {rules : List Rule}
      (behind : Leftmost g symbols word rules) :
      Leftmost g (.terminal .epsilon :: symbols) word rules
  | scan (c : Char) {symbols : List Symbol} {word : Text} {rules : List Rule}
      (behind : Leftmost g symbols word rules) :
      Leftmost g (.terminal (.char c) :: symbols) (c :: word) rules
  | expand {rule : Rule} (member : rule ∈ g.rules) {symbols : List Symbol} {word : Text}
      {rules : List Rule} (next : Leftmost g (rule.body ++ symbols) word rules) :
      Leftmost g (.nonterminal rule.left :: symbols) word (rule :: rules)

variable {g : Grammar} {left right symbols : List Symbol} {word first second : Text}
  {rules firstRules secondRules : List Rule}

theorem Yields.append (before : g.Yields left first firstRules)
    (behind : g.Yields right second secondRules) :
    g.Yields (left ++ right) (first ++ second) (firstRules ++ secondRules) := by
  induction before with
  | nil => exact behind
  | skip _ induction => exact .skip induction
  | scan c _ induction => exact .scan c induction
  | expand member body _ _ induction =>
      have joined := Yields.expand member body induction
      simpa only [List.cons_append, List.append_assoc] using joined

/-- What two sequences yield together splits at their border. -/
theorem Yields.split (yields : g.Yields (left ++ right) word rules) :
    ∃ first second firstRules secondRules, word = first ++ second ∧
      rules = firstRules ++ secondRules ∧
      g.Yields left first firstRules ∧ g.Yields right second secondRules := by
  induction left generalizing word rules with
  | nil => exact ⟨[], word, [], rules, rfl, rfl, .nil, yields⟩
  | cons s left induction =>
      cases yields with
      | skip behind =>
          obtain ⟨first, second, firstRules, secondRules, rfl, rfl, front, back⟩ :=
            induction behind
          exact ⟨first, second, firstRules, secondRules, rfl, rfl, .skip front, back⟩
      | scan c behind =>
          obtain ⟨first, second, firstRules, secondRules, rfl, rfl, front, back⟩ :=
            induction behind
          exact ⟨c :: first, second, firstRules, secondRules, rfl, rfl, .scan c front, back⟩
      | @expand rule member _ inner _ innerRules _ body behind =>
          obtain ⟨first, second, firstRules, secondRules, rfl, rfl, front, back⟩ :=
            induction behind
          refine ⟨inner ++ first, second, rule :: (innerRules ++ firstRules), secondRules,
            ?_, ?_, .expand member body front, back⟩
          · rw [List.append_assoc]
          · rw [List.cons_append, List.append_assoc]

theorem Yields.of_cons {s : Symbol} (yields : g.Yields (s :: symbols) word rules) :
    ∃ first second firstRules secondRules, word = first ++ second ∧
      rules = firstRules ++ secondRules ∧
      g.Yields [s] first firstRules ∧ g.Yields symbols second secondRules := by
  rw [← List.singleton_append] at yields
  exact yields.split

theorem Leftmost.append (before : g.Leftmost left first firstRules)
    (behind : g.Leftmost right second secondRules) :
    g.Leftmost (left ++ right) (first ++ second) (firstRules ++ secondRules) := by
  induction before with
  | nil => exact behind
  | skip _ induction => exact .skip induction
  | scan c _ induction => exact .scan c induction
  | expand member _ induction =>
      rw [List.append_assoc] at induction
      exact .expand member induction

/-- The two views list the same rules. -/
theorem yields_iff_leftmost : g.Yields symbols word rules ↔ g.Leftmost symbols word rules := by
  constructor
  · intro yields
    induction yields with
    | nil => exact .nil
    | skip _ induction => exact .skip induction
    | scan c _ induction => exact .scan c induction
    | expand member _ _ body behind => exact .expand member (body.append behind)
  · intro leftmost
    induction leftmost with
    | nil => exact .nil
    | skip _ induction => exact .skip induction
    | scan c _ induction => exact .scan c induction
    | expand member _ induction =>
        obtain ⟨inner, outer, innerRules, outerRules, rfl, rfl, body, behind⟩ := induction.split
        exact .expand member body behind

theorem Yields.mem_rules (yields : g.Yields symbols word rules) :
    ∀ rule ∈ rules, rule ∈ g.rules := by
  induction yields with
  | nil => exact fun _ member => absurd member List.not_mem_nil
  | skip _ induction => exact induction
  | scan c _ induction => exact induction
  | expand member _ _ body behind =>
      intro rule occurs
      rcases List.mem_cons.1 occurs with same | later
      · exact same ▸ member
      · exact (List.mem_append.1 later).elim (body rule) (behind rule)

theorem Leftmost.mem_rules (leftmost : g.Leftmost symbols word rules) :
    ∀ rule ∈ rules, rule ∈ g.rules :=
  (yields_iff_leftmost.2 leftmost).mem_rules

theorem Yields.of_nil (yields : g.Yields [] word rules) : word = [] ∧ rules = [] := by
  cases yields
  exact ⟨rfl, rfl⟩

theorem Yields.of_nonterminal {n : NonTerminal} (yields : g.Yields [.nonterminal n] word rules) :
    ∃ rule ∈ g.rules, rule.left = n ∧
      ∃ inner, rules = rule :: inner ∧ g.Yields rule.body word inner := by
  cases yields with
  | expand member body behind =>
      obtain ⟨rfl, rfl⟩ := behind.of_nil
      refine ⟨_, member, rfl, _, by rw [List.append_nil], ?_⟩
      rw [List.append_nil]
      exact body

theorem Yields.of_rule {rule : Rule} (member : rule ∈ g.rules)
    (yields : g.Yields rule.body word rules) :
    g.Yields [.nonterminal rule.left] word (rule :: rules) := by
  have expanded := Yields.expand member yields .nil
  simpa only [List.append_nil] using expanded

theorem yields_spelled (word : Text) : g.Yields (spelled word) word [] := by
  induction word with
  | nil => exact .nil
  | cons c word induction => exact .scan c induction

theorem withoutEpsilon_append (left right : SententialForm) :
    withoutEpsilon (left ++ right) = withoutEpsilon left ++ withoutEpsilon right :=
  List.filter_append ..

theorem withoutEpsilon_eq_self {form : SententialForm} (plain : Symbol.terminal .epsilon ∉ form) :
    withoutEpsilon form = form := by
  apply List.filter_eq_self.2
  intro s occurs
  cases s with
  | nonterminal n => rfl
  | terminal t =>
      cases t with
      | char c => rfl
      | epsilon => exact absurd occurs plain

theorem withoutEpsilon_body (rule : Rule) : withoutEpsilon rule.body = rule.body :=
  withoutEpsilon_eq_self rule.epsilon_not_mem_body

theorem withoutEpsilon_right (rule : Rule) : withoutEpsilon rule.right = rule.body := by
  have body := withoutEpsilon_body rule
  unfold Rule.body at body ⊢
  split
  · next empty =>
      rw [beq_iff_eq.1 empty]
      rfl
  · next filled =>
      rw [if_neg filled] at body
      exact body

theorem yields_withoutEpsilon_iff :
    g.Yields (withoutEpsilon symbols) word rules ↔ g.Yields symbols word rules := by
  induction symbols generalizing word rules with
  | nil => rfl
  | cons s symbols induction =>
      match s with
      | .terminal .epsilon =>
          constructor
          · exact fun yields => .skip (induction.1 yields)
          · intro yields
            cases yields with
            | skip behind => exact induction.2 behind
      | .terminal (.char c) =>
          constructor
          · intro yields
            cases yields with
            | scan _ behind => exact .scan c (induction.1 behind)
          · intro yields
            cases yields with
            | scan _ behind => exact .scan c (induction.2 behind)
      | .nonterminal n =>
          constructor
          · intro yields
            cases yields with
            | expand member body behind => exact .expand member body (induction.1 behind)
          · intro yields
            cases yields with
            | expand member body behind => exact .expand member body (induction.2 behind)

theorem Step.exists_yields {form next : SententialForm} (step : g.Step form next)
    (yields : g.Yields next word rules) : ∃ before, g.Yields form word before := by
  cases step with
  | replace before behind rule member =>
      obtain ⟨front, last, frontRules, lastRules, rfl, rfl, yieldsFront, yieldsBehind⟩ :=
        yields.split
      obtain ⟨first, inner, firstRules, innerRules, rfl, rfl, yieldsBefore, yieldsBody⟩ :=
        yieldsFront.split
      refine ⟨firstRules ++ rule :: (innerRules ++ lastRules), ?_⟩
      rw [List.append_assoc first]
      exact yieldsBefore.append (.expand member yieldsBody yieldsBehind)

theorem Derives.exists_yields {form last : SententialForm} (derives : g.Derives form last)
    (yields : g.Yields last word rules) : ∃ before, g.Yields form word before := by
  induction derives generalizing rules with
  | refl => exact ⟨rules, yields⟩
  | step first _ induction =>
      obtain ⟨later, yieldsNext⟩ := induction yields
      exact first.exists_yields yieldsNext

theorem Derives.of_rule {rule : Rule} (member : rule ∈ g.rules) (before behind : SententialForm) :
    g.Derives (before ++ .nonterminal rule.left :: behind) (before ++ rule.body ++ behind) :=
  .step (.replace before behind rule member) (.refl _)

theorem Yields.derives (yields : g.Yields symbols word rules) :
    g.Derives (withoutEpsilon symbols) (spelled word) := by
  induction yields with
  | nil => exact .refl []
  | skip _ induction => exact induction
  | scan c _ induction =>
      exact (Derives.refl [.terminal (.char c)]).append induction
  | @expand rule member symbols inner word innerRules rules _ _ body behind =>
      rw [withoutEpsilon_body] at body
      have replaced := Derives.of_rule member [] (withoutEpsilon symbols)
      have joined := body.append behind
      rw [show spelled (inner ++ word) = spelled inner ++ spelled word from List.map_append]
      exact replaced.trans joined

/-- A form derives a word exactly if it yields it. -/
theorem derivesWord_iff_yields {form : SententialForm} :
    g.DerivesWord form word ↔ ∃ rules, g.Yields form word rules := by
  constructor
  · intro derives
    obtain ⟨rules, yields⟩ := Derives.exists_yields derives (yields_spelled word)
    exact ⟨rules, yields_withoutEpsilon_iff.1 yields⟩
  · rintro ⟨rules, yields⟩
    exact yields.derives

theorem DerivesWord.append {left right : SententialForm} (before : g.DerivesWord left first)
    (behind : g.DerivesWord right second) : g.DerivesWord (left ++ right) (first ++ second) := by
  rw [DerivesWord, withoutEpsilon_append,
    show spelled (first ++ second) = spelled first ++ spelled second from List.map_append]
  exact Derives.append before behind

theorem DerivesWord.split {left right : SententialForm}
    (derives : g.DerivesWord (left ++ right) word) :
    ∃ first second, word = first ++ second ∧ g.DerivesWord left first ∧
      g.DerivesWord right second := by
  obtain ⟨rules, yields⟩ := derivesWord_iff_yields.1 derives
  obtain ⟨first, second, firstRules, secondRules, same, _, front, back⟩ := yields.split
  exact ⟨first, second, same, derivesWord_iff_yields.2 ⟨firstRules, front⟩,
    derivesWord_iff_yields.2 ⟨secondRules, back⟩⟩

theorem DerivesWord.of_cons {s : Symbol} {behind : SententialForm}
    (derives : g.DerivesWord (s :: behind) word) :
    ∃ first second, word = first ++ second ∧ g.DerivesWord [s] first ∧
      g.DerivesWord behind second := by
  rw [← List.singleton_append] at derives
  exact derives.split

theorem derivesWord_right_iff {rule : Rule} :
    g.DerivesWord rule.right word ↔ g.DerivesWord rule.body word := by
  rw [DerivesWord, DerivesWord, withoutEpsilon_right, withoutEpsilon_body]

theorem DerivesWord.of_rule {rule : Rule} (member : rule ∈ g.rules)
    (derives : g.DerivesWord rule.body word) : g.DerivesWord [.nonterminal rule.left] word := by
  have replaced := Derives.of_rule member [] []
  rw [List.nil_append, List.append_nil] at replaced
  rw [DerivesWord, withoutEpsilon_body] at derives
  exact replaced.trans derives

theorem DerivesWord.of_derives {form next : SententialForm} (derives : g.Derives form next)
    (later : g.DerivesWord next word) : g.DerivesWord form word := by
  obtain ⟨rules, yields⟩ := derivesWord_iff_yields.1 later
  exact derivesWord_iff_yields.2 (derives.exists_yields yields)

theorem Leftmost.exists_shortest (leftmost : g.Leftmost symbols word rules) :
    ∃ shortest, g.Leftmost symbols word shortest ∧
      ∀ others, g.Leftmost symbols word others → shortest.length ≤ others.length := by
  classical
  have lengths : ∃ length, ∃ others, g.Leftmost symbols word others ∧ others.length = length :=
    ⟨_, rules, leftmost, rfl⟩
  obtain ⟨shortest, found, least⟩ := Nat.find_spec lengths
  refine ⟨shortest, found, fun others given => ?_⟩
  rw [least]
  exact Nat.find_min' lengths ⟨others, given, rfl⟩

theorem language_iff_yields :
    g.Language word ↔ ∃ rules, g.Yields [.nonterminal g.start] word rules :=
  derivesWord_iff_yields

theorem language_iff_leftmost :
    g.Language word ↔ ∃ rules, g.Leftmost [.nonterminal g.start] word rules := by
  simp only [language_iff_yields, yields_iff_leftmost]

end Grammar

end StrongLL
