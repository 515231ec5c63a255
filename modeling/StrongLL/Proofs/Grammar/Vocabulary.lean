import StrongLL.Grammar.EpsilonFree
import StrongLL.Proofs.Grammar.Reader

/-!
# Declared and derived vocabularies

A declared vocabulary is checked by looking up the start, and then the symbols of the rules one after
another; the first that is missing is reported. The vocabulary that is taken from the rules passes the
check, and the vocabularies that pass are those that contain it. Grammars that are read from a text or
freed of empty rules have the vocabulary that their rules give, so they pass with nothing to spare.
-/

namespace StrongLL

set_option autoImplicit false

namespace Grammar

variable {nonterminals : SortedSet NonTerminal} {terminals : SortedSet Terminal}
  {rules : SortedSet Rule} {start : NonTerminal}

/-- The symbol is the first without the property, when the rules are gone through in their order and
each from the left side to the end of the right side. -/
def FirstWithout (Holds : Symbol → Prop) (listed : List Rule) (s : Symbol) : Prop :=
  ∃ before rule after, listed = before ++ rule :: after ∧
    (∀ earlier ∈ before, ∀ other ∈ earlier.symbols, Holds other) ∧
    ∃ front behind, rule.symbols = front ++ s :: behind ∧ (∀ other ∈ front, Holds other) ∧ ¬Holds s

/-- The grammar passes the check of its own vocabulary. -/
def Passes (g : Grammar) : Prop := make g.nonterminals g.terminals g.rules g.start = .ok g

/-- The vocabulary of the grammar is the one that its rules and its start give. -/
def IsDerived (g : Grammar) : Prop := ofRules g.start g.rules.toList = g

theorem find?_symbols_eq_some_iff {Holds : Symbol → Prop} [DecidablePred Holds] {listed : List Rule}
    {s : Symbol} : ((listed.flatMap Rule.symbols).find? fun s => ¬Holds s) = some s ↔
      FirstWithout Holds listed s := by
  have inside : ∀ symbols : List Symbol, (symbols.find? fun s => ¬Holds s) = some s ↔
      ∃ front behind, symbols = front ++ s :: behind ∧ (∀ other ∈ front, Holds other) ∧ ¬Holds s := by
    intro symbols
    rw [List.find?_eq_some_iff_append]
    simp only [decide_eq_true_eq, Bool.not_eq_true', decide_eq_false_iff_not, not_not]
    tauto
  have outside : ∀ rule : Rule, (rule.symbols.find? fun s => ¬Holds s) = none ↔
      ∀ other ∈ rule.symbols, Holds other := by
    intro rule
    rw [List.find?_eq_none]
    simp only [decide_eq_true_eq, not_not]
  rw [List.find?_flatMap, List.findSome?_eq_some_iff]
  simp only [inside, outside]
  unfold FirstWithout
  tauto

/-- The check succeeds exactly with the grammar that has the given parts. -/
theorem make_eq_ok_iff {g : Grammar} : make nonterminals terminals rules start = .ok g ↔
    g.nonterminals = nonterminals ∧ g.terminals = terminals ∧ g.rules = rules ∧ g.start = start := by
  constructor
  · intro made
    unfold make at made
    split at made
    · split at made
      · cases made
      · cases made
        exact ⟨rfl, rfl, rfl, rfl⟩
    · cases made
  · rintro ⟨rfl, rfl, rfl, rfl⟩
    unfold make
    rw [dif_pos g.start_declared]
    split
    · next s missing =>
        have found := List.find?_some missing
        obtain ⟨rule, member, occurs⟩ := List.mem_flatMap.1 (List.mem_of_find?_eq_some missing)
        have declared := g.rules_declared rule member s occurs
        simp [declared] at found
    · rfl

theorem make_eq_error_iff {cause : VocabularyError} :
    make nonterminals terminals rules start = .error cause ↔
      start ∉ nonterminals ∧ cause = .undeclaredStart start ∨
        start ∈ nonterminals ∧ ∃ s, cause = .undeclaredSymbol s ∧
          FirstWithout (Symbol.Declared nonterminals terminals) rules.toList s := by
  simp only [← find?_symbols_eq_some_iff]
  unfold make
  by_cases declared : start ∈ nonterminals
  · rw [dif_pos declared]
    split
    · next s missing =>
        rw [missing]
        simp [declared, eq_comm]
    · next missing =>
        simp only [reduceCtorEq, missing]
        simp [declared]
  · simp [declared, eq_comm]

theorem exists_make_iff : (∃ g, make nonterminals terminals rules start = .ok g) ↔
    start ∈ nonterminals ∧
      ∀ rule ∈ rules, ∀ s ∈ rule.symbols, s.Declared nonterminals terminals := by
  simp only [make_eq_ok_iff]
  constructor
  · rintro ⟨g, rfl, rfl, rfl, rfl⟩
    exact ⟨g.start_declared, g.rules_declared⟩
  · intro ⟨startDeclared, rulesDeclared⟩
    exact ⟨⟨nonterminals, terminals, rules, start, startDeclared, rulesDeclared⟩, rfl, rfl, rfl, rfl⟩

/-- A vocabulary contains the one that the rules give exactly if it declares the start and every symbol
of a rule. -/
theorem contains_ofRules_iff {listed : List Rule} :
    ((∀ n ∈ (ofRules start listed).nonterminals, n ∈ nonterminals) ∧
        ∀ t ∈ (ofRules start listed).terminals, t ∈ terminals) ↔
      start ∈ nonterminals ∧
        ∀ rule ∈ listed, ∀ s ∈ rule.symbols, s.Declared nonterminals terminals := by
  simp only [mem_nonterminals_ofRules, mem_terminals_ofRules]
  constructor
  · intro ⟨names, chars⟩
    constructor
    · exact names start (.inl rfl)
    · intro rule member s occurs
      cases s with
      | terminal t => exact chars t ⟨rule, member, occurs⟩
      | nonterminal n => exact names n (.inr ⟨rule, member, occurs⟩)
  · intro ⟨startDeclared, rulesDeclared⟩
    constructor
    · rintro n (rfl | ⟨rule, member, occurs⟩)
      · exact startDeclared
      · exact rulesDeclared rule member _ occurs
    · intro t ⟨rule, member, occurs⟩
      exact rulesDeclared rule member _ occurs

theorem passes (g : Grammar) : g.Passes := make_eq_ok_iff.2 ⟨rfl, rfl, rfl, rfl⟩

theorem isDerived_ofRules (start : NonTerminal) (listed : List Rule) :
    (ofRules start listed).IsDerived :=
  ofRules_congr fun _ => SortedSet.mem_toList.trans mem_rules_ofRules

theorem isDerived_of_read {text : Text} {g : Grammar} (result : read text = .ok g) :
    g.IsDerived := by
  obtain ⟨first, _, rules, _, _, rfl⟩ := read_eq_ok_iff.1 result
  exact isDerived_ofRules first.left rules.flatten

theorem isDerived_epsilonFree (g : Grammar) : g.epsilonFree.IsDerived := isDerived_ofRules _ _

/-- The vocabulary that the rules give is the least that passes. A check of another one succeeds exactly
if it contains this one, and gives a grammar with the given parts. It fails at the start if that is not
declared, and otherwise at the first symbol of a rule that is not. Every grammar that is made of rules,
read from a text or freed of empty rules passes, and has the vocabulary that its rules give. -/
theorem derived_vocabulary_is_least (start : NonTerminal) (rules : SortedSet Rule)
    (nonterminals : SortedSet NonTerminal) (terminals : SortedSet Terminal) :
    ((∃ g, make nonterminals terminals rules start = .ok g) ↔
        (∀ n ∈ (ofRules start rules.toList).nonterminals, n ∈ nonterminals) ∧
          ∀ t ∈ (ofRules start rules.toList).terminals, t ∈ terminals) ∧
      (∀ g, make nonterminals terminals rules start = .ok g →
        g.nonterminals = nonterminals ∧ g.terminals = terminals ∧ g.rules = rules ∧
          g.start = start) ∧
      (∀ cause, make nonterminals terminals rules start = .error cause ↔
        start ∉ nonterminals ∧ cause = .undeclaredStart start ∨
          start ∈ nonterminals ∧ ∃ s, cause = .undeclaredSymbol s ∧
            FirstWithout (Symbol.Declared nonterminals terminals) rules.toList s) ∧
      (∀ listed, (ofRules start listed).Passes ∧ (ofRules start listed).IsDerived) ∧
      (∀ text g, read text = .ok g → g.Passes ∧ g.IsDerived) ∧
      ∀ g : Grammar, g.epsilonFree.Passes ∧ g.epsilonFree.IsDerived := by
  have contains := @contains_ofRules_iff nonterminals terminals start rules.toList
  refine ⟨?_, fun g => make_eq_ok_iff.1, fun cause => make_eq_error_iff, fun listed => ?_,
    fun text g result => ?_, fun g => ?_⟩
  · rw [contains, exists_make_iff]
    rfl
  · exact ⟨passes _, isDerived_ofRules start listed⟩
  · exact ⟨passes g, isDerived_of_read result⟩
  · exact ⟨passes _, isDerived_epsilonFree g⟩

/-- A rule with two symbols that are not its left side. -/
def pairRule : Rule :=
  ⟨.named "S", [.terminal (.char 'a'), .nonterminal (.named "B")], by decide, by decide⟩

theorem read_pairRule : read "S -> aB".toList = .ok (ofRules (.named "S") [pairRule]) := by
  apply read_eq_ok_iff.2
  exact ⟨⟨1, .named "S", "aB".toList⟩, [], [[pairRule]], by decide, by decide, rfl⟩

theorem firstWithout_pairRule :
    FirstWithout (Symbol.Declared (.singleton (.named "S")) (.singleton (.char 'a'))) [pairRule]
      (.nonterminal (.named "B")) := by
  refine ⟨[], pairRule, [], rfl, by simp, [.nonterminal (.named "S"), .terminal (.char 'a')], [], rfl,
    ?_, ?_⟩
  · decide
  · decide

/-- Without the last symbol of its rule a vocabulary does not pass; with it, it does. -/
theorem derived_vocabulary_is_least_for_a_pair :
    make (.singleton (.named "S")) (.singleton (.char 'a')) (.singleton pairRule) (.named "S") =
        .error (.undeclaredSymbol (.nonterminal (.named "B"))) ∧
      (∃ g, make (.ofList [.named "S", .named "B"]) (.singleton (.char 'a')) (.singleton pairRule)
          (.named "S") =
        .ok g) ∧
      read "S -> aB".toList = .ok (ofRules (.named "S") [pairRule]) ∧
        (ofRules (.named "S") [pairRule]).Passes := by
  obtain ⟨_, _, fails, _, texts, _⟩ := derived_vocabulary_is_least (.named "S") (.singleton pairRule)
    (.singleton (.named "S")) (.singleton (.char 'a'))
  obtain ⟨succeeds, _⟩ := derived_vocabulary_is_least (.named "S") (.singleton pairRule)
    (.ofList [.named "S", .named "B"]) (.singleton (.char 'a'))
  refine ⟨(fails _).2 (.inr ⟨by decide, _, rfl, firstWithout_pairRule⟩), succeeds.2 ⟨?_, ?_⟩,
    read_pairRule, (texts _ _ read_pairRule).1⟩
  · decide
  · decide

end Grammar

end StrongLL
