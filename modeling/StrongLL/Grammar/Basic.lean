import StrongLL.Rule

/-!
# Grammars

A grammar is a start symbol and a set of rules over a declared vocabulary: its type holds that the
start and every symbol of a rule are declared. A vocabulary is either given and checked, or taken to
be what the rules and the start mention.
-/

namespace StrongLL

set_option autoImplicit false

/-- A symbol of the vocabulary of the given nonterminals and terminals. -/
def Symbol.Declared (nonterminals : SortedSet NonTerminal) (terminals : SortedSet Terminal) :
    Symbol → Prop
  | .terminal t => t ∈ terminals
  | .nonterminal n => n ∈ nonterminals

instance (nonterminals : SortedSet NonTerminal) (terminals : SortedSet Terminal) :
    DecidablePred (Symbol.Declared nonterminals terminals)
  | .terminal t => inferInstanceAs (Decidable (t ∈ terminals))
  | .nonterminal n => inferInstanceAs (Decidable (n ∈ nonterminals))

/-- Rules over a vocabulary, with a start symbol. -/
structure Grammar where
  nonterminals : SortedSet NonTerminal
  terminals : SortedSet Terminal
  rules : SortedSet Rule
  start : NonTerminal
  start_declared : start ∈ nonterminals
  rules_declared : ∀ rule ∈ rules, ∀ s ∈ rule.symbols, s.Declared nonterminals terminals
deriving DecidableEq

/-- What a declared vocabulary lacks. -/
inductive VocabularyError where
  | undeclaredStart (start : NonTerminal)
  | undeclaredSymbol (symbol : Symbol)
deriving DecidableEq

def VocabularyError.message : VocabularyError → String
  | .undeclaredStart start =>
    s!"start symbol {start.display.string} is not a nonterminal of the grammar"
  | .undeclaredSymbol symbol =>
    s!"'{symbol.display.string}' appears in a rule but is not part of the vocabulary"

namespace Grammar

/-- The grammar over a given vocabulary. The start is looked up first, then the symbols of the rules
in their order, each rule from the left side to the end of the right side. -/
def make (nonterminals : SortedSet NonTerminal) (terminals : SortedSet Terminal)
    (rules : SortedSet Rule) (start : NonTerminal) : Except VocabularyError Grammar :=
  if declared : start ∈ nonterminals then
    match missing : (rules.toList.flatMap Rule.symbols).find? fun s =>
        ¬s.Declared nonterminals terminals with
    | some symbol => .error (.undeclaredSymbol symbol)
    | none =>
      .ok
        { nonterminals, terminals, rules, start
          start_declared := declared
          rules_declared := fun rule member s occurs => by
            have found := List.find?_eq_none.1 missing s
              (List.mem_flatMap.2 ⟨rule, member, occurs⟩)
            simpa using found }
  else .error (.undeclaredStart start)

/-- The grammar whose vocabulary is what the rules and the start mention. -/
def ofRules (start : NonTerminal) (rules : List Rule) : Grammar where
  nonterminals := .ofList (start :: (rules.flatMap Rule.symbols).filterMap Symbol.nonterminal?)
  terminals := .ofList ((rules.flatMap Rule.symbols).filterMap Symbol.terminal?)
  rules := .ofList rules
  start := start
  start_declared := by simp
  rules_declared := by
    intro rule member s occurs
    have occurrence : s ∈ rules.flatMap Rule.symbols :=
      List.mem_flatMap.2 ⟨rule, SortedSet.mem_ofList.1 member, occurs⟩
    cases s with
    | terminal t =>
      exact SortedSet.mem_ofList.2 (List.mem_filterMap.2 ⟨_, occurrence, rfl⟩)
    | nonterminal n =>
      exact SortedSet.mem_ofList.2
        (List.mem_cons_of_mem start (List.mem_filterMap.2 ⟨_, occurrence, rfl⟩))

def vocabulary (g : Grammar) : SortedSet Symbol :=
  .ofList (g.terminals.toList.map .terminal ++ g.nonterminals.toList.map .nonterminal)

def rulesOf (g : Grammar) (n : NonTerminal) : List Rule :=
  g.rules.toList.filter fun rule => rule.left == n

/-- The nonterminals that have rules, in order, with their rules. -/
def rulesByLeft (g : Grammar) : List (NonTerminal × List Rule) :=
  (g.nonterminals.toList.map fun n => (n, g.rulesOf n)).filter fun entry => !entry.2.isEmpty

def unitCount (g : Grammar) : Nat := g.rules.toList.countP Rule.isUnit

theorem mem_rulesOf {g : Grammar} {n : NonTerminal} {rule : Rule} :
    rule ∈ g.rulesOf n ↔ rule ∈ g.rules ∧ rule.left = n := by
  simp [rulesOf, SortedSet.mem_toList]

end Grammar

end StrongLL
