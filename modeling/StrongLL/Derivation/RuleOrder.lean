import StrongLL.Grammar.Basic

/-!
# The numbering of rules

The rules of a grammar are numbered from zero in their order, so a number means the same rule in any
grammar with the same rules.
-/

namespace StrongLL

set_option autoImplicit false

/-- A start symbol and the numbered rules. -/
structure RuleOrder where
  start : NonTerminal
  rules : SortedSet Rule
deriving DecidableEq

namespace RuleOrder

def ofGrammar (g : Grammar) : RuleOrder := ⟨g.start, g.rules⟩

def rule? (order : RuleOrder) (index : Nat) : Option Rule := order.rules.toList[index]?

def indexOf? (order : RuleOrder) (rule : Rule) : Option Nat := order.rules.toList.idxOf? rule

def size (order : RuleOrder) : Nat := order.rules.size

def numbered (order : RuleOrder) : List (Rule × Nat) := order.rules.toList.zipIdx

end RuleOrder

end StrongLL
