import StrongLL.Grammar.Basic

/-!
# Nullable nonterminals

A nonterminal is nullable when it derives the empty word. The rules are swept in order until a sweep
proves nothing new; the rule that first proved a nonterminal is its witness. The witnesses are
listed with the latest first, so every nonterminal in the body of a witness has its own witness
later in the list, and a derivation of the empty word is read off by recursion on the list.
-/

namespace StrongLL

set_option autoImplicit false

/-- Rules that prove their left sides nullable, the latest first. -/
abbrev Witnesses := List Rule

namespace Witnesses

def proves (witnesses : Witnesses) (n : NonTerminal) : Bool := witnesses.any (·.left == n)

/-- The rule shows that its left side is nullable, given what is proved already. -/
def supports (witnesses : Witnesses) (rule : Rule) : Bool :=
  rule.body.all fun s => s.nonterminal?.any witnesses.proves

/-- Takes a rule as the witness of its left side where there is none yet. -/
def consider (witnesses : Witnesses) (rule : Rule) : Witnesses :=
  if !witnesses.proves rule.left && witnesses.supports rule then rule :: witnesses else witnesses

/-- Sweeps the rules until nothing new is proved, at most `sweeps` times. -/
def complete (rules : List Rule) : Nat → Witnesses → Witnesses
  | 0, witnesses => witnesses
  | sweeps + 1, witnesses =>
    let next := rules.foldl consider witnesses
    if next.length = witnesses.length then witnesses else complete rules sweeps next

/-- The rules of a leftmost derivation that turns a nullable nonterminal into the empty word. -/
def derivation? : Witnesses → NonTerminal → Option (List Rule)
  | [], _ => none
  | rule :: earlier, n =>
    if rule.left = n then
      ((rule.body.filterMap Symbol.nonterminal?).mapM (derivation? earlier)).map
        fun parts => rule :: parts.flatten
    else derivation? earlier n

end Witnesses

namespace Grammar

/-- The witnesses of the nullable nonterminals. Each sweep but the last proves a further left side,
so as many sweeps as there are rules suffice. -/
def witnesses (g : Grammar) : Witnesses :=
  Witnesses.complete g.rules.toList g.rules.size []

/-- The nonterminals that derive the empty word. -/
def nullable (g : Grammar) : SortedSet NonTerminal := .ofList (g.witnesses.map Rule.left)

def isNullable (g : Grammar) (n : NonTerminal) : Bool := g.witnesses.proves n

/-- A leftmost derivation of the empty word from a nonterminal, if there is one. -/
def nullDerivation (g : Grammar) (n : NonTerminal) : Option (List Rule) :=
  g.witnesses.derivation? n

end Grammar

end StrongLL
