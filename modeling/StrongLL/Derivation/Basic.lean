import StrongLL.Derivation.RuleOrder

/-!
# Derivations

A derivation is a sequence of rules that are applied to the start symbol one after another, always
at the first nonterminal of the sentential form or always at the last. Replaying it tells the word
that it derives, or the first step that cannot be taken. Steps are counted from zero.
-/

namespace StrongLL

set_option autoImplicit false

/-- Which nonterminal of a sentential form a step replaces. -/
inductive DerivationOrder where
  | leftmost
  | rightmost
deriving DecidableEq

def DerivationOrder.name : DerivationOrder → String
  | .leftmost => "leftmost"
  | .rightmost => "rightmost"

/-- Rules to apply in turn. -/
structure Derivation where
  order : DerivationOrder
  rules : List Rule
deriving DecidableEq

/-- A sequence of symbols on the way from the start symbol to a word. -/
abbrev SententialForm := List Symbol

/-- Why a derivation derives no word. -/
inductive ReplayError where
  | unknownRule (step index : Nat)
  | noNonTerminal (step : Nat)
  | wrongNonTerminal (step : Nat) (rule : Rule) (found : NonTerminal)
  | incomplete (form : SententialForm)
deriving DecidableEq

def ReplayError.message : ReplayError → String
  | .unknownRule step index =>
    s!"step {step}: rule index {index} is not part of the rule ordering"
  | .noNonTerminal step => s!"step {step}: no nonterminal left to replace"
  | .wrongNonTerminal step rule found =>
    s!"step {step}: rule {rule.display.string} cannot replace {found.display.string}"
  | .incomplete form =>
    s!"derivation stops at {(Symbol.displayAll form).string}, which still has nonterminals"

/-- A nonterminal of a sentential form with the symbols before and behind it. -/
structure Focus where
  before : SententialForm
  found : NonTerminal
  behind : SententialForm
deriving DecidableEq

namespace Focus

def leftmost? : SententialForm → Option Focus
  | [] => none
  | .nonterminal n :: rest => some ⟨[], n, rest⟩
  | .terminal t :: rest =>
    (leftmost? rest).map fun focus => { focus with before := .terminal t :: focus.before }

def rightmost? : SententialForm → Option Focus
  | [] => none
  | s :: rest =>
    match rightmost? rest, s with
    | some focus, _ => some { focus with before := s :: focus.before }
    | none, .nonterminal n => some ⟨[], n, rest⟩
    | none, .terminal _ => none

def replace (focus : Focus) (body : List Symbol) : SententialForm :=
  focus.before ++ body ++ focus.behind

end Focus

namespace DerivationOrder

def focus? : DerivationOrder → SententialForm → Option Focus
  | leftmost => Focus.leftmost?
  | rightmost => Focus.rightmost?

/-- The form after the given step, which applies `rule`. -/
def apply (order : DerivationOrder) (step : Nat) (rule : Rule) (form : SententialForm) :
    Except ReplayError SententialForm :=
  match order.focus? form with
  | none => .error (.noNonTerminal step)
  | some focus =>
    if focus.found = rule.left then .ok (focus.replace rule.body)
    else .error (.wrongNonTerminal step rule focus.found)

/-- The form that is reached when rules are applied from the given step on. -/
def reach (order : DerivationOrder) (step : Nat) (form : SententialForm) :
    List Rule → Except ReplayError SententialForm
  | [] => .ok form
  | rule :: rest =>
    match order.apply step rule form with
    | .ok next => order.reach (step + 1) next rest
    | .error cause => .error cause

/-- The forms that are passed when rules are applied from the given step on, the first included. -/
def trace (order : DerivationOrder) (step : Nat) (form : SententialForm) :
    List Rule → Except ReplayError (List SententialForm)
  | [] => .ok [form]
  | rule :: rest =>
    match order.apply step rule form with
    | .ok next => (order.trace (step + 1) next rest).map (form :: ·)
    | .error cause => .error cause

end DerivationOrder

namespace Derivation

/-- The terminals that the derivation derives from a start symbol. -/
def replay (derivation : Derivation) (start : NonTerminal) : Except ReplayError (List Terminal) :=
  match derivation.order.reach 0 [.nonterminal start] derivation.rules with
  | .ok form =>
    if form.any Symbol.isNonTerminal then .error (.incomplete form)
    else .ok (form.filterMap Symbol.terminal?)
  | .error cause => .error cause

/-- Every sentential form from the start symbol on. -/
def sententialForms (derivation : Derivation) (start : NonTerminal) :
    Except ReplayError (List SententialForm) :=
  derivation.order.trace 0 [.nonterminal start] derivation.rules

/-- The numbers of the rules, if all of them have one. -/
def indices? (derivation : Derivation) (order : RuleOrder) : Option (List Nat) :=
  derivation.rules.mapM order.indexOf?

end Derivation

namespace RuleOrder

/-- The rules with the given numbers, from the given step on. -/
def rules? (order : RuleOrder) (step : Nat) : List Nat → Except ReplayError (List Rule)
  | [] => .ok []
  | index :: rest =>
    match order.rule? index with
    | some rule => (order.rules? (step + 1) rest).map (rule :: ·)
    | none => .error (.unknownRule step index)

/-- The terminals that a leftmost derivation given by rule numbers derives. Every number is looked
up before any rule is applied. -/
def replay (order : RuleOrder) (sequence : List Nat) : Except ReplayError (List Terminal) :=
  match order.rules? 0 sequence with
  | .ok rules => (Derivation.mk .leftmost rules).replay order.start
  | .error cause => .error cause

end RuleOrder

end StrongLL
