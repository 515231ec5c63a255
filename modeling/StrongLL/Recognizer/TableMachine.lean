import StrongLL.Derivation.Basic
import StrongLL.Recognizer.Error
import StrongLL.Table.Basic

/-!
# The table machine

The machine keeps a stack of symbols, the next one first. A nonterminal on top is replaced by the
body of the rule that its row selects for the unread input; a character on top is matched with the
input. Between two characters the unread input does not change, so a nonterminal that came back
inside its own expansion would come back for ever: in a table without such cycles the expansions
between two characters are no more than a full tree over the rows, which bounds the machine.
-/

namespace StrongLL

set_option autoImplicit false

structure AppliedRule where
  index : Nat
  rule : Rule
deriving DecidableEq

/-- What expansion leads to: the rules applied, and the character on top of the stack with the
symbols below it, or nothing when the stack is empty. -/
structure Pause where
  applied : List AppliedRule
  expected : Option (Char × List Symbol)
deriving DecidableEq

namespace Table

/-- The tuple of the first unread characters. -/
def upcoming (table : Table) (input : Text) : Tuple :=
  Tuple.ofWord ((input.take table.k).map .char)

def select? (table : Table) (n : NonTerminal) (lookahead : Tuple) : Option AppliedRule :=
  (table.get? n lookahead).bind fun index =>
    (table.order.rule? index).map fun rule => ⟨index, rule⟩

def widest (table : Table) : Nat :=
  (table.order.rules.toList.map (·.body.length)).foldl max 0

/-- More expansions than a table without cycles needs before the next character of the input. -/
def patience (table : Table) (stack : List Symbol) : Nat :=
  stack.length * Nat.pow (table.widest + 1) (table.rows.keys.length + 1) + 1

/-- Expands nonterminals until a character is on top of the stack. When the steps do not suffice the
expansion goes round in a cycle, and the machine has no derivation of any input. -/
def expand (table : Table) (position : Nat) (lookahead : Tuple) :
    Nat → List Symbol → Except ParseError Pause
  | _, [] => .ok ⟨[], none⟩
  | _, .terminal (.char c) :: stack => .ok ⟨[], some (c, stack)⟩
  | 0, _ => .error .noDerivation
  | steps + 1, .terminal .epsilon :: stack => table.expand position lookahead steps stack
  | steps + 1, .nonterminal n :: stack =>
    match table.select? n lookahead with
    | none => .error (.unrecognizedLookahead position n lookahead)
    | some selected =>
      (table.expand position lookahead steps (selected.rule.body ++ stack)).map fun pause =>
        { pause with applied := selected :: pause.applied }

/-- Expands the stack before the unread input. -/
def settle (table : Table) (position : Nat) (stack : List Symbol) (input : Text) :
    Except ParseError Pause :=
  table.expand position (table.upcoming input) (table.patience stack) stack

/-- Runs the machine from a position, with a stack, on the unread input. -/
def run (table : Table) (position : Nat) (stack : List Symbol) :
    Text → Except ParseError (List AppliedRule)
  | [] =>
    match table.settle position stack [] with
    | .error cause => .error cause
    | .ok ⟨applied, none⟩ => .ok applied
    | .ok ⟨_, some (c, _)⟩ => .error (.unexpectedEnd position (.char c))
  | found :: rest =>
    match table.settle position stack (found :: rest) with
    | .error cause => .error cause
    | .ok ⟨_, none⟩ => .error (.trailingInput position)
    | .ok ⟨applied, some (c, below)⟩ =>
      if c = found then (table.run (position + 1) below rest).map (applied ++ ·)
      else .error (.mismatch position (.char c) found)

/-- The rules of the leftmost derivation of an input from a start symbol. -/
def parse (table : Table) (start : NonTerminal) (input : Text) :
    Except ParseError (List AppliedRule) :=
  table.run 0 [.nonterminal start] input

/-- The numbers of the rules of the leftmost derivation of an input. -/
def parseIndices (table : Table) (start : NonTerminal) (input : Text) :
    Except ParseError (List Nat) :=
  (table.parse start input).map fun applied => applied.map (·.index)

def parseDerivation (table : Table) (start : NonTerminal) (input : Text) :
    Except ParseError Derivation :=
  (table.parse start input).map fun applied => ⟨.leftmost, applied.map (·.rule)⟩

end Table

end StrongLL
