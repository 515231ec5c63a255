import StrongLL.Derivation.RuleOrder
import StrongLL.Lookahead.Follow

/-!
# Strong LL(k) tables

For each nonterminal, a table tells by the next tuple which rule to apply. The tuples of a rule are
what its right side begins with, followed by what follows its left side. When two rules of one
nonterminal share a tuple there is no table; the conflict that is reported is at the earliest rule
that meets an earlier one, and there at the least tuple.
-/

namespace StrongLL

set_option autoImplicit false

/-- The rule numbers of one nonterminal by tuple. -/
abbrev Row := SortedMap Tuple Nat

/-- The rows of a table by nonterminal. -/
abbrev Rows := SortedMap NonTerminal Row

/-- A parse table for tuples of at most `k` terminals. Its cells hold numbers of `order`. -/
structure Table where
  k : Nat
  order : RuleOrder
  rows : Rows
deriving DecidableEq

/-- Two rules of a nonterminal that one tuple does not tell apart. -/
structure Conflict where
  k : Nat
  nonterminal : NonTerminal
  lookahead : Tuple
  first : Rule
  second : Rule
deriving DecidableEq

inductive TableError where
  | zeroLookahead
  | conflict (found : Conflict)
deriving DecidableEq

def TableError.message : TableError → String
  | .zeroLookahead => "lookahead length must be at least 1"
  | .conflict found =>
    s!"grammar is not strong LL({found.k}): {found.nonterminal.display.string} has both " ++
      s!"{found.first.display.string} and {found.second.display.string} " ++
      s!"for lookahead {(Tuple.display found.lookahead).string}"

/-- The tuples that select a rule: those of its right side, followed by those of its left side. A rule
that is not selectable has none, because in no sentential form its body and the symbols behind it derive
a word. The symbols before it are not asked for anything. -/
def ruleLookahead (k : Nat) (first follow : KnownSets) (rule : Rule) : Option TupleSet :=
  match firstOfSequence k first rule.right, follow.get? rule.left with
  | some body, some trailer => some (body.concat k trailer)
  | _, _ => none

namespace Row

/-- The first of the tuples that has a cell already, with the number in it. -/
def taken? (row : Row) (tuples : TupleSet) : Option (Tuple × Nat) :=
  tuples.toList.findSome? fun tuple => (row.get? tuple).map fun index => (tuple, index)

/-- The row with a number in the cells of the tuples. -/
def fill (row : Row) (tuples : TupleSet) (index : Nat) : Row :=
  tuples.toList.foldl (fun row tuple => row.insert tuple index) row

end Row

namespace Rows

/-- The row of a nonterminal, without cells where there is none. -/
def row (rows : Rows) (n : NonTerminal) : Row := (rows.get? n).getD ∅

/-- Enters a rule under its tuples. On a conflict the number of the rule that was there first is
given with the tuple. -/
def enter (rows : Rows) (rule : Rule) (index : Nat) (tuples : TupleSet) :
    Except (Tuple × Nat) Rows :=
  match (rows.row rule.left).taken? tuples with
  | some taken => .error taken
  | none => .ok (rows.insert rule.left ((rows.row rule.left).fill tuples index))

end Rows

namespace Table

def get? (table : Table) (n : NonTerminal) (tuple : Tuple) : Option Nat :=
  (table.rows.get? n).bind (·.get? tuple)

def ruleFor? (table : Table) (n : NonTerminal) (tuple : Tuple) : Option Rule :=
  (table.get? n tuple).bind table.order.rule?

end Table

namespace Grammar

/-- Enters numbered rules one after another. -/
def fillRows (g : Grammar) (k : Nat) (lookahead : Rule → Option TupleSet) :
    List (Rule × Nat) → Rows → Except TableError Rows
  | [], rows => .ok rows
  | (rule, index) :: rest, rows =>
    match lookahead rule with
    | none => g.fillRows k lookahead rest rows
    | some tuples =>
      match rows.enter rule index tuples with
      | .ok rows => g.fillRows k lookahead rest rows
      | .error (tuple, other) =>
        let earlier := ((RuleOrder.ofGrammar g).rule? other).getD rule
        .error (.conflict ⟨k, rule.left, tuple, earlier, rule⟩)

/-- The strong LL(k) table of a grammar, with a row for every nonterminal. -/
def table (g : Grammar) (k : Nat) : Except TableError Table :=
  if k = 0 then .error .zeroLookahead
  else
    let first := g.first k
    let follow := g.followFrom first k
    let order := RuleOrder.ofGrammar g
    (g.fillRows k (ruleLookahead k first follow) order.numbered (.const ∅ g.nonterminals)).map
      (Table.mk k order)

/-- The first table among the given number of lookahead lengths from `k` on. -/
def tableFrom? (g : Grammar) (k : Nat) : Nat → Option Table
  | 0 => none
  | tries + 1 =>
    match g.table k with
    | .ok table => some table
    | .error _ => g.tableFrom? (k + 1) tries

/-- The table with the least lookahead length from one to `limit`. -/
def smallestTable? (g : Grammar) (limit : Nat) : Option Table := g.tableFrom? 1 limit

end Grammar

end StrongLL
