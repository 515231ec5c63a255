import StrongLL.Order.SortedSet
import StrongLL.Symbol.Order

/-!
# Rules

A rule replaces a nonterminal by a sequence of symbols. The sequence is never empty: the rule that
produces nothing is written with the empty word as its only symbol, and the empty word stands
nowhere else. Rules are ordered by the left side, then by the right side symbol by symbol.
-/

namespace StrongLL

set_option autoImplicit false

open Std

/-- A nonterminal and what may replace it. -/
structure Rule where
  left : NonTerminal
  right : List Symbol
  right_ne_nil : right ≠ []
  epsilon_alone : 1 < right.length → Symbol.terminal .epsilon ∉ right
deriving DecidableEq

/-- Why a left and a right side make no rule. -/
inductive RuleError where
  | emptyRightSide (left : NonTerminal)
  | misplacedEpsilon (left : NonTerminal)
deriving DecidableEq

def RuleError.message : RuleError → String
  | .emptyRightSide left => s!"a rule of {left.display.string} has an empty right side"
  | .misplacedEpsilon left =>
    s!"a rule of {left.display.string} uses eps next to other symbols"

namespace Rule

theorem ext {first second : Rule} (left : first.left = second.left)
    (right : first.right = second.right) : first = second := by
  cases first
  cases second
  simp_all

def make (left : NonTerminal) (right : List Symbol) : Except RuleError Rule :=
  if empty : right = [] then .error (.emptyRightSide left)
  else if misplaced : 1 < right.length ∧ Symbol.terminal .epsilon ∈ right then
    .error (.misplacedEpsilon left)
  else .ok ⟨left, right, empty, fun long member => misplaced ⟨long, member⟩⟩

def epsilon (left : NonTerminal) : Rule where
  left := left
  right := [.terminal .epsilon]
  right_ne_nil := by simp
  epsilon_alone := by simp

def isEpsilon (rule : Rule) : Bool := rule.right == [.terminal .epsilon]

/-- The symbols that the rule produces: none for the empty word. -/
def body (rule : Rule) : List Symbol := if rule.isEpsilon then [] else rule.right

def isUnit (rule : Rule) : Bool :=
  match rule.right with
  | [.nonterminal _] => true
  | _ => false

def symbols (rule : Rule) : List Symbol := .nonterminal rule.left :: rule.right

def display (rule : Rule) : Text :=
  rule.left.display ++ " -> ".toList ++ Symbol.displayAll rule.right

theorem make_left_right (rule : Rule) : make rule.left rule.right = .ok rule := by
  have fits : ¬(1 < rule.right.length ∧ Symbol.terminal .epsilon ∈ rule.right) :=
    fun both => rule.epsilon_alone both.1 both.2
  simp [make, rule.right_ne_nil, fits]

theorem epsilon_not_mem_body (rule : Rule) : Symbol.terminal .epsilon ∉ rule.body := by
  intro member
  unfold body at member
  split at member
  · exact absurd member List.not_mem_nil
  · next other =>
    rcases Nat.lt_or_ge 1 rule.right.length with long | short
    · exact rule.epsilon_alone long member
    · obtain ⟨only, single⟩ : ∃ s, rule.right = [s] := by
        have := List.length_pos_iff.2 rule.right_ne_nil
        exact List.length_eq_one_iff.1 (by omega)
      rw [single, List.mem_singleton] at member
      exact other (by simp [isEpsilon, single, member])

theorem epsilon_not_mem_replaced (rule : Rule) (before : List Symbol) {s : Symbol}
    {behind : List Symbol} (plain : Symbol.terminal .epsilon ∉ before ++ s :: behind) :
    Symbol.terminal .epsilon ∉ before ++ rule.body ++ behind := by
  simp only [List.mem_append, List.mem_cons, not_or] at plain ⊢
  exact ⟨⟨plain.1, rule.epsilon_not_mem_body⟩, plain.2.2⟩

def compare (first second : Rule) : Ordering :=
  compareLex (compareOn Rule.left) (compareOn Rule.right) first second

instance : Ord Rule := ⟨Rule.compare⟩

instance : TransOrd Rule :=
  inferInstanceAs (TransCmp (compareLex (compareOn Rule.left) (compareOn Rule.right)))

instance : LawfulEqOrd Rule where
  eq_of_compare {first second} equal := by
    have both : (Ord.compare first.left second.left).then
        (Ord.compare first.right second.right) = .eq := equal
    rw [Ordering.then_eq_eq] at both
    exact ext (LawfulEqOrd.eq_of_compare (α := NonTerminal) both.1)
      (LawfulEqOrd.eq_of_compare (α := List Symbol) both.2)

end Rule

end StrongLL
