import StrongLL.Derivation.Basic
import StrongLL.Grammar.EpsilonFree
import StrongLL.Lookahead.Follow
import StrongLL.Recognizer.Error
import StrongLL.Search.Basic

/-!
# Bottom-up search

The search works on the grammar without empty rules. A state holds a stack of symbols, the last one
first, and the unread input. It replaces a right side that ends the stack by its left side, for each
rule in turn, and then shifts a character. A reduction needs the next character, or the end of the
input, among what follows its left side, and a run of unit reductions is cut when it is as long as
there are unit rules. The reductions, read backwards, are a rightmost derivation. The empty input is
answered from the grammar with its empty rules.
-/

namespace StrongLL

set_option autoImplicit false

/-- A bottom-up search that is ready to run on inputs. -/
structure BottomUp where
  grammar : Grammar
  follow : KnownSets
  unitLimit : Nat
  onEmpty : Option (List Rule)
  stepLimit : Option Nat
deriving DecidableEq

namespace BottomUp

/-- The stack, the unread input, the length of the run of unit reductions that led here, and the
reductions, the latest first. -/
structure State where
  stack : List Symbol
  rest : Text
  units : Nat
  reductions : List Rule
deriving DecidableEq

inductive Move where
  | reduce (rule : Rule)
  | shift
deriving DecidableEq

inductive Memo where
  | reduced (rule : Rule) (units : Nat)
  | shifted (c : Char) (units : Nat)
deriving DecidableEq

/-- The input is read and the stack holds the start symbol alone. -/
def accepted (search : BottomUp) (state : State) : Bool :=
  state.rest.isEmpty && state.stack == [.nonterminal search.grammar.start]

/-- All moves, in the order in which they are tried at every state. -/
def moves (search : BottomUp) : List Move := search.grammar.rules.toList.map .reduce ++ [.shift]

/-- What is below the handle when it is on top of the stack. -/
def below? : List Symbol → List Symbol → Option (List Symbol)
  | [], stack => some stack
  | _ :: _, [] => none
  | s :: handle, top :: stack => if s = top then below? handle stack else none

/-- The tuple of the next character. -/
def upcoming (rest : Text) : Tuple :=
  match rest with
  | [] => .epsilon
  | c :: _ => [.char c]

/-- The unread input may follow the nonterminal. -/
def mayFollow (search : BottomUp) (n : NonTerminal) (rest : Text) : Bool :=
  (search.follow.get? n).any fun set => set.contains (upcoming rest)

def perform? (search : BottomUp) (state : State) : Move → Option (State × Memo)
  | .reduce rule =>
    match below? rule.right.reverse state.stack with
    | none => none
    | some below =>
      if rule.isUnit && search.unitLimit ≤ state.units then none
      else if search.mayFollow rule.left state.rest then
        some
          ({ stack := .nonterminal rule.left :: below
             rest := state.rest
             units := if rule.isUnit then state.units + 1 else 0
             reductions := rule :: state.reductions },
            .reduced rule state.units)
      else none
  | .shift =>
    match state.rest with
    | [] => none
    | c :: rest =>
      some
        ({ state with stack := .terminal (.char c) :: state.stack, rest, units := 0 },
          .shifted c state.units)

def undo (state : State) : Memo → State
  | .reduced rule units =>
    { stack := rule.right.reverse ++ state.stack.tail
      rest := state.rest
      units
      reductions := state.reductions.tail }
  | .shifted c units => { state with stack := state.stack.tail, rest := c :: state.rest, units }

def space (search : BottomUp) : Space State Move Memo :=
  let moves := search.moves
  { accepted := search.accepted
    moves := fun _ => moves
    perform? := search.perform?
    undo := undo }

theorem below?_eq_some {handle stack below : List Symbol}
    (found : below? handle stack = some below) : stack = handle ++ below := by
  induction handle generalizing stack with
  | nil => simpa [below?] using found
  | cons s handle induction =>
    cases stack with
    | nil => exact nomatch found
    | cons top stack =>
      simp only [below?] at found
      split at found
      · next same => rw [same, List.cons_append, ← induction found]
      · exact nomatch found

theorem restores_space (search : BottomUp) : search.space.Restores := by
  intro state move _ next memo made
  obtain ⟨stack, rest, units, reductions⟩ := state
  cases move with
  | reduce rule =>
    simp only [space, perform?] at made
    split at made
    · exact nomatch made
    · next below found =>
      split at made
      · exact nomatch made
      · split at made
        · cases made
          simp [space, undo, below?_eq_some found]
        · exact nomatch made
  | shift =>
    simp only [space, perform?] at made
    split at made
    · exact nomatch made
    · next c unread restSame =>
      cases made
      simp only [space, undo, List.tail_cons]

def initial (input : Text) : State := ⟨[], input, 0, []⟩

/-- More visits than any search takes on an input of the given length. A path makes fewer than
`3 * length` moves that are no unit reductions, each followed by a run of units, and at each state
there is one move more than there are rules. -/
def visitBound (search : BottomUp) (length : Nat) : Nat :=
  Nat.pow (search.grammar.rules.size + 2)
    (3 * length * (search.unitLimit + 1) + search.unitLimit + 1)

def ofGrammar (g : Grammar) (stepLimit : Option Nat) : BottomUp where
  grammar := g.epsilonFree
  follow := g.epsilonFree.follow 1
  unitLimit := g.epsilonFree.unitCount
  onEmpty := g.nullDerivation g.start
  stepLimit := stepLimit

/-- The first rightmost derivation of an input in the order of the moves. -/
def parse (search : BottomUp) (input : Text) : Except ParseError Derivation :=
  if input.isEmpty then
    match search.onEmpty with
    | some rules => .ok ⟨.leftmost, rules⟩
    | none => .error .noDerivation
  else
    let visits := search.stepLimit.getD (search.visitBound input.length)
    match search.space.search visits (initial input) [] with
    | .found state => .ok ⟨.rightmost, state.reductions⟩
    | .exhausted _ => .error .noDerivation
    | .cut => .error (.stepLimitExceeded visits)

end BottomUp

end StrongLL
