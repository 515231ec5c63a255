import StrongLL.Derivation.Basic
import StrongLL.Grammar.EpsilonFree
import StrongLL.Recognizer.Error
import StrongLL.Search.Basic

/-!
# Top-down search

The search works on the grammar without empty rules. A state holds the pending symbols and the
unread input; it replaces the first pending symbol by the right sides of its rules in turn, or scans
a character. Every pending symbol derives at least one character, so a state with more of them than
unread characters is dead. A run of unit rules is cut when it is as long as there are unit rules: a
longer one would come back to a nonterminal and could be shortened. The empty input is answered from
the grammar with its empty rules.
-/

namespace StrongLL

set_option autoImplicit false

/-- A top-down search that is ready to run on inputs. -/
structure TopDown where
  grammar : Grammar
  unitLimit : Nat
  onEmpty : Option (List Rule)
  stepLimit : Option Nat
deriving DecidableEq

namespace TopDown

/-- The pending symbols, the unread input, the length of the run of unit rules that led here, and
the rules applied, the latest first. -/
structure State where
  pending : List Symbol
  rest : Text
  units : Nat
  applied : List Rule
deriving DecidableEq

/-- What can be done with the first pending symbol. -/
inductive Move where
  | scan
  | expand (rule : Rule)
deriving DecidableEq

inductive Memo where
  | scanned (c : Char) (units : Nat)
  | expanded (rule : Rule) (units : Nat)
deriving DecidableEq

/-- Nothing is pending and nothing is unread. -/
def State.accepted (state : State) : Bool := state.pending.isEmpty && state.rest.isEmpty

/-- The moves at a state: none at a dead one. -/
def moves (search : TopDown) (state : State) : List Move :=
  if state.rest.length < state.pending.length then []
  else
    match state.pending with
    | [] => []
    | .terminal _ :: _ => [.scan]
    | .nonterminal n :: _ => (search.grammar.rulesOf n).map .expand

def perform? (search : TopDown) (state : State) : Move → Option (State × Memo)
  | .scan =>
    match state.pending, state.rest with
    | .terminal (.char c) :: pending, found :: rest =>
      if c = found then
        some ({ state with pending, rest, units := 0 }, .scanned c state.units)
      else none
    | _, _ => none
  | .expand rule =>
    if rule.isUnit && search.unitLimit ≤ state.units then none
    else
      some
        ({ pending := rule.right ++ state.pending.tail
           rest := state.rest
           units := if rule.isUnit then state.units + 1 else 0
           applied := rule :: state.applied },
          .expanded rule state.units)

def undo (state : State) : Memo → State
  | .scanned c units =>
    { state with
      pending := .terminal (.char c) :: state.pending
      rest := c :: state.rest
      units }
  | .expanded rule units =>
    { pending := .nonterminal rule.left :: state.pending.drop rule.right.length
      rest := state.rest
      units
      applied := state.applied.tail }

def space (search : TopDown) : Space State Move Memo where
  accepted := State.accepted
  moves := search.moves
  perform? := search.perform?
  undo := undo

theorem restores_space (search : TopDown) : search.space.Restores := by
  intro state move offered next memo made
  obtain ⟨pending, rest, units, applied⟩ := state
  simp only [space, moves] at offered
  split at offered
  · exact absurd offered List.not_mem_nil
  · split at offered
    · exact absurd offered List.not_mem_nil
    · next t more _ =>
      cases List.mem_singleton.1 offered
      simp only [space, perform?] at made
      split at made
      · next c below found unread pendingSame restSame =>
        split at made
        · next matched =>
          cases made
          simp_all [space, undo]
        · exact nomatch made
      · exact nomatch made
    · next n more _ =>
      obtain ⟨rule, member, rfl⟩ := List.mem_map.1 offered
      have left := (Grammar.mem_rulesOf.1 member).2
      simp only [space, perform?] at made
      split at made
      · exact nomatch made
      · cases made
        simp [space, undo, left]

def initial (search : TopDown) (input : Text) : State :=
  ⟨[.nonterminal search.grammar.start], input, 0, []⟩

/-- More visits than any search takes on an input of the given length. A path applies fewer than
`3 * length` moves that are no unit rules, each followed by a run of units, and at each state there
is a scan or no more moves than rules. -/
def visitBound (search : TopDown) (length : Nat) : Nat :=
  Nat.pow (search.grammar.rules.size + 2) (3 * length * (search.unitLimit + 1) + 1)

def ofGrammar (g : Grammar) (stepLimit : Option Nat) : TopDown where
  grammar := g.epsilonFree
  unitLimit := g.epsilonFree.unitCount
  onEmpty := g.nullDerivation g.start
  stepLimit := stepLimit

/-- The first leftmost derivation of an input in the order of the rules. -/
def parse (search : TopDown) (input : Text) : Except ParseError Derivation :=
  if input.isEmpty then
    match search.onEmpty with
    | some rules => .ok ⟨.leftmost, rules⟩
    | none => .error .noDerivation
  else
    let visits := search.stepLimit.getD (search.visitBound input.length)
    match search.space.search visits (search.initial input) [] with
    | .found state => .ok ⟨.leftmost, state.applied.reverse⟩
    | .exhausted _ => .error .noDerivation
    | .cut => .error (.stepLimitExceeded visits)

end TopDown

end StrongLL
