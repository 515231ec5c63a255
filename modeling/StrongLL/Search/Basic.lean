/-!
# Depth-first search

A search walks over the states of a space along a path that it keeps on a stack of branches. There
is one working state: a move changes it and leaves a memo of what it changed, and when the moves of
a state are used up the memo takes the state back to where the move was made. Every state that is
entered counts as a visit, and a search may be cut after a number of visits. The main statement of
the space is that taking a move back restores the state.
-/

namespace StrongLL

set_option autoImplicit false

/-- States with their moves, tried in order. -/
structure Space (State Move Memo : Type) where
  accepted : State → Bool
  moves : State → List Move
  perform? : State → Move → Option (State × Memo)
  undo : State → Memo → State

/-- A move on the path of a search: how to take it back, and what to try then. -/
structure Branch (Move Memo : Type) where
  memo : Memo
  untried : List Move

/-- How a search ends: at an accepted state, back at its start, or cut. -/
inductive Verdict (State : Type) where
  | found (state : State)
  | exhausted (state : State)
  | cut

/-- Where a search goes when a state has no more moves: to a state on another path, or nowhere when
it is back at its start. -/
inductive Retreat (State Move Memo : Type) where
  | entered (state : State) (trail : List (Branch Move Memo))
  | exhausted (state : State)

namespace Space

variable {State Move Memo : Type}

/-- Makes the first move that can be made. -/
def advance? (space : Space State Move Memo) (state : State) :
    List Move → Option (State × Branch Move Memo)
  | [] => none
  | move :: untried =>
    match space.perform? state move with
    | some (next, memo) => some (next, ⟨memo, untried⟩)
    | none => space.advance? state untried

/-- Takes moves back until another one can be made. -/
def retreat (space : Space State Move Memo) (state : State) :
    List (Branch Move Memo) → Retreat State Move Memo
  | [] => .exhausted state
  | branch :: trail =>
    let before := space.undo state branch.memo
    match space.advance? before branch.untried with
    | some (next, other) => .entered next (other :: trail)
    | none => space.retreat before trail

/-- Searches on from a state that is reached along a path, for a number of visits at most. -/
def search (space : Space State Move Memo) :
    Nat → State → List (Branch Move Memo) → Verdict State
  | 0, _, _ => .cut
  | visits + 1, state, trail =>
    if space.accepted state then .found state
    else
      match space.advance? state (space.moves state) with
      | some (next, branch) => space.search visits next (branch :: trail)
      | none =>
        match space.retreat state trail with
        | .entered next rest => space.search visits next rest
        | .exhausted back => .exhausted back

/-- Taking a move back restores the state in which it was made. -/
def Restores (space : Space State Move Memo) : Prop :=
  ∀ state, ∀ move ∈ space.moves state, ∀ next memo,
    space.perform? state move = some (next, memo) → space.undo next memo = state

end Space

end StrongLL
