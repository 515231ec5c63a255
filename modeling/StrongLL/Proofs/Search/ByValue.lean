import StrongLL.Proofs.Recognizer.Decision
import StrongLL.Proofs.Search.Walk

/-!
# Searching by value

The plain form of a depth-first search is a recursion: it visits a state, and tries its moves one
after another by visiting the states that they lead to. Each call has its own state, so there is
nothing to take back. Only the number of visited states is handed from call to call, and a visit
that makes it exceed the limit ends the search at once.

The recursion ends because a height falls with every move. Its visits are those of a walk, and the
search that keeps one working state ends as it does.
-/

namespace StrongLL

set_option autoImplicit false

/-- The rejection of a search that has visited more states than it may. -/
def overstep? (limit : Option Nat) (steps : Nat) : Option ParseError :=
  limit.bind fun most => if most < steps then some (.stepLimitExceeded most) else none

/-- What a search by value returns: an accepted state or none, or the rejection when it is cut, and
the number of states that have been visited. -/
structure Visited (State : Type) where
  result : Except ParseError (Option State)
  steps : Nat

theorem overstep?_eq_some_iff {limit : Option Nat} {steps : Nat} {cause : ParseError} :
    overstep? limit steps = some cause ↔
      ∃ most, limit = some most ∧ most < steps ∧ cause = .stepLimitExceeded most := by
  rw [overstep?, Option.bind_eq_some_iff]
  constructor
  · intro ⟨most, limited, budget⟩
    split at budget
    · next more => exact ⟨most, limited, more, (Option.some.inj budget).symm⟩
    · exact nomatch budget
  · intro ⟨most, limited, more, same⟩
    exact ⟨most, limited, by rw [if_pos more, same]⟩

theorem overstep?_eq_none_iff {limit : Option Nat} {steps : Nat} :
    overstep? limit steps = none ↔ ∀ most, limit = some most → steps ≤ most := by
  cases limit with
  | none => exact ⟨fun _ => nofun, fun _ => rfl⟩
  | some most =>
      rw [overstep?, Option.bind_some]
      split
      · next more => exact ⟨nofun, fun room => absurd more (Nat.not_lt.2 (room most rfl))⟩
      · next room =>
          refine ⟨fun _ other same => ?_, fun _ => rfl⟩
          cases same
          exact Nat.not_lt.1 room

namespace Visited

variable {State : Type}

/-- The verdict of a search from a state that returns this. -/
def verdict (visited : Visited State) (start : State) : Verdict State :=
  match visited.result with
  | .ok (some last) => .found last
  | .ok none => .exhausted start
  | .error _ => .cut

/-- The answer to an input whose search returns this. -/
def answer (visited : Visited State) (derivation : State → Derivation) :
    Except ParseError Derivation :=
  match visited.result with
  | .ok (some last) => .ok (derivation last)
  | .ok none => .error .noDerivation
  | .error cause => .error cause

/-- What is returned when nothing but the limit can cut the search before it has visited the given
number of states. -/
def upTo (limit : Option Nat) (steps : Nat) (result : Option State) : Visited State :=
  match limit with
  | none => ⟨.ok result, steps⟩
  | some most =>
      if most < steps then ⟨.error (.stepLimitExceeded most), most + 1⟩ else ⟨.ok result, steps⟩

theorem upTo_of_within {limit : Option Nat} {steps : Nat} (within : overstep? limit steps = none)
    (result : Option State) : upTo limit steps result = ⟨.ok result, steps⟩ := by
  cases limit with
  | none => rfl
  | some most => exact if_neg (Nat.not_lt.2 (overstep?_eq_none_iff.1 within most rfl))

theorem upTo_of_overstep {limit : Option Nat} {steps total : Nat} {cause : ParseError}
    (budget : overstep? limit steps = some cause) (more : steps ≤ total) (result : Option State) :
    upTo limit total result = ⟨.error cause, limit.getD 0 + 1⟩ := by
  obtain ⟨most, rfl, less, rfl⟩ := overstep?_eq_some_iff.1 budget
  exact if_pos (Nat.lt_of_lt_of_le less more)

theorem answer_verdict_upTo (limit : Option Nat) (bound total : Nat) (result : Option State)
    (start : State) (derivation : State → Derivation) :
    ((upTo limit total result).verdict start).answer derivation (limit.getD bound) =
      (upTo limit total result).answer derivation := by
  cases limit with
  | none => cases result <;> rfl
  | some most =>
      rw [upTo, Option.getD_some]
      split
      · rfl
      · cases result <;> rfl

end Visited

namespace Space

variable {State Move Memo : Type} {space : Space State Move Memo}

/-- A height that falls with every move. -/
structure Descent (space : Space State Move Memo) where
  height : State → Nat
  lower : ∀ state next, space.Leads state next → height next < height state

mutual

/-- Visits a state when a number of states have been visited already. -/
def visit (descent : space.Descent) (limit : Option Nat) (steps : Nat) (state : State) :
    Visited State :=
  match overstep? limit (steps + 1) with
  | some cause => ⟨.error cause, steps + 1⟩
  | none =>
      if space.accepted state then ⟨.ok (some state), steps + 1⟩
      else tryMoves descent limit (steps + 1) state (space.moves state) (List.Subset.refl _)
termination_by (descent.height state, 1, 0)

/-- Tries moves of a state in turn, until one of them leads to an accepted state. -/
def tryMoves (descent : space.Descent) (limit : Option Nat) (steps : Nat) (state : State)
    (moves : List Move) (offered : moves ⊆ space.moves state) : Visited State :=
  match moves with
  | [] => ⟨.ok none, steps⟩
  | move :: moves =>
      match made : space.perform? state move with
      | none =>
          tryMoves descent limit steps state moves (List.subset_of_cons_subset offered)
      | some (next, memo) =>
          have _ := descent.lower state next ⟨move, offered List.mem_cons_self, memo, made⟩
          match visit descent limit steps next with
          | ⟨.ok none, later⟩ =>
              tryMoves descent limit later state moves (List.subset_of_cons_subset offered)
          | ended => ended
termination_by (descent.height state, 0, moves.length)

end

variable {descent : space.Descent} {limit : Option Nat} {steps : Nat} {state next : State}
  {move : Move} {moves : List Move} {memo : Memo} {offered : move :: moves ⊆ space.moves state}

theorem visit_cut {cause : ParseError} (budget : overstep? limit (steps + 1) = some cause) :
    visit descent limit steps state = ⟨.error cause, steps + 1⟩ := by
  rw [visit, budget]

theorem visit_accepted (within : overstep? limit (steps + 1) = none)
    (accepted : space.accepted state = true) :
    visit descent limit steps state = ⟨.ok (some state), steps + 1⟩ := by
  rw [visit, within]
  exact if_pos accepted

theorem visit_rejected (within : overstep? limit (steps + 1) = none)
    (rejected : space.accepted state = false) :
    visit descent limit steps state =
      tryMoves descent limit (steps + 1) state (space.moves state) (List.Subset.refl _) := by
  rw [visit, within]
  exact if_neg (by rw [rejected]; exact Bool.false_ne_true)

theorem tryMoves_nil (offered : [] ⊆ space.moves state) :
    tryMoves descent limit steps state [] offered = ⟨.ok none, steps⟩ := by
  rw [tryMoves]

theorem tryMoves_of_nil (nothing : moves = []) {offered : moves ⊆ space.moves state} :
    tryMoves descent limit steps state moves offered = ⟨.ok none, steps⟩ := by
  subst nothing
  exact tryMoves_nil offered

theorem tryMoves_stuck (stuck : space.perform? state move = none) :
    tryMoves descent limit steps state (move :: moves) offered =
      tryMoves descent limit steps state moves (List.subset_of_cons_subset offered) := by
  rw [tryMoves]
  split
  · rfl
  · next made =>
      rw [stuck] at made
      exact nomatch made

theorem tryMoves_made (made : space.perform? state move = some (next, memo)) :
    tryMoves descent limit steps state (move :: moves) offered =
      match visit descent limit steps next with
      | ⟨.ok none, later⟩ =>
          tryMoves descent limit later state moves (List.subset_of_cons_subset offered)
      | ended => ended := by
  rw [tryMoves]
  split
  · next stuck =>
      rw [stuck] at made
      exact nomatch made
  · next again =>
      rw [again] at made
      cases made
      rfl

/-- A visit that is cut leaves the count one above the limit. -/
theorem visit_eq_upTo_of_cut (within : overstep? limit steps = none) {cause : ParseError}
    (budget : overstep? limit (steps + 1) = some cause) {total : Nat} (more : steps + 1 ≤ total)
    (result : Option State) : visit descent limit steps state = .upTo limit total result := by
  obtain ⟨most, rfl, less, _⟩ := overstep?_eq_some_iff.1 budget
  have same : steps = most :=
    Nat.le_antisymm (overstep?_eq_none_iff.1 within most rfl) (Nat.le_of_lt_succ less)
  rw [visit_cut budget, Visited.upTo_of_overstep budget more, Option.getD_some, same]

theorem tryMoves_made_of_cut (within : overstep? limit steps = none)
    (made : space.perform? state move = some (next, memo)) {cause : ParseError}
    (budget : overstep? limit (steps + 1) = some cause) {total : Nat} (more : steps + 1 ≤ total)
    (result : Option State) :
    tryMoves descent limit steps state (move :: moves) offered = .upTo limit total result := by
  rw [tryMoves_made made, visit_eq_upTo_of_cut within budget more result,
    Visited.upTo_of_overstep budget more]

/-- A search by value makes the visits of its walk and finds what the walk finds. -/
theorem Walk.tryMoves_eq {count : Nat} {result : Option State}
    (walk : space.Walk state moves count result) (offered : moves ⊆ space.moves state)
    (within : overstep? limit steps = none) :
    tryMoves descent limit steps state moves offered = .upTo limit (steps + count) result := by
  induction walk generalizing steps with
  | done => rw [tryMoves_nil, Nat.add_zero, Visited.upTo_of_within within]
  | skip stuck _ induction =>
      rw [tryMoves_stuck stuck]
      exact induction _ within
  | @hit _ next _ _ _ made accepted =>
      cases budget : overstep? limit (steps + 1) with
      | some cause => exact tryMoves_made_of_cut within made budget (Nat.le_refl _) _
      | none =>
          rw [tryMoves_made made, visit_accepted budget accepted, Visited.upTo_of_within budget]
  | @deep _ _ last _ _ _ count made rejected _ induction =>
      have total : steps + (count + 1) = steps + 1 + count := by omega
      rw [total]
      cases budget : overstep? limit (steps + 1) with
      | some cause => exact tryMoves_made_of_cut within made budget (Nat.le_add_right _ _) _
      | none =>
          rw [tryMoves_made made, visit_rejected budget rejected, induction _ budget]
          cases later : overstep? limit (steps + 1 + count) with
          | some cause => rw [Visited.upTo_of_overstep later (Nat.le_refl _)]
          | none => rw [Visited.upTo_of_within later]
  | @miss _ _ _ _ _ count more result made rejected _ _ inner others =>
      have total : steps + (count + 1 + more) = steps + 1 + count + more := by omega
      rw [total]
      cases budget : overstep? limit (steps + 1) with
      | some cause => exact tryMoves_made_of_cut within made budget (by omega) _
      | none =>
          rw [tryMoves_made made, visit_rejected budget rejected, inner _ budget]
          cases later : overstep? limit (steps + 1 + count) with
          | some cause =>
              rw [Visited.upTo_of_overstep later (Nat.le_refl _),
                Visited.upTo_of_overstep later (Nat.le_add_right _ _)]
          | none =>
              rw [Visited.upTo_of_within later]
              exact others _ later

theorem visit_eq_upTo_of_walk {count : Nat} {result : Option State}
    (walk : space.Walk state (space.moves state) count result)
    (rejected : space.accepted state = false) (limit : Option Nat) :
    visit descent limit 0 state = .upTo limit (count + 1) result := by
  have within : overstep? limit 0 = none :=
    overstep?_eq_none_iff.2 fun most _ => Nat.zero_le most
  cases budget : overstep? limit 1 with
  | some cause => exact visit_eq_upTo_of_cut within budget (Nat.le_add_left _ _) _
  | none => rw [visit_rejected budget rejected, walk.tryMoves_eq _ budget, Nat.add_comm]

theorem visit_eq_upTo_of_accepted (accepted : space.accepted state = true) (limit : Option Nat) :
    visit descent limit 0 state = .upTo limit 1 (some state) := by
  have within : overstep? limit 0 = none :=
    overstep?_eq_none_iff.2 fun most _ => Nat.zero_le most
  cases budget : overstep? limit 1 with
  | some cause => exact visit_eq_upTo_of_cut within budget (Nat.le_refl _) _
  | none => rw [visit_accepted budget accepted, Visited.upTo_of_within budget]

/-- Both searches take the same number of visits and find the same. -/
theorem exists_count (restores : space.Restores) (descent : space.Descent) {width : Nat}
    (narrow : ∀ state, (space.moves state).length ≤ width) (start : State) :
    ∃ count result, count < (width + 1) ^ descent.height start ∧
      (∀ limit, visit descent limit 0 start = .upTo limit (count + 1) result) ∧
        ∀ visits, space.search visits start [] =
          if visits ≤ count then .cut else .of result (.exhausted start) := by
  cases accepted : space.accepted start with
  | true =>
      exact ⟨0, some start, Nat.pow_pos (Nat.succ_pos _), visit_eq_upTo_of_accepted accepted,
        search_of_accepted accepted⟩
  | false =>
      obtain ⟨count, result, walk, few⟩ :=
        exists_walk descent.lower narrow _ start (Nat.le_refl _)
      exact ⟨count, result, few, visit_eq_upTo_of_walk walk accepted,
        walk.search_eq restores accepted⟩

/-- The search with one working state and the search by value end alike, under every limit. Without
one the first is given a bound on the visits that it takes. -/
theorem search_eq_verdict (restores : space.Restores) (descent : space.Descent) {width bound : Nat}
    (narrow : ∀ state, (space.moves state).length ≤ width) {start : State}
    (room : (width + 1) ^ descent.height start ≤ bound) (limit : Option Nat) :
    space.search (limit.getD bound) start [] = (visit descent limit 0 start).verdict start := by
  obtain ⟨count, result, few, visits, searches⟩ := exists_count restores descent narrow start
  rw [visits, searches]
  cases limit with
  | none =>
      rw [Option.getD_none, if_neg (Nat.not_le.2 (Nat.lt_of_lt_of_le few room))]
      cases result <;> rfl
  | some most =>
      rw [Option.getD_some, Visited.upTo]
      by_cases more : most ≤ count
      · rw [if_pos more, if_pos (Nat.lt_succ_of_le more)]
        rfl
      · rw [if_neg more, if_neg fun less => more (Nat.le_of_lt_succ less)]
        cases result <;> rfl

theorem search_answer_eq (restores : space.Restores) (descent : space.Descent) {width bound : Nat}
    (narrow : ∀ state, (space.moves state).length ≤ width) {start : State}
    (room : (width + 1) ^ descent.height start ≤ bound) (limit : Option Nat)
    (derivation : State → Derivation) :
    (space.search (limit.getD bound) start []).answer derivation (limit.getD bound) =
      (visit descent limit 0 start).answer derivation := by
  obtain ⟨count, result, _, visits, _⟩ := exists_count restores descent narrow start
  rw [search_eq_verdict restores descent narrow room, visits, Visited.answer_verdict_upTo]

end Space

end StrongLL
