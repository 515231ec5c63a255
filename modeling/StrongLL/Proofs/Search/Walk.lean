import Mathlib.Algebra.Group.Nat.Defs
import Mathlib.Logic.Relation
import StrongLL.Search.Basic

/-!
# What a search does

The search keeps one working state and a stack of branches. `Walk` says what it amounts to: the
moves of a state are tried one after another, each with everything below it, and the visits of all
parts add up. Taking moves back is what makes this true. A search that is allowed more visits than
its walk counts ends as the walk does, and a search that is allowed fewer is cut.

The walk exists when a height falls with every move. It finds an accepted state exactly if one can
be reached.
-/

namespace StrongLL

set_option autoImplicit false

/-- The verdict on what was found, or another one if nothing was. -/
def Verdict.of {State : Type} (result : Option State) (missed : Verdict State) : Verdict State :=
  match result with
  | some last => .found last
  | none => missed

namespace Space

open Relation

variable {State Move Memo : Type} {space : Space State Move Memo}

/-- Trying the moves at a state takes a number of visits, and finds an accepted state or none. -/
inductive Walk (space : Space State Move Memo) : State → List Move → Nat → Option State → Prop where
  | done {state : State} : Walk space state [] 0 none
  | skip {state : State} {move : Move} {moves : List Move} {visits : Nat} {result : Option State}
      (stuck : space.perform? state move = none) (others : Walk space state moves visits result) :
      Walk space state (move :: moves) visits result
  | hit {state next : State} {move : Move} {moves : List Move} {memo : Memo}
      (made : space.perform? state move = some (next, memo))
      (accepted : space.accepted next = true) :
      Walk space state (move :: moves) 1 (some next)
  | deep {state next last : State} {move : Move} {moves : List Move} {memo : Memo} {visits : Nat}
      (made : space.perform? state move = some (next, memo))
      (rejected : space.accepted next = false)
      (inner : Walk space next (space.moves next) visits (some last)) :
      Walk space state (move :: moves) (visits + 1) (some last)
  | miss {state next : State} {move : Move} {moves : List Move} {memo : Memo} {visits later : Nat}
      {result : Option State} (made : space.perform? state move = some (next, memo))
      (rejected : space.accepted next = false)
      (inner : Walk space next (space.moves next) visits none)
      (others : Walk space state moves later result) :
      Walk space state (move :: moves) (visits + 1 + later) result

/-- The search goes on with the given moves at a state, and up the trail after them. -/
def resume (space : Space State Move Memo) (visits : Nat) (state : State) (moves : List Move)
    (trail : List (Branch Move Memo)) : Verdict State :=
  match space.advance? state moves with
  | some (next, branch) => space.search visits next (branch :: trail)
  | none =>
      match space.retreat state trail with
      | .entered next rest => space.search visits next rest
      | .exhausted back => .exhausted back

variable {state next : State} {move : Move} {moves : List Move} {memo : Memo} {count visits : Nat}
  {trail : List (Branch Move Memo)} {result : Option State}

theorem search_zero : space.search 0 state trail = .cut := rfl

theorem search_accepted (accepted : space.accepted state = true) :
    space.search (visits + 1) state trail = .found state := by
  rw [search, if_pos accepted]

theorem search_rejected (rejected : space.accepted state = false) :
    space.search (visits + 1) state trail = space.resume visits state (space.moves state) trail := by
  rw [search, if_neg (by rw [rejected]; exact Bool.false_ne_true)]
  rfl

theorem resume_stuck (stuck : space.perform? state move = none) :
    space.resume visits state (move :: moves) trail = space.resume visits state moves trail := by
  simp only [resume, advance?, stuck]

theorem resume_made (made : space.perform? state move = some (next, memo)) :
    space.resume visits state (move :: moves) trail =
      space.search visits next (⟨memo, moves⟩ :: trail) := by
  simp only [resume, advance?, made]

theorem resume_nil_cons (branch : Branch Move Memo) :
    space.resume visits state [] (branch :: trail) =
      space.resume visits (space.undo state branch.memo) branch.untried trail := by
  simp only [resume, advance?, retreat]
  cases space.advance? (space.undo state branch.memo) branch.untried with
  | none => rfl
  | some entered => rfl

/-- A search goes on as its walk says. -/
theorem Walk.resume (walk : space.Walk state moves count result) (restores : space.Restores)
    (offered : moves ⊆ space.moves state) (visits : Nat) (trail : List (Branch Move Memo)) :
    space.resume visits state moves trail =
      if visits < count then .cut else .of result (space.resume (visits - count) state [] trail) := by
  induction walk generalizing visits trail with
  | done => rfl
  | skip stuck _ induction =>
      rw [resume_stuck stuck]
      exact induction (List.subset_of_cons_subset offered) visits trail
  | hit made accepted =>
      rw [resume_made made]
      cases visits with
      | zero => rfl
      | succ visits =>
          rw [search_accepted accepted,
            if_neg (Nat.not_lt.2 (Nat.succ_le_succ (Nat.zero_le visits)))]
          rfl
  | @deep _ _ _ _ _ _ count made rejected _ induction =>
      rw [resume_made made]
      cases visits with
      | zero => rw [search_zero, if_pos (by omega)]
      | succ visits =>
          rw [search_rejected rejected, induction (List.Subset.refl _)]
          by_cases few : visits < count
          · rw [if_pos few, if_pos (by omega)]
          · rw [if_neg few, if_neg (by omega)]
            rfl
  | @miss state next move moves memo count later result made rejected _ _ inner others =>
      rw [resume_made made]
      cases visits with
      | zero => rw [search_zero, if_pos (by omega)]
      | succ visits =>
          rw [search_rejected rejected, inner (List.Subset.refl _)]
          by_cases few : visits < count
          · rw [if_pos few, if_pos (by omega)]
          · have restored : space.undo next memo = state :=
              restores state move (offered List.mem_cons_self) next memo made
            rw [if_neg few, Verdict.of, resume_nil_cons, restored,
              others (List.subset_of_cons_subset offered)]
            by_cases fewer : visits - count < later
            · rw [if_pos fewer, if_pos (by omega)]
            · rw [if_neg fewer, if_neg (by omega), show visits + 1 - (count + 1 + later) =
                visits - count - later by omega]

/-- One move leads from a state to another. -/
def Leads (space : Space State Move Memo) (state next : State) : Prop :=
  ∃ move ∈ space.moves state, ∃ memo, space.perform? state move = some (next, memo)

/-- Some number of moves lead from a state to another. -/
abbrev Reaches (space : Space State Move Memo) : State → State → Prop := ReflTransGen space.Leads

theorem Walk.sound {last : State} (walk : space.Walk state moves count (some last))
    (offered : moves ⊆ space.moves state) :
    space.Reaches state last ∧ space.accepted last = true := by
  generalize found : some last = result at walk
  induction walk with
  | done => exact nomatch found
  | skip _ _ induction => exact induction (List.subset_of_cons_subset offered) found
  | hit made accepted =>
      cases found
      exact ⟨.single ⟨_, offered List.mem_cons_self, _, made⟩, accepted⟩
  | deep made _ _ induction =>
      obtain ⟨reaches, accepted⟩ := induction (List.Subset.refl _) found
      exact ⟨.head ⟨_, offered List.mem_cons_self, _, made⟩ reaches, accepted⟩
  | miss _ _ _ _ _ induction => exact induction (List.subset_of_cons_subset offered) found

theorem Walk.complete (walk : space.Walk state moves count none) :
    ∀ move ∈ moves, ∀ next memo, space.perform? state move = some (next, memo) →
      ∀ last, space.Reaches next last → space.accepted last = false := by
  generalize missed : none = result at walk
  induction walk with
  | done => exact fun _ member => absurd member List.not_mem_nil
  | skip stuck _ induction =>
      intro move member next memo made
      rcases List.mem_cons.1 member with same | later
      · rw [same, stuck] at made
        exact nomatch made
      · exact induction missed move later next memo made
  | hit => exact nomatch missed
  | deep => exact nomatch missed
  | @miss _ _ _ _ _ _ _ _ made rejected _ _ inner others =>
      intro move member next memo again last reaches
      rcases List.mem_cons.1 member with same | later
      · rw [same, made] at again
        cases again
        rcases ReflTransGen.cases_head reaches with
          same | ⟨middle, ⟨move, member, memo, first⟩, more⟩
        · exact same ▸ rejected
        · exact inner rfl move member middle memo first last more
      · exact others missed move later next memo again last reaches

theorem exists_walk_moves {cost : Nat}
    (each : ∀ next, space.Leads state next →
      ∃ count result, space.Walk next (space.moves next) count result ∧ count + 1 ≤ cost)
    (offered : moves ⊆ space.moves state) :
    ∃ count result, space.Walk state moves count result ∧ count ≤ moves.length * cost := by
  induction moves with
  | nil => exact ⟨0, none, .done, Nat.zero_le _⟩
  | cons move moves induction =>
      obtain ⟨later, result, walk, total⟩ := induction (List.subset_of_cons_subset offered)
      rw [List.length_cons, Nat.succ_mul]
      cases made : space.perform? state move with
      | none => exact ⟨later, result, .skip made walk, by omega⟩
      | some entered =>
          obtain ⟨next, memo⟩ := entered
          obtain ⟨count, found, inner, few⟩ :=
            each next ⟨move, offered List.mem_cons_self, memo, made⟩
          cases accepted : space.accepted next with
          | true => exact ⟨1, some next, .hit made accepted, by omega⟩
          | false =>
              cases found with
              | some last => exact ⟨count + 1, some last, .deep made accepted inner, by omega⟩
              | none => exact ⟨count + 1 + later, result, .miss made accepted inner walk, by omega⟩

/-- Where every move leads lower, trying the moves of a state ends. The visits are those of a tree
that is no deeper than the height and no wider than the moves. -/
theorem exists_walk {height : State → Nat} {width : Nat}
    (lower : ∀ state next, space.Leads state next → height next < height state)
    (narrow : ∀ state, (space.moves state).length ≤ width) (top : Nat) (state : State)
    (low : height state ≤ top) :
    ∃ count result, space.Walk state (space.moves state) count result ∧
      count + 1 ≤ (width + 1) ^ top := by
  induction top generalizing state with
  | zero =>
      have bottom : ∀ next, space.Leads state next → ∃ count result,
          space.Walk next (space.moves next) count result ∧ count + 1 ≤ 0 := by
        intro next leads
        have down := lower state next leads
        omega
      obtain ⟨count, result, walk, total⟩ := exists_walk_moves bottom (List.Subset.refl _)
      exact ⟨count, result, walk, Nat.succ_le_succ total⟩
  | succ top induction =>
      have each : ∀ next, space.Leads state next → ∃ count result,
          space.Walk next (space.moves next) count result ∧ count + 1 ≤ (width + 1) ^ top := by
        intro next leads
        have down := lower state next leads
        exact induction next (by omega)
      obtain ⟨count, result, walk, total⟩ := exists_walk_moves each (List.Subset.refl _)
      have positive : 0 < (width + 1) ^ top := Nat.pow_pos (Nat.succ_pos _)
      have moves := Nat.mul_le_mul_right ((width + 1) ^ top) (narrow state)
      refine ⟨count, result, walk, ?_⟩
      rw [Nat.pow_succ, Nat.mul_succ, Nat.mul_comm _ width]
      omega

/-- What a search that is not cut ends with: an accepted state that can be reached, or its start when
none can. -/
inductive Ends (space : Space State Move Memo) (start : State) : Verdict State → Prop where
  | found {last : State} (reaches : space.Reaches start last)
      (accepted : space.accepted last = true) :
      Ends space start (.found last)
  | exhausted (nothing : ∀ last, space.Reaches start last → space.accepted last = false) :
      Ends space start (.exhausted start)

theorem Ends.ne_cut {start : State} {verdict : Verdict State} (ends : space.Ends start verdict) :
    verdict ≠ .cut := by
  cases ends with
  | found => exact nofun
  | exhausted => exact nofun

theorem Walk.ends (walk : space.Walk state (space.moves state) count result)
    (rejected : space.accepted state = false) :
    space.Ends state (.of result (.exhausted state)) := by
  cases result with
  | some last =>
      obtain ⟨reaches, accepted⟩ := walk.sound (List.Subset.refl _)
      exact .found reaches accepted
  | none =>
      apply Ends.exhausted
      intro last reaches
      rcases ReflTransGen.cases_head reaches with same | ⟨next, ⟨move, member, memo, made⟩, more⟩
      · exact same ▸ rejected
      · exact walk.complete move member next memo made last more

theorem search_of_accepted (accepted : space.accepted state = true) (visits : Nat) :
    space.search visits state [] = if visits ≤ 0 then .cut else .found state := by
  cases visits with
  | zero => rfl
  | succ visits => rw [search_accepted accepted, if_neg (Nat.not_succ_le_zero _)]

/-- A search from the first state of a walk takes the visits of the walk and one more. -/
theorem Walk.search_eq (restores : space.Restores)
    (walk : space.Walk state (space.moves state) count result)
    (rejected : space.accepted state = false) (visits : Nat) :
    space.search visits state [] =
      if visits ≤ count then .cut else .of result (.exhausted state) := by
  cases visits with
  | zero => rw [search_zero, if_pos (Nat.zero_le _)]
  | succ visits =>
      rw [search_rejected rejected, walk.resume restores (List.Subset.refl _)]
      by_cases fewer : visits < count
      · rw [if_pos fewer, if_pos (Nat.succ_le_of_lt fewer)]
      · rw [if_neg fewer, if_neg fun more => fewer (Nat.lt_of_succ_le more)]
        rfl

/-- Below its height a search decides whether an accepted state can be reached, within the visits of
a tree. Fewer visits than it takes cut it, and more change nothing. -/
theorem exists_verdict (restores : space.Restores) {height : State → Nat} {width : Nat}
    (lower : ∀ state next, space.Leads state next → height next < height state)
    (narrow : ∀ state, (space.moves state).length ≤ width) (start : State) :
    ∃ count verdict, count < (width + 1) ^ height start ∧ space.Ends start verdict ∧
      ∀ visits, space.search visits start [] = if visits ≤ count then .cut else verdict := by
  cases accepted : space.accepted start with
  | true =>
      exact ⟨0, .found start, Nat.pow_pos (Nat.succ_pos _), .found .refl accepted,
        search_of_accepted accepted⟩
  | false =>
      obtain ⟨count, result, walk, few⟩ := exists_walk lower narrow _ start (Nat.le_refl _)
      exact ⟨count, _, few, walk.ends accepted, walk.search_eq restores accepted⟩

/-- Whatever visits a search is allowed, it finds nothing but accepted states that can be reached. -/
theorem reaches_of_search (restores : space.Restores) {height : State → Nat} {width : Nat}
    (lower : ∀ state next, space.Leads state next → height next < height state)
    (narrow : ∀ state, (space.moves state).length ≤ width) {start last : State}
    (found : space.search visits start [] = .found last) :
    space.Reaches start last ∧ space.accepted last = true := by
  obtain ⟨count, verdict, _, ends, answers⟩ := exists_verdict restores lower narrow start
  rw [answers] at found
  split at found
  · exact nomatch found
  · rw [found] at ends
    cases ends with
    | found reaches accepted => exact ⟨reaches, accepted⟩

theorem exists_verdict_of_bound (restores : space.Restores) {height : State → Nat}
    {width bound : Nat}
    (lower : ∀ state next, space.Leads state next → height next < height state)
    (narrow : ∀ state, (space.moves state).length ≤ width) {start : State}
    (enough : (width + 1) ^ height start ≤ bound) :
    ∃ verdict, space.Ends start verdict ∧
      ∀ visits, bound ≤ visits → space.search visits start [] = verdict := by
  obtain ⟨count, verdict, few, ends, answers⟩ := exists_verdict restores lower narrow start
  refine ⟨verdict, ends, fun visits more => ?_⟩
  rw [answers, if_neg (Nat.not_le.2 (Nat.lt_of_lt_of_le few (Nat.le_trans enough more)))]

end Space

end StrongLL
