import Mathlib
import StrongLL.Proofs.Search.ByValue

/-!
# Searching with frames

Here a search is a loop over one working state, which all branches share, and a stack of frames, one
for each state on the path. A frame keeps what was taken off the working state when it was opened,
how many alternatives have been tried, and the move that led on. When the states behind that move
are done with, the move is taken back, and when a frame has no alternative left it is closed and
what it kept is put back. Taking a move back may find less than it has to remove; the loop fails
then, and that this never happens is part of what is proved.

A loop follows a space if its frames stand for the states of the space and try the moves of the
space in their order. The main statements hold of every such loop. It halts as the search by value
does, after as many visits, and whenever a frame is closed the working state is the one for which
the frame was opened.
-/

namespace StrongLL

set_option autoImplicit false

open Relation

/-- What is kept for a state on the path: what was taken off it, the run of units that led to it,
the number of alternatives tried, and the move that led on from it. -/
structure Frame (Held Done : Type) where
  held : Held
  units : Nat
  next : Nat
  current : Option Done

/-- What the next alternative leads to: a working state after a run of units, with the number of
alternatives that are tried by then and the move to take back. -/
structure Advance (Work Done : Type) where
  work : Work
  units : Nat
  next : Nat
  done : Done

/-- The frame after its next alternative. -/
def Frame.advanced {Work Held Done : Type} (frame : Frame Held Done) (made : Advance Work Done) :
    Frame Held Done :=
  { frame with next := made.next, current := some made.done }

/-- What a search with frames does to its working state. -/
structure FrameLoop (Work Held Done : Type) where
  accepted : Work → Bool
  /-- What a new frame keeps, and the working state without it. A dead state gets no frame. -/
  hold? : Work → Option (Held × Work)
  advance? : Frame Held Done → Work → Option (Advance Work Done)
  /-- Takes a move back, if the working state holds what the move has added. -/
  undo? : Done → Work → Option Work
  /-- Puts back what a frame kept. -/
  release : Held → Work → Work

/-- What the loop does in its next turn: visit a state that was entered after a run of units, or go
back to the last frame. -/
inductive Phase where
  | entering (units : Nat)
  | returning

/-- The loop between two turns. -/
structure LoopState (Work Held Done : Type) where
  phase : Phase
  work : Work
  frames : List (Frame Held Done)
  steps : Nat

/-- How the loop ends: whether it has found an accepted state, or the rejection when it is cut. -/
structure Outcome (Work : Type) where
  answer : Except ParseError Bool
  work : Work
  steps : Nat

/-- What a turn of the loop leads to. -/
inductive LoopTurn (Work Held Done : Type) where
  | on (next : LoopState Work Held Done)
  | halt (outcome : Outcome Work)
  | underflow

namespace FrameLoop

variable {Work Held Done : Type} (loop : FrameLoop Work Held Done) (limit : Option Nat)

/-- Takes back the move that led on from a frame, if there is one. -/
def takeBack? (frame : Frame Held Done) (work : Work) : Option Work :=
  match frame.current with
  | none => some work
  | some done => loop.undo? done work

/-- Visits the working state, and opens a frame for it unless it is accepted or dead. -/
def enter (units : Nat) (config : LoopState Work Held Done) : LoopTurn Work Held Done :=
  match overstep? limit (config.steps + 1) with
  | some cause => .halt ⟨.error cause, config.work, config.steps + 1⟩
  | none =>
      if loop.accepted config.work then .halt ⟨.ok true, config.work, config.steps + 1⟩
      else
        match loop.hold? config.work with
        | some (held, work) =>
            .on ⟨.returning, work, ⟨held, units, 0, none⟩ :: config.frames, config.steps + 1⟩
        | none => .on ⟨.returning, config.work, config.frames, config.steps + 1⟩

/-- Goes on with the last frame, or closes it. -/
def back (config : LoopState Work Held Done) : LoopTurn Work Held Done :=
  match config.frames with
  | [] => .halt ⟨.ok false, config.work, config.steps⟩
  | frame :: frames =>
      match loop.takeBack? frame config.work with
      | none => .underflow
      | some before =>
          match loop.advance? frame before with
          | some made =>
              .on ⟨.entering made.units, made.work, frame.advanced made :: frames, config.steps⟩
          | none => .on ⟨.returning, loop.release frame.held before, frames, config.steps⟩

/-- One turn of the loop. -/
def turn (config : LoopState Work Held Done) : LoopTurn Work Held Done :=
  match config.phase with
  | .entering units => loop.enter limit units config
  | .returning => loop.back config

/-- Some number of turns lead from one state of the loop to another. -/
abbrev Runs : LoopState Work Held Done → LoopState Work Held Done → Prop :=
  ReflTransGen fun config next => loop.turn limit config = .on next

/-- The loop halts with an outcome. -/
def Halts (config : LoopState Work Held Done) (outcome : Outcome Work) : Prop :=
  ∃ last, loop.Runs limit config last ∧ loop.turn limit last = .halt outcome

/-- The loop before its first turn. -/
def initial (start : Work) : LoopState Work Held Done := ⟨.entering 0, start, [], 0⟩

/-- The working states for which the open frames were opened, the latest first, after a turn: one is
added when a frame is opened and dropped when a frame is closed. -/
def record (config next : LoopState Work Held Done) (opened : List Work) : List Work :=
  if config.frames.length < next.frames.length then config.work :: opened
  else if next.frames.length < config.frames.length then opened.tail
  else opened

/-- The loop comes from its start to a state, and its open frames were opened for the given working
states. -/
inductive Comes (start : Work) : List Work → LoopState Work Held Done → Prop where
  | start : Comes start [] (initial start)
  | turn {opened : List Work} {config next : LoopState Work Held Done}
      (comes : Comes start opened config) (turned : loop.turn limit config = .on next) :
      Comes start (record config next opened) next

end FrameLoop

/-- The loop ends as the search by value: with the same state, with nothing and the working state
with which it began, or with the same rejection, and after the same number of visits. -/
inductive Outcome.Matches {Work State : Type} (view : Work → Nat → State) (start : Work) :
    Outcome Work → Visited State → Prop where
  | found {work : Work} {units steps : Nat} :
    Matches view start ⟨.ok true, work, steps⟩ ⟨.ok (some (view work units)), steps⟩
  | exhausted {steps : Nat} : Matches view start ⟨.ok false, start, steps⟩ ⟨.ok none, steps⟩
  | cut {cause : ParseError} {work : Work} {steps : Nat} :
    Matches view start ⟨.error cause, work, steps⟩ ⟨.error cause, steps⟩

namespace FrameLoop

variable {Work Held Done State Move Memo : Type} {loop : FrameLoop Work Held Done}
  {space : Space State Move Memo} {view : Work → Nat → State} {fits : Work → Prop}
  {stands : Frame Held Done → Work → Prop}

/-- An alternative of a frame leads to the state to which a move leads, and leaves as many moves
untried. It can be taken back, and then the frame stands for its state as before. -/
structure Mirrors (loop : FrameLoop Work Held Done) (view : Work → Nat → State)
    (fits : Work → Prop) (stands : Frame Held Done → Work → Prop) (moves : List Move)
    (frame : Frame Held Done) (before : Work) (move : State × Branch Move Memo)
    (made : Advance Work Done) : Prop where
  fit : fits made.work
  leads : view made.work made.units = move.1
  left : moves.drop made.next = move.2.untried
  undone : loop.undo? made.done made.work = some before
  standing : stands (frame.advanced made) before

/-- The loop follows the space: a fitting working state and a run of units are viewed as a state,
and a frame that stands over the working state for which it was opened tries the moves of the state
in their order. -/
structure Follows (loop : FrameLoop Work Held Done) (space : Space State Move Memo)
    (view : Work → Nat → State) (fits : Work → Prop) (stands : Frame Held Done → Work → Prop) :
    Prop where
  accepted : ∀ {work : Work} {units : Nat}, fits work →
    loop.accepted work = space.accepted (view work units)
  dead : ∀ {work : Work} {units : Nat}, fits work → loop.hold? work = none →
    space.moves (view work units) = []
  opens : ∀ {work before : Work} {held : Held}, fits work →
    loop.hold? work = some (held, before) →
      loop.release held before = work ∧ ∀ units, stands ⟨held, units, 0, none⟩ before
  advances : ∀ {frame : Frame Held Done} {before : Work}, stands frame before →
    ∀ state, view (loop.release frame.held before) frame.units = state →
      Option.Rel (loop.Mirrors view fits stands (space.moves state) frame before)
        (space.advance? state ((space.moves state).drop frame.next)) (loop.advance? frame before)

section Turns

variable {limit : Option Nat} {config next : LoopState Work Held Done} {outcome : Outcome Work}

theorem Halts.of_halt (halted : loop.turn limit config = .halt outcome) :
    loop.Halts limit config outcome :=
  ⟨config, .refl, halted⟩

theorem Halts.of_runs (runs : loop.Runs limit config next) (halts : loop.Halts limit next outcome) :
    loop.Halts limit config outcome := by
  obtain ⟨last, more, halted⟩ := halts
  exact ⟨last, runs.trans more, halted⟩

/-- What the loop amounts to where a search by value returns something: it halts in the same way, or
it comes back to the frames below with the given working state. -/
inductive Amounts (loop : FrameLoop Work Held Done) (limit : Option Nat)
    (view : Work → Nat → State) (below : Work) (frames : List (Frame Held Done))
    (config : LoopState Work Held Done) : Visited State → Prop where
  | cut {cause : ParseError} {work : Work} {steps : Nat}
      (halts : loop.Halts limit config ⟨.error cause, work, steps⟩) :
      Amounts loop limit view below frames config ⟨.error cause, steps⟩
  | found {work : Work} {units steps : Nat}
      (halts : loop.Halts limit config ⟨.ok true, work, steps⟩) :
      Amounts loop limit view below frames config ⟨.ok (some (view work units)), steps⟩
  | missed {steps : Nat} (runs : loop.Runs limit config ⟨.returning, below, frames, steps⟩) :
      Amounts loop limit view below frames config ⟨.ok none, steps⟩

variable {below : Work} {frames : List (Frame Held Done)} {visited : Visited State}

theorem Amounts.of_runs (runs : loop.Runs limit config next)
    (amounts : loop.Amounts limit view below frames next visited) :
    loop.Amounts limit view below frames config visited := by
  cases amounts with
  | cut halts => exact .cut (halts.of_runs runs)
  | found halts => exact .found (halts.of_runs runs)
  | missed more => exact .missed (runs.trans more)

theorem Amounts.of_turn (turned : loop.turn limit config = .on next)
    (amounts : loop.Amounts limit view below frames next visited) :
    loop.Amounts limit view below frames config visited :=
  amounts.of_runs (.single turned)

variable {frame : Frame Held Done} {work before : Work} {units steps : Nat}

theorem turn_advance {made : Advance Work Done} (undone : loop.takeBack? frame work = some before)
    (advanced : loop.advance? frame before = some made) :
    loop.turn limit ⟨.returning, work, frame :: frames, steps⟩ =
      .on ⟨.entering made.units, made.work, frame.advanced made :: frames, steps⟩ := by
  simp only [turn, back, undone, advanced]

theorem turn_close (undone : loop.takeBack? frame work = some before)
    (stuck : loop.advance? frame before = none) :
    loop.turn limit ⟨.returning, work, frame :: frames, steps⟩ =
      .on ⟨.returning, loop.release frame.held before, frames, steps⟩ := by
  simp only [turn, back, undone, stuck]

theorem turn_cut {cause : ParseError} (budget : overstep? limit (steps + 1) = some cause) :
    loop.turn limit ⟨.entering units, work, frames, steps⟩ =
      .halt ⟨.error cause, work, steps + 1⟩ := by
  simp only [turn, enter, budget]

theorem turn_accepted (within : overstep? limit (steps + 1) = none)
    (accepted : loop.accepted work = true) :
    loop.turn limit ⟨.entering units, work, frames, steps⟩ =
      .halt ⟨.ok true, work, steps + 1⟩ := by
  simp only [turn, enter, within, accepted, if_true]

theorem turn_open {held : Held} (within : overstep? limit (steps + 1) = none)
    (rejected : loop.accepted work = false) (holds : loop.hold? work = some (held, before)) :
    loop.turn limit ⟨.entering units, work, frames, steps⟩ =
      .on ⟨.returning, before, ⟨held, units, 0, none⟩ :: frames, steps + 1⟩ := by
  simp only [turn, enter, within, rejected, holds, Bool.false_eq_true, if_false]

theorem turn_dead (within : overstep? limit (steps + 1) = none)
    (rejected : loop.accepted work = false) (dead : loop.hold? work = none) :
    loop.turn limit ⟨.entering units, work, frames, steps⟩ =
      .on ⟨.returning, work, frames, steps + 1⟩ := by
  simp only [turn, enter, within, rejected, dead, Bool.false_eq_true, if_false]

end Turns

section ByValue

variable {limit : Option Nat} {descent : space.Descent} {state : State} {steps : Nat}

theorem Follows.advance?_eq_none (follows : loop.Follows space view fits stands)
    {frame : Frame Held Done} {before : Work} (standing : stands frame before)
    (same : view (loop.release frame.held before) frame.units = state)
    (stuck : space.advance? state ((space.moves state).drop frame.next) = none) :
    loop.advance? frame before = none := by
  have related := follows.advances standing state same
  rw [stuck] at related
  generalize loop.advance? frame before = advanced at related
  cases related with
  | none => rfl

theorem Follows.exists_advance (follows : loop.Follows space view fits stands)
    {frame : Frame Held Done} {before : Work} (standing : stands frame before)
    (same : view (loop.release frame.held before) frame.units = state)
    {move : State × Branch Move Memo}
    (made : space.advance? state ((space.moves state).drop frame.next) = some move) :
    ∃ advance, loop.advance? frame before = some advance ∧
      loop.Mirrors view fits stands (space.moves state) frame before move advance := by
  have related := follows.advances standing state same
  rw [made] at related
  generalize loop.advance? frame before = advanced at related
  cases related with
  | some mirrors => exact ⟨_, rfl, mirrors⟩

theorem Follows.exists_mirrors (follows : loop.Follows space view fits stands)
    {frame : Frame Held Done} {before : Work} (standing : stands frame before)
    {advance : Advance Work Done} (advanced : loop.advance? frame before = some advance) :
    ∃ (moves : List Move) (move : State × Branch Move Memo),
      loop.Mirrors view fits stands moves frame before move advance := by
  have related := follows.advances standing _ rfl
  rw [advanced] at related
  generalize space.advance? _ _ = made at related
  cases related with
  | some mirrors => exact ⟨_, _, mirrors⟩

/-- A frame amounts to trying the moves of its state that are left, if the states below amount to
their visits. -/
theorem Follows.amounts_tryMoves (follows : loop.Follows space view fits stands)
    (each : ∀ next, space.Leads state next → ∀ work units frames steps, fits work →
      view work units = next →
        loop.Amounts limit view work frames ⟨.entering units, work, frames, steps⟩
          (space.visit descent limit steps next))
    (moves : List Move) (offered : moves ⊆ space.moves state) {frame : Frame Held Done}
    {work before : Work} {frames : List (Frame Held Done)} (standing : stands frame before)
    (same : view (loop.release frame.held before) frame.units = state)
    (undone : loop.takeBack? frame work = some before)
    (left : space.advance? state ((space.moves state).drop frame.next) =
      space.advance? state moves) :
    loop.Amounts limit view (loop.release frame.held before) frames
      ⟨.returning, work, frame :: frames, steps⟩
      (space.tryMoves descent limit steps state moves offered) := by
  induction moves generalizing frame work before steps with
  | nil =>
      rw [Space.tryMoves_nil]
      have stuck := follows.advance?_eq_none standing same left
      exact .missed (.single (turn_close undone stuck))
  | cons move moves induction =>
      cases made : space.perform? state move with
      | none =>
          rw [Space.tryMoves_stuck made]
          apply induction _ standing same undone
          rw [left, Space.advance?, made]
      | some entered =>
          obtain ⟨next, memo⟩ := entered
          have first : space.advance? state (move :: moves) = some (next, ⟨memo, moves⟩) := by
            rw [Space.advance?, made]
          obtain ⟨advance, advanced, mirrors⟩ :=
            follows.exists_advance standing same (left.trans first)
          apply Amounts.of_turn (turn_advance undone advanced)
          have inner := each next ⟨move, offered List.mem_cons_self, memo, made⟩ _ _
            (frame.advanced advance :: frames) steps mirrors.fit mirrors.leads
          rw [Space.tryMoves_made made]
          generalize space.visit descent limit steps next = visited at inner
          -- Only a visit that found nothing goes on with the moves that are left.
          cases inner with
          | cut halts => exact .cut halts
          | found halts => exact .found halts
          | missed runs =>
              apply Amounts.of_runs runs
              have rest : space.advance? state
                  ((space.moves state).drop (frame.advanced advance).next) =
                    space.advance? state moves :=
                congrArg (space.advance? state) mirrors.left
              exact induction (List.subset_of_cons_subset offered) mirrors.standing same
                mirrors.undone rest

/-- A visit of the loop is one of the search by value. -/
theorem Follows.amounts_visit (follows : loop.Follows space view fits stands) {work : Work}
    {units : Nat} {frames : List (Frame Held Done)} (fit : fits work)
    (same : view work units = state) :
    loop.Amounts limit view work frames ⟨.entering units, work, frames, steps⟩
      (space.visit descent limit steps state) := by
  induction height : descent.height state using Nat.strong_induction_on
    generalizing state work units frames steps with
  | h _ induction =>
      subst same
      cases budget : overstep? limit (steps + 1) with
      | some cause =>
          rw [Space.visit_cut budget]
          exact .cut (.of_halt (turn_cut budget))
      | none =>
          cases accepted : space.accepted (view work units) with
          | true =>
              rw [Space.visit_accepted budget accepted]
              exact .found (.of_halt (turn_accepted budget ((follows.accepted fit).trans accepted)))
          | false =>
              rw [Space.visit_rejected budget accepted]
              have rejected := (follows.accepted fit).trans accepted
              cases holds : loop.hold? work with
              | none =>
                  rw [Space.tryMoves_of_nil (follows.dead fit holds)]
                  exact .missed (.single (turn_dead budget rejected holds))
              | some kept =>
                  obtain ⟨held, before⟩ := kept
                  obtain ⟨released, standing⟩ := follows.opens fit holds
                  apply Amounts.of_turn (turn_open budget rejected holds)
                  have lower : ∀ next, space.Leads (view work units) next →
                      ∀ later below frames steps, fits later → view later below = next →
                        loop.Amounts limit view later frames ⟨.entering below, later, frames, steps⟩
                          (space.visit descent limit steps next) := by
                    intro next leads later below frames steps fit same
                    exact induction _ (height ▸ descent.lower _ _ leads) fit same rfl
                  subst released
                  exact follows.amounts_tryMoves lower _ (List.Subset.refl _) (standing units) rfl
                    rfl rfl

/-- From a fitting start the loop halts as the search by value does. -/
theorem Follows.exists_outcome (follows : loop.Follows space view fits stands)
    (descent : space.Descent) (limit : Option Nat) {start : Work} (fit : fits start) :
    ∃ outcome, loop.Halts limit (initial start) outcome ∧
      outcome.Matches view start (space.visit descent limit 0 (view start 0)) := by
  have amounts : loop.Amounts limit view start [] (initial start)
      (space.visit descent limit 0 (view start 0)) := follows.amounts_visit fit rfl
  generalize space.visit descent limit 0 (view start 0) = visited at amounts
  cases amounts with
  | cut halts => exact ⟨_, halts, .cut⟩
  | found halts => exact ⟨_, halts, .found⟩
  | missed runs => exact ⟨_, .of_runs runs (.of_halt rfl), .exhausted⟩

end ByValue

/-- A turn that goes on: it opens a frame or passes over a dead state, and it makes the next
alternative of a frame or closes the frame. -/
inductive Step (loop : FrameLoop Work Held Done) :
    LoopState Work Held Done → LoopState Work Held Done → Prop where
  | opens {units steps : Nat} {work before : Work} {held : Held} {frames : List (Frame Held Done)}
      (holds : loop.hold? work = some (held, before)) :
      Step loop ⟨.entering units, work, frames, steps⟩
        ⟨.returning, before, ⟨held, units, 0, none⟩ :: frames, steps + 1⟩
  | passes {units steps : Nat} {work : Work} {frames : List (Frame Held Done)}
      (dead : loop.hold? work = none) :
      Step loop ⟨.entering units, work, frames, steps⟩ ⟨.returning, work, frames, steps + 1⟩
  | advances {steps : Nat} {work before : Work} {frame : Frame Held Done}
      {frames : List (Frame Held Done)} {made : Advance Work Done}
      (undone : loop.takeBack? frame work = some before)
      (advanced : loop.advance? frame before = some made) :
      Step loop ⟨.returning, work, frame :: frames, steps⟩
        ⟨.entering made.units, made.work, frame.advanced made :: frames, steps⟩
  | closes {steps : Nat} {work before : Work} {frame : Frame Held Done}
      {frames : List (Frame Held Done)} (undone : loop.takeBack? frame work = some before)
      (stuck : loop.advance? frame before = none) :
      Step loop ⟨.returning, work, frame :: frames, steps⟩
        ⟨.returning, loop.release frame.held before, frames, steps⟩

/-- What a turn can do: it goes on, the loop halts, or the last frame cannot take its move back. -/
inductive Turns (loop : FrameLoop Work Held Done) (config : LoopState Work Held Done) :
    LoopTurn Work Held Done → Prop where
  | on {next : LoopState Work Held Done} (step : loop.Step config next) :
      Turns loop config (.on next)
  | halt {outcome : Outcome Work} : Turns loop config (.halt outcome)
  | underflow {frame : Frame Held Done} {frames : List (Frame Held Done)}
      (last : config.frames = frame :: frames) (short : loop.takeBack? frame config.work = none) :
      Turns loop config .underflow

theorem turns_turn (loop : FrameLoop Work Held Done) (limit : Option Nat)
    (config : LoopState Work Held Done) : loop.Turns config (loop.turn limit config) := by
  obtain ⟨phase, work, frames, steps⟩ := config
  cases phase with
  | entering units =>
      simp only [turn, enter]
      cases overstep? limit (steps + 1) with
      | some cause => exact .halt
      | none =>
          cases loop.accepted work with
          | true => exact .halt
          | false =>
              simp only [Bool.false_eq_true, if_false]
              cases holds : loop.hold? work with
              | some kept => exact .on (.opens holds)
              | none => exact .on (.passes holds)
  | returning =>
      cases frames with
      | nil => exact .halt
      | cons frame frames =>
          simp only [turn, back]
          cases undone : loop.takeBack? frame work with
          | none => exact .underflow rfl undone
          | some before =>
              simp only
              cases advanced : loop.advance? frame before with
              | some made => exact .on (.advances undone advanced)
              | none => exact .on (.closes undone advanced)

/-- Each frame can take back the move that led on from it, and stands then over the working state
for which it was opened. -/
inductive Kept (loop : FrameLoop Work Held Done) (stands : Frame Held Done → Work → Prop) :
    List Work → Work → List (Frame Held Done) → Prop where
  | nil {work : Work} : Kept loop stands [] work []
  | cons {opened : List Work} {work before : Work} {frame : Frame Held Done}
      {frames : List (Frame Held Done)} (undone : loop.takeBack? frame work = some before)
      (standing : stands frame before)
      (below : Kept loop stands opened (loop.release frame.held before) frames) :
      Kept loop stands (loop.release frame.held before :: opened) work (frame :: frames)

section Record

variable {config next : LoopState Work Held Done} {opened : List Work}

theorem record_of_longer (longer : config.frames.length < next.frames.length) :
    record config next opened = config.work :: opened :=
  if_pos longer

theorem record_of_same (same : next.frames.length = config.frames.length) :
    record config next opened = opened := by
  rw [record, if_neg (by omega), if_neg (by omega)]

theorem record_of_shorter (shorter : next.frames.length < config.frames.length) :
    record config next opened = opened.tail := by
  rw [record, if_neg (by omega), if_pos shorter]

end Record

/-- Whatever the loop comes to, its open frames were opened for some working states. -/
theorem exists_comes_of_runs {limit : Option Nat} {start : Work} {config : LoopState Work Held Done}
    (runs : loop.Runs limit (initial start) config) :
    ∃ opened, loop.Comes limit start opened config := by
  induction runs with
  | refl => exact ⟨[], .start⟩
  | tail _ turned induction =>
      obtain ⟨opened, comes⟩ := induction
      exact ⟨_, comes.turn turned⟩

/-- Every turn keeps what the frames keep, and it enters fitting working states only. -/
theorem Follows.kept_step (follows : loop.Follows space view fits stands)
    {config next : LoopState Work Held Done} {opened : List Work} (step : loop.Step config next)
    (kept : loop.Kept stands opened config.work config.frames)
    (fit : ∀ units, config.phase = .entering units → fits config.work) :
    loop.Kept stands (record config next opened) next.work next.frames ∧
      ∀ units, next.phase = .entering units → fits next.work := by
  cases step with
  | @opens units _ work before held frames holds =>
      obtain ⟨released, standing⟩ := follows.opens (fit _ rfl) holds
      rw [record_of_longer]
      · refine ⟨?_, fun _ entering => nomatch entering⟩
        subst released
        exact .cons rfl (standing units) kept
      · exact Nat.lt_succ_self _
  | passes dead =>
      rw [record_of_same]
      · exact ⟨kept, fun _ entering => nomatch entering⟩
      · rfl
  | @advances _ work before frame frames made undone advanced =>
      rw [record_of_same]
      · cases kept with
        | cons again standing below =>
            rw [undone] at again
            cases again
            obtain ⟨_, _, mirrors⟩ := follows.exists_mirrors standing advanced
            have undone : loop.takeBack? (frame.advanced made) made.work = some before :=
              mirrors.undone
            exact ⟨.cons undone mirrors.standing below, fun _ _ => mirrors.fit⟩
      · rfl
  | closes undone stuck =>
      rw [record_of_shorter]
      · cases kept with
        | cons again standing below =>
            rw [undone] at again
            cases again
            exact ⟨below, fun _ entering => nomatch entering⟩
      · exact Nat.lt_succ_self _

theorem Follows.kept_of_comes (follows : loop.Follows space view fits stands) {limit : Option Nat}
    {start : Work} (fit : fits start) {opened : List Work} {config : LoopState Work Held Done}
    (comes : loop.Comes limit start opened config) :
    loop.Kept stands opened config.work config.frames ∧
      ∀ units, config.phase = .entering units → fits config.work := by
  induction comes with
  | start => exact ⟨.nil, fun _ _ => fit⟩
  | @turn _ config _ _ turned induction =>
      have turns := loop.turns_turn limit config
      rw [turned] at turns
      cases turns with
      | on step => exact follows.kept_step step induction.1 induction.2

/-- What holds of a loop that searches by value and takes back what it does. It halts as the search
by value, no move is taken back from a working state that does not hold what the move added, and
when a frame is closed the loop goes on with the working state for which it was opened. -/
structure RollsBack (loop : FrameLoop Work Held Done) (limit : Option Nat)
    (view : Work → Nat → State) (start : Work) (visited : Visited State) : Prop where
  halts : ∃ outcome, loop.Halts limit (initial start) outcome ∧ outcome.Matches view start visited
  ne_underflow : ∀ config, loop.Runs limit (initial start) config →
    loop.turn limit config ≠ .underflow
  closes : ∀ opened work frame frames steps before,
    loop.Comes limit start opened ⟨.returning, work, frame :: frames, steps⟩ →
      loop.takeBack? frame work = some before → loop.advance? frame before = none →
        ∃ entered rest, opened = entered :: rest ∧
          loop.turn limit ⟨.returning, work, frame :: frames, steps⟩ =
            .on ⟨.returning, entered, frames, steps⟩

/-- Where the search by value finds nothing the loop halts with the working state with which it
began. -/
theorem RollsBack.halts_at_start {limit : Option Nat} {start : Work} {visited : Visited State}
    {back first : State} (rollsBack : loop.RollsBack limit view start visited)
    (nothing : visited.verdict back = .exhausted first) :
    loop.Halts limit (initial start) ⟨.ok false, start, visited.steps⟩ := by
  obtain ⟨outcome, halts, same⟩ := rollsBack.halts
  cases same with
  | found => exact nomatch nothing
  | exhausted => exact halts
  | cut => exact nomatch nothing

theorem Follows.rollsBack (follows : loop.Follows space view fits stands)
    (descent : space.Descent) (limit : Option Nat) {start : Work} (fit : fits start) :
    loop.RollsBack limit view start (space.visit descent limit 0 (view start 0)) where
  halts := follows.exists_outcome descent limit fit
  ne_underflow := by
    intro config runs underflows
    obtain ⟨opened, comes⟩ := exists_comes_of_runs runs
    obtain ⟨kept, _⟩ := follows.kept_of_comes fit comes
    have turns := loop.turns_turn limit config
    rw [underflows] at turns
    cases turns with
    | underflow last short =>
        rw [last] at kept
        cases kept with
        | cons undone _ _ =>
            rw [short] at undone
            cases undone
  closes := by
    intro opened work frame frames steps before comes undone stuck
    obtain ⟨kept, _⟩ := follows.kept_of_comes fit comes
    rw [turn_close undone stuck]
    cases kept with
    | cons again _ _ =>
        rw [undone] at again
        cases again
        exact ⟨_, _, rfl, rfl⟩

end FrameLoop

end StrongLL
