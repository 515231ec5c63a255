import StrongLL.Recognizer.TableMachine

/-!
# The machine turn by turn

`Table.run` answers for a whole input. Here the machine is a loop over its state: a turn looks at
the top of the stack and either answers or goes on with another state. Nothing bounds the loop. The
main statement is that a run that was not given up for want of patience is what the loop answers, so
that statements about single turns carry over to runs.
-/

namespace StrongLL

set_option autoImplicit false

/-- What a run ends with. -/
abbrev Answer := Except ParseError (List AppliedRule)

/-- The state of the machine between two turns, with the rules applied so far. -/
structure Machine where
  position : Nat
  stack : List Symbol
  rest : Text
  applied : List AppliedRule
deriving DecidableEq

/-- What a turn leads to. -/
inductive Turn where
  | on (next : Machine)
  | halt (answer : Answer)

/-- The machine before an input, with a start symbol on the stack. -/
def Machine.initial (start : NonTerminal) (input : Text) : Machine :=
  ⟨0, [.nonterminal start], input, []⟩

/-- The position that a rejection blames. A search that found nothing blames none. -/
def ParseError.position? : ParseError → Option Nat
  | .unexpectedEnd position _ => some position
  | .mismatch position _ _ => some position
  | .unrecognizedLookahead position _ _ => some position
  | .trailingInput position => some position
  | .noDerivation => none
  | .stepLimitExceeded _ => none

/-- The stack that an expansion stops at. -/
def Pause.stack (pause : Pause) : List Symbol :=
  match pause.expected with
  | none => []
  | some (c, below) => .terminal (.char c) :: below

namespace Table

/-- One turn of the loop. -/
def turn (table : Table) (machine : Machine) : Turn :=
  match machine.stack with
  | [] =>
      match machine.rest with
      | [] => .halt (.ok machine.applied)
      | _ :: _ => .halt (.error (.trailingInput machine.position))
  | .terminal .epsilon :: stack => .on { machine with stack }
  | .terminal (.char c) :: stack =>
      match machine.rest with
      | [] => .halt (.error (.unexpectedEnd machine.position (.char c)))
      | found :: rest =>
          if c = found then .on { machine with position := machine.position + 1, stack, rest }
          else .halt (.error (.mismatch machine.position (.char c) found))
  | .nonterminal n :: stack =>
      match table.select? n (table.upcoming machine.rest) with
      | none =>
          .halt (.error (.unrecognizedLookahead machine.position n (table.upcoming machine.rest)))
      | some selected =>
          .on
            { machine with
              stack := selected.rule.body ++ stack
              applied := machine.applied ++ [selected] }

/-- The answer of the loop, if it halts within a number of turns. -/
def loop (table : Table) : Nat → Machine → Option Answer
  | 0, _ => none
  | turns + 1, machine =>
      match table.turn machine with
      | .on next => table.loop turns next
      | .halt answer => some answer

/-- The loop halts with an answer. -/
def Halts (table : Table) (machine : Machine) (answer : Answer) : Prop :=
  ∃ turns, table.loop turns machine = some answer

/-- What a turn that goes on does: it drops an epsilon, reads a character or expands a nonterminal. -/
inductive Step (table : Table) : Machine → Machine → Prop where
  | drop {position : Nat} {stack : List Symbol} {rest : Text} {applied : List AppliedRule} :
      Step table ⟨position, .terminal .epsilon :: stack, rest, applied⟩
        ⟨position, stack, rest, applied⟩
  | read {position : Nat} {c : Char} {stack : List Symbol} {rest : Text}
      {applied : List AppliedRule} :
      Step table ⟨position, .terminal (.char c) :: stack, c :: rest, applied⟩
        ⟨position + 1, stack, rest, applied⟩
  | expand {position : Nat} {n : NonTerminal} {stack : List Symbol} {rest : Text}
      {applied : List AppliedRule} {selected : AppliedRule}
      (found : table.select? n (table.upcoming rest) = some selected) :
      Step table ⟨position, .nonterminal n :: stack, rest, applied⟩
        ⟨position, selected.rule.body ++ stack, rest, applied ++ [selected]⟩

/-- What a turn finds when it rejects. -/
inductive Rejects (table : Table) : Machine → ParseError → Prop where
  | trailing {position : Nat} {found : Char} {rest : Text} {applied : List AppliedRule} :
      Rejects table ⟨position, [], found :: rest, applied⟩ (.trailingInput position)
  | ended {position : Nat} {c : Char} {stack : List Symbol} {applied : List AppliedRule} :
      Rejects table ⟨position, .terminal (.char c) :: stack, [], applied⟩
        (.unexpectedEnd position (.char c))
  | differs {position : Nat} {c found : Char} {stack : List Symbol} {rest : Text}
      {applied : List AppliedRule} (different : c ≠ found) :
      Rejects table ⟨position, .terminal (.char c) :: stack, found :: rest, applied⟩
        (.mismatch position (.char c) found)
  | unknown {position : Nat} {n : NonTerminal} {stack : List Symbol} {rest : Text}
      {applied : List AppliedRule} (absent : table.select? n (table.upcoming rest) = none) :
      Rejects table ⟨position, .nonterminal n :: stack, rest, applied⟩
        (.unrecognizedLookahead position n (table.upcoming rest))

variable {table : Table} {machine : Machine} {answer : Answer} {cause : ParseError}

theorem turn_of_step {next : Machine} (step : table.Step machine next) :
    table.turn machine = .on next := by
  cases step with
  | drop => rfl
  | read => simp only [turn, if_true]
  | expand found => simp only [turn, found]

theorem step_of_turn {next : Machine} (turned : table.turn machine = .on next) :
    table.Step machine next := by
  obtain ⟨position, stack, rest, applied⟩ := machine
  match stack, rest with
  | [], [] => exact nomatch turned
  | [], _ :: _ => exact nomatch turned
  | .terminal .epsilon :: stack, rest =>
      cases turned
      exact .drop
  | .terminal (.char c) :: stack, [] => exact nomatch turned
  | .terminal (.char c) :: stack, found :: rest =>
      by_cases same : c = found
      · simp only [turn, same, if_true] at turned
        cases turned
        exact same ▸ .read
      · simp only [turn, same, if_false] at turned
        exact nomatch turned
  | .nonterminal n :: stack, rest =>
      cases selects : table.select? n (table.upcoming rest) with
      | none =>
          simp only [turn, selects] at turned
          exact nomatch turned
      | some selected =>
          simp only [turn, selects] at turned
          cases turned
          exact .expand selects

theorem turn_of_rejects (rejects : table.Rejects machine cause) :
    table.turn machine = .halt (.error cause) := by
  cases rejects with
  | trailing => rfl
  | ended => rfl
  | differs different => simp only [turn, different, if_false]
  | unknown absent => simp only [turn, absent]

theorem Rejects.position_eq (rejects : table.Rejects machine cause) :
    cause.position? = some machine.position := by
  cases rejects <;> rfl

/-- A turn that halts accepts with nothing left on the stack or in the input, or it rejects. -/
theorem halt_cases (halted : table.turn machine = .halt answer) :
    (machine.stack = [] ∧ machine.rest = [] ∧ answer = .ok machine.applied) ∨
      ∃ cause, answer = .error cause ∧ table.Rejects machine cause := by
  obtain ⟨position, stack, rest, applied⟩ := machine
  match stack, rest with
  | [], [] =>
      cases halted
      exact .inl ⟨rfl, rfl, rfl⟩
  | [], _ :: _ =>
      cases halted
      exact .inr ⟨_, rfl, .trailing⟩
  | .terminal .epsilon :: stack, rest => exact nomatch halted
  | .terminal (.char c) :: stack, [] =>
      cases halted
      exact .inr ⟨_, rfl, .ended⟩
  | .terminal (.char c) :: stack, found :: rest =>
      by_cases same : c = found
      · simp only [turn, same, if_true] at halted
        exact nomatch halted
      · simp only [turn, same, if_false] at halted
        cases halted
        exact .inr ⟨_, rfl, .differs same⟩
  | .nonterminal n :: stack, rest =>
      cases selects : table.select? n (table.upcoming rest) with
      | none =>
          simp only [turn, selects] at halted
          cases halted
          exact .inr ⟨_, rfl, .unknown selects⟩
      | some selected =>
          simp only [turn, selects] at halted
          exact nomatch halted

theorem rejects_of_turn (halted : table.turn machine = .halt (.error cause)) :
    table.Rejects machine cause := by
  rcases halt_cases halted with ⟨_, _, accepted⟩ | ⟨_, same, rejects⟩
  · exact nomatch accepted
  · cases same
    exact rejects

theorem loop_of_on {next : Machine} (turned : table.turn machine = .on next) (turns : Nat) :
    table.loop (turns + 1) machine = table.loop turns next := by
  rw [loop, turned]

theorem loop_of_halt (halted : table.turn machine = .halt answer) (turns : Nat) :
    table.loop (turns + 1) machine = some answer := by
  rw [loop, halted]

/-- What every step keeps holds where the loop halts. -/
theorem Halts.exists_last {answer : Answer} (Holds : Machine → Prop)
    (kept : ∀ machine next, Holds machine → table.Step machine next → Holds next)
    (holds : Holds machine) (halts : table.Halts machine answer) :
    ∃ last, Holds last ∧ table.turn last = .halt answer := by
  obtain ⟨turns, answered⟩ := halts
  induction turns generalizing machine with
  | zero => exact nomatch answered
  | succ turns induction =>
      cases turned : table.turn machine with
      | on next =>
          rw [loop_of_on turned] at answered
          exact induction (kept machine next holds (step_of_turn turned)) answered
      | halt early =>
          rw [loop_of_halt turned] at answered
          cases answered
          exact ⟨machine, holds, turned⟩

theorem Halts.of_halt (halted : table.turn machine = .halt answer) : table.Halts machine answer :=
  ⟨1, loop_of_halt halted 0⟩

theorem Halts.of_on {next : Machine} (turned : table.turn machine = .on next)
    (halts : table.Halts next answer) :
    table.Halts machine answer := by
  obtain ⟨turns, answered⟩ := halts
  exact ⟨turns + 1, (loop_of_on turned turns).trans answered⟩

theorem Halts.later {next : Machine} (turned : table.turn machine = .on next)
    (halts : table.Halts machine answer) :
    table.Halts next answer := by
  obtain ⟨turns, answered⟩ := halts
  cases turns with
  | zero => exact nomatch answered
  | succ turns => exact ⟨turns, (loop_of_on turned turns).symm.trans answered⟩

theorem Halts.answer_eq (halted : table.turn machine = .halt answer) {other : Answer}
    (halts : table.Halts machine other) : other = answer := by
  obtain ⟨turns, answered⟩ := halts
  cases turns with
  | zero => exact nomatch answered
  | succ turns =>
      rw [loop_of_halt halted] at answered
      exact (Option.some.inj answered).symm

theorem Halts.unique {other : Answer} (first : table.Halts machine answer)
    (second : table.Halts machine other) : answer = other := by
  obtain ⟨turns, answered⟩ := first
  induction turns generalizing machine with
  | zero => exact nomatch answered
  | succ turns induction =>
      cases turned : table.turn machine with
      | on next =>
          rw [loop_of_on turned] at answered
          exact induction (second.later turned) answered
      | halt early =>
          rw [loop_of_halt turned] at answered
          rw [second.answer_eq turned]
          exact (Option.some.inj answered).symm

section Runs

variable {position : Nat} {lookahead : Tuple} {steps : Nat} {stack : List Symbol} {rest : Text}
  {done : List AppliedRule}

theorem halts_of_expand {pause : Pause}
    (expanded : table.expand position (table.upcoming rest) steps stack = .ok pause)
    (halts : table.Halts ⟨position, pause.stack, rest, done ++ pause.applied⟩ answer) :
    table.Halts ⟨position, stack, rest, done⟩ answer := by
  fun_induction Table.expand generalizing done pause with
  | case1 =>
      cases expanded
      simpa [Pause.stack] using halts
  | case2 steps c stack =>
      cases expanded
      simpa [Pause.stack] using halts
  | case3 => exact nomatch expanded
  | case4 steps stack induction => exact .of_on rfl (induction expanded halts)
  | case5 => exact nomatch expanded
  | case6 steps n stack selected found induction =>
      cases inner : table.expand position (table.upcoming rest) steps
        (selected.rule.body ++ stack) with
      | error cause => rw [inner] at expanded; exact nomatch expanded
      | ok pause =>
          rw [inner] at expanded
          cases expanded
          apply Halts.of_on (turn_of_step (.expand found))
          apply induction inner
          rw [List.append_assoc]
          exact halts

theorem halts_of_expand_error {cause : ParseError}
    (expanded : table.expand position (table.upcoming rest) steps stack = .error cause)
    (patient : cause ≠ .noDerivation) :
    table.Halts ⟨position, stack, rest, done⟩ (.error cause) := by
  fun_induction Table.expand generalizing done with
  | case1 => exact nomatch expanded
  | case2 => exact nomatch expanded
  | case3 =>
      cases expanded
      exact absurd rfl patient
  | case4 steps stack induction => exact .of_on rfl (induction expanded)
  | case5 steps n stack absent =>
      cases expanded
      apply Halts.of_halt
      simp only [turn, absent]
  | case6 steps n stack selected found induction =>
      have inner : table.expand position (table.upcoming rest) steps (selected.rule.body ++ stack) =
          .error cause := by
        cases inner : table.expand position (table.upcoming rest) steps
          (selected.rule.body ++ stack) with
        | ok pause => rw [inner] at expanded; exact nomatch expanded
        | error other => rw [inner] at expanded; exact expanded
      exact .of_on (turn_of_step (.expand found)) (induction inner)

/-- A run that was not given up is what the loop answers. -/
theorem halts_of_run (patient : table.run position stack rest ≠ .error .noDerivation)
    (done : List AppliedRule) :
    table.Halts ⟨position, stack, rest, done⟩
      ((table.run position stack rest).map (done ++ ·)) := by
  induction rest generalizing position stack done with
  | nil =>
      simp only [run] at patient ⊢
      cases settled : table.settle position stack [] with
      | error cause =>
          simp only [settled] at patient ⊢
          exact halts_of_expand_error settled fun same => patient (same ▸ rfl)
      | ok pause =>
          apply halts_of_expand settled
          match pause with
          | ⟨applied, none⟩ => exact .of_halt rfl
          | ⟨applied, some (c, below)⟩ => exact .of_halt rfl
  | cons found rest induction =>
      simp only [run] at patient ⊢
      cases settled : table.settle position stack (found :: rest) with
      | error cause =>
          simp only [settled] at patient ⊢
          exact halts_of_expand_error settled fun same => patient (same ▸ rfl)
      | ok pause =>
          simp only [settled] at patient ⊢
          apply halts_of_expand settled
          match pause with
          | ⟨applied, none⟩ => exact .of_halt rfl
          | ⟨applied, some (c, below)⟩ =>
              by_cases same : c = found
              · simp only [same, if_true] at patient ⊢
                have later : table.run (position + 1) below rest ≠ .error .noDerivation :=
                  fun given => patient (by rw [given]; rfl)
                have halts := induction later (done ++ applied)
                apply Halts.of_on (turn_of_step .read)
                cases answered : table.run (position + 1) below rest with
                | error cause => rw [answered] at halts; exact halts
                | ok more => rw [answered] at halts; simpa [Except.map] using halts
              · simp only [same, if_false]
                apply Halts.of_halt
                simp only [turn, Pause.stack, same, if_false]
                rfl

end Runs

end Table

end StrongLL
