/-!
# Climbing to a fixed point

A step is repeated as long as it makes a value larger. The values that the steps meet keep a
property under which sizes are bounded, so the climb ends; the bound itself is never computed, and
may be far too large to be.
-/

namespace StrongLL

set_option autoImplicit false

/-- Repeats `step` from `start` until the size of the value grows no more. -/
def climb {Value : Type} (size : Value → Nat) (step : Value → Value) (Fits : Value → Prop)
    (kept : ∀ value, Fits value → Fits (step value))
    (bounded : ∃ bound, ∀ value, Fits value → size value ≤ bound)
    (start : Value) (fits : Fits start) : Value :=
  let next := step start
  if size start < size next then climb size step Fits kept bounded next (kept start fits) else start
termination_by bounded.choose - size start
decreasing_by
  have limit := bounded.choose_spec (step start) (kept start fits)
  have grown : size start < size (step start) := by assumption
  omega

section

variable {Value : Type} (size : Value → Nat) (step : Value → Value) (Fits : Value → Prop)
  (kept : ∀ value, Fits value → Fits (step value))
  (bounded : ∃ bound, ∀ value, Fits value → size value ≤ bound)

/-- What the start has and every step keeps, the end has. -/
theorem climb_induction (Holds : Value → Prop)
    (step_holds : ∀ value, Holds value → Holds (step value)) (start : Value) (fits : Fits start)
    (start_holds : Holds start) : Holds (climb size step Fits kept bounded start fits) := by
  fun_induction climb with
  | case1 start fits next grown induction => exact induction (step_holds start start_holds)
  | case2 => exact start_holds

/-- At the end a further step makes the value no larger. -/
theorem size_step_climb_le (start : Value) (fits : Fits start) :
    size (step (climb size step Fits kept bounded start fits)) ≤
      size (climb size step Fits kept bounded start fits) := by
  fun_induction climb with
  | case1 start fits next grown induction => exact induction
  | case2 start fits next same => exact Nat.le_of_not_lt same

end

end StrongLL
