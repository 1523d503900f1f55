import TapeStepper.Proofs.Moves
import Mathlib.Logic.Function.Iterate

namespace TapeStepper

/-- One step further, with no clock. A run that has halted stays as it is. -/
def Progress.next (rules : Rules) : Progress → Progress
  | running machine => machine.step rules false
  | halted store outcome => halted store outcome

def Progress.after (rules : Rules) (count : Nat) (progress : Progress) : Progress :=
  (Progress.next rules)^[count] progress

/-- The clock of a run that has no budget. -/
def never : Nat → Bool :=
  fun _ => false

namespace Progress

variable {rules : Rules} {progress : Progress} {store : Store} {outcome : Outcome}

@[simp]
theorem after_zero : progress.after rules 0 = progress := rfl

theorem after_succ_last (count : Nat) :
    progress.after rules (count + 1) = (progress.after rules count).next rules :=
  Function.iterate_succ_apply' _ _ _

theorem after_add (first second : Nat) :
    progress.after rules (first + second) = (progress.after rules first).after rules second := by
  rw [Nat.add_comm]
  exact Function.iterate_add_apply _ _ _ _

theorem after_running (machine : Machine) (count : Nat) :
    (running machine).after rules (count + 1) = (machine.step rules false).after rules count := rfl

@[simp]
theorem after_halted (count : Nat) : (halted store outcome).after rules count = halted store outcome :=
  Function.iterate_fixed rfl count

theorem after_halted_of_le {count more : Nat} (bound : count ≤ more)
    (ended : progress.after rules count = halted store outcome) :
    progress.after rules more = halted store outcome := by
  obtain ⟨rest, rfl⟩ := Nat.exists_eq_add_of_le bound
  rw [after_add, ended, after_halted]

theorem lt_of_running {count last : Nat} {machine : Machine}
    (stands : progress.after rules count = running machine)
    (ended : progress.after rules last = halted store outcome) : count < last := by
  rcases Nat.lt_or_ge count last with before | behind
  · exact before
  · cases stands.symm.trans (after_halted_of_le behind ended)

/-- A run ends in one way only. -/
theorem halted_unique {first second : Nat} {last : Store} {result : Outcome}
    (ended : progress.after rules first = halted store outcome)
    (again : progress.after rules second = halted last result) : last = store ∧ result = outcome := by
  have one := after_halted_of_le (Nat.le_add_right first second) ended
  have other := after_halted_of_le (Nat.le_add_left second first) again
  cases one.symm.trans other
  exact ⟨rfl, rfl⟩

/-- What holds at the start and passes to every next state holds all along. -/
theorem after_induction {motive : Progress → Prop} (start : motive progress)
    (step : ∀ before, motive before → motive (before.next rules)) (count : Nat) :
    motive (progress.after rules count) := by
  induction count with
  | zero => exact start
  | succ count ih =>
    rw [after_succ_last]
    exact step _ ih

theorem after_of_finish {fuel steps : Nat} {halt : Halt}
    (run : progress.finish rules never fuel steps = some halt) :
    progress.after rules fuel = halted halt.store halt.outcome := by
  induction fuel generalizing steps progress with
  | zero =>
    cases progress with
    | halted store outcome =>
      rw [finish] at run
      cases run
      rfl
    | running machine => simp [finish] at run
  | succ fuel ih =>
    cases progress with
    | halted store outcome =>
      rw [finish] at run
      cases run
      exact after_halted _
    | running machine => exact ih run

theorem finish_of_after {fuel : Nat} (steps : Nat)
    (ended : progress.after rules fuel = halted store outcome) :
    ∃ total, progress.finish rules never fuel steps = some ⟨total, store, outcome⟩ := by
  induction fuel generalizing steps progress with
  | zero =>
    obtain rfl : progress = halted store outcome := ended
    exact ⟨steps, by rw [finish]⟩
  | succ fuel ih =>
    cases progress with
    | halted first last =>
      rw [after_halted] at ended
      cases ended
      exact ⟨steps, by rw [finish]⟩
    | running machine => exact ih (steps + 1) ended

end Progress

theorem Machine.enter_never (machine : Machine) : machine.enter never = .running machine := by
  have punctual : (List.range machine.stack.depth).find? never = none := by simp [never]
  rw [enter, punctual]

theorem Machine.run_never (rules : Rules) (fuel : Nat) (machine : Machine) :
    machine.run rules never fuel =
      (Progress.running machine).finish rules never fuel machine.stack.depth := by
  rw [run, enter_never]

/-- Without a budget the fuel decides only whether the run comes to its end. -/
theorem Machine.run_never_iff {rules : Rules} {fuel : Nat} {machine : Machine} {store : Store}
    {outcome : Outcome} :
    (∃ total, machine.run rules never fuel = some ⟨total, store, outcome⟩) ↔
      (Progress.running machine).after rules fuel = .halted store outcome := by
  rw [run_never]
  constructor
  · rintro ⟨total, run⟩
    exact Progress.after_of_finish run
  · exact Progress.finish_of_after _

end TapeStepper
