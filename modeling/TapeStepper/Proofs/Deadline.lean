import TapeStepper.Proofs.Punctual
import TapeStepper.Proofs.Transparency
import Mathlib.Data.Nat.Find

namespace TapeStepper

/-- The next step of the machine comes to the start of a body: it enters a loop or a function, or it
repeats a loop. Only there a step asks the clock. -/
inductive Machine.Arrives (rules : Rules) (machine : Machine) : Prop
  | entersLoop {opens body closes next} : machine.stack.inner.rest = .loop opens body closes next →
      machine.store.value ≠ 0 → rules.skips body closes = false → Arrives rules machine
  | calls {offset next body} : machine.stack.inner.rest = .call offset next →
      machine.store.functions.get? machine.store.value = some body →
      machine.stack.depth < depthLimit → Arrives rules machine
  | repeatsLoop : machine.stack.inner.rest = .done → machine.store.value ≠ 0 → Arrives rules machine

/-- The machine runs an operator next: it is neither at the end of a body nor does it pause. -/
structure Machine.Runs (rules : Rules) (machine : Machine) : Prop where
  inside : machine.stack.inner.isOver = false
  free : machine.armed = true → rules.pausesAt machine.stack.inner.offset = false

/-- A question to the clock, with the store and the stack that the run without a clock has when it is
asked: first for each level on the way in, then whenever a step comes to the start of a body. -/
inductive Machine.Asks (rules : Rules) (machine : Machine) : Nat → Store → Stack → Prop
  | wayIn {level} : level < machine.stack.depth →
      Asks rules machine level machine.store (machine.stack.unwind (machine.stack.depth - 1 - level))
  | arrival {count before store stack} :
      (Progress.running machine).after rules count = .running before → before.Runs rules →
      before.Arrives rules →
      (Progress.running machine).after rules (count + 1) = .running ⟨store, stack, true⟩ →
      Asks rules machine (machine.stack.depth + count) store stack

namespace Machine

variable {rules : Rules} {machine : Machine} {store : Store} {stack : Stack}

/-- Where a step comes to the start of a body, the answer decides whether the run goes on. -/
theorem Arrives.exists_step (arrives : machine.Arrives rules) (runs : machine.Runs rules) :
    ∃ store stack, ∀ late, machine.step rules late = arrive late store stack := by
  have step (late : Bool) : machine.step rules late = machine.execute rules late :=
    step_of_execute runs.inside runs.free
  cases arrives with
  | entersLoop here nonzero enters =>
    exact ⟨_, _, fun late => (step late).trans (Executes.entersLoop here nonzero enters).execute_eq⟩
  | calls here bound room =>
    exact ⟨_, _, fun late => (step late).trans (Executes.calls here bound room).execute_eq⟩
  | repeatsLoop here nonzero =>
    exact ⟨_, _, fun late => (step late).trans (Executes.repeatsLoop here nonzero).execute_eq⟩

/-- A step that stops the run for the time asks the clock. -/
theorem arrives_of_overran {late : Bool}
    (overran : machine.step rules late = .halted store (.overran stack)) :
    machine.Runs rules ∧ machine.Arrives rules ∧ late = true := by
  obtain ⟨_, left⟩ | ⟨_, _, _, pauses⟩ | ⟨inside, free, executed⟩ := step_cases rules late machine
  · rw [left, leave] at overran
    split at overran <;> cases overran
  · cases pauses.symm.trans overran
  · have move := executes rules late machine
    rw [← executed, overran] at move
    refine ⟨⟨inside, free⟩, ?_⟩
    generalize ended : Progress.halted store (.overran stack) = progress at move
    cases move with
    | acts _ _ | skipsLoop _ _ | resetsCell _ _ _ | defines _ _ => cases ended
    | actFails _ _ | defineFails _ _ | callsNothing _ _ | callsTooDeep _ _ _ =>
      cases (Progress.halted.inj ended).2
    | endsLoop _ _ =>
      unfold leave at ended
      split at ended <;> cases ended
    | entersLoop here nonzero enters =>
      cases late with
      | false => cases ended
      | true => exact ⟨.entersLoop here nonzero enters, rfl⟩
    | calls here bound room =>
      cases late with
      | false => cases ended
      | true => exact ⟨.calls here bound room, rfl⟩
    | repeatsLoop here nonzero =>
      cases late with
      | false => cases ended
      | true => exact ⟨.repeatsLoop here nonzero, rfl⟩

/-- A step at which the clock is not asked, or says no, is the step without a clock. -/
theorem step_of_unasked {late : Bool}
    (unasked : machine.Runs rules → machine.Arrives rules → late = false) :
    machine.step rules late = machine.step rules false := by
  rcases machine.step_late_cases rules late with same | ⟨store, stack, overran⟩
  · exact same
  · obtain ⟨runs, arrives, yes⟩ := arrives_of_overran overran
    rw [unasked runs arrives]

/-- On the way in the clock is asked for one level after the other. -/
theorem enter_of_first {late : Nat → Bool} {level : Nat} (within : level < machine.stack.depth)
    (yes : late level = true) (first : ∀ earlier < level, late earlier = false) :
    machine.enter late =
      .halted machine.store (.overran (machine.stack.unwind (machine.stack.depth - 1 - level))) := by
  have found : (List.range machine.stack.depth).find? late = some level := by
    rw [List.find?_range_eq_some]
    exact ⟨yes, List.mem_range.mpr within, fun earlier before => by simp [first earlier before]⟩
  rw [enter, found]

theorem enter_of_none {late : Nat → Bool} (none : ∀ level < machine.stack.depth, late level = false) :
    machine.enter late = .running machine := by
  have nothing : (List.range machine.stack.depth).find? late = Option.none := by
    rw [List.find?_range_eq_none]
    intro level within
    simp [none level within]
  rw [enter, nothing]

end Machine

namespace Progress

variable {rules : Rules} {late : Nat → Bool} {progress : Progress} {store : Store} {stack : Stack}

/-- A run that is never told that the time is up is the run without a clock. -/
theorem finish_of_unasked {fuel steps : Nat}
    (unasked : ∀ count before, progress.after rules count = running before → before.Runs rules →
      before.Arrives rules → late (steps + count) = false) :
    progress.finish rules late fuel steps = progress.finish rules never fuel steps := by
  induction fuel generalizing steps progress with
  | zero => cases progress <;> rfl
  | succ fuel ih =>
    cases progress with
    | halted last outcome => rfl
    | running machine =>
      have step : machine.step rules (late steps) = machine.step rules false :=
        Machine.step_of_unasked (unasked 0 machine rfl)
      rw [finish, finish, step]
      refine ih fun count before reached runs arrives => ?_
      have no := unasked (count + 1) before reached runs arrives
      rwa [Nat.add_comm count, ← Nat.add_assoc] at no

/-- The first time that the clock says yes, the run ends where the run without a clock arrives. -/
theorem finish_of_first {count steps : Nat} {before : Machine}
    (reached : progress.after rules count = running before) (runs : before.Runs rules)
    (arrives : before.Arrives rules) (yes : late (steps + count) = true)
    (first : ∀ earlier < count, ∀ machine, progress.after rules earlier = running machine →
      machine.Runs rules → machine.Arrives rules → late (steps + earlier) = false)
    (arrival : progress.after rules (count + 1) = running ⟨store, stack, true⟩) :
    progress.finish rules late (count + 1) steps =
      some ⟨steps + count + 1, store, .overran stack⟩ := by
  induction count generalizing steps progress with
  | zero =>
    obtain rfl : progress = running before := reached
    obtain ⟨last, final, step⟩ := arrives.exists_step runs
    obtain ⟨rfl, rfl⟩ : last = store ∧ final = stack := by
      rw [after_running, step false] at arrival
      cases arrival
      exact ⟨rfl, rfl⟩
    rw [Nat.add_zero] at yes
    rw [finish, step, yes]
    rfl
  | succ count ih =>
    cases progress with
    | halted last outcome =>
      rw [after_halted] at reached
      cases reached
    | running machine =>
      have step : machine.step rules (late steps) = machine.step rules false :=
        Machine.step_of_unasked (first 0 (Nat.succ_pos count) machine rfl)
      have shifted (place : Nat) : steps + 1 + place = steps + (place + 1) := by omega
      rw [finish, step, ← shifted count]
      rw [← shifted] at yes
      refine ih reached yes ?_ arrival
      intro earlier less other stands runs arrives
      rw [shifted]
      exact first (earlier + 1) (by omega) other stands runs arrives

end Progress

namespace Machine

variable {rules : Rules} {late : Nat → Bool} {machine : Machine} {store : Store} {stack : Stack}

theorem run_of_unasked (unasked : ∀ question store stack, machine.Asks rules question store stack →
    late question = false) (fuel : Nat) : machine.run rules late fuel = machine.run rules never fuel := by
  rw [run_never, run, enter_of_none fun level within => unasked _ _ _ (.wayIn within)]
  refine Progress.finish_of_unasked fun count before reached runs arrives => ?_
  obtain ⟨last, final, step⟩ := arrives.exists_step runs
  refine unasked _ last final (.arrival reached runs arrives ?_)
  rw [Progress.after_succ_last, reached]
  exact step false

/-- The first question that is answered yes ends the run. -/
theorem run_of_first {question : Nat} (asked : machine.Asks rules question store stack)
    (yes : late question = true)
    (first : ∀ earlier < question, ∀ store stack, machine.Asks rules earlier store stack →
      late earlier = false) :
    ∃ fuel total, machine.run rules late fuel = some ⟨total, store, .overran stack⟩ := by
  cases asked with
  | wayIn within =>
    have entered := enter_of_first within yes fun earlier less =>
      first earlier less _ _ (.wayIn (Nat.lt_trans less within))
    refine ⟨0, machine.stack.depth, ?_⟩
    rw [run, entered, Progress.finish]
  | @arrival count before _ _ reached runs arrives arrival =>
    have entered := enter_of_none fun level within =>
      first level (by omega) _ _ (.wayIn within)
    have ended := Progress.finish_of_first reached runs arrives yes ?_ arrival
    · refine ⟨count + 1, machine.stack.depth + count + 1, ?_⟩
      rw [run, entered, ended]
    · intro earlier less other stands runs arrives
      obtain ⟨last, final, step⟩ := arrives.exists_step runs
      refine first _ (by omega) last final (.arrival stands runs arrives ?_)
      rw [Progress.after_succ_last, stands]
      exact step false

theorem Asks.store_eq {question : Nat} (asked : machine.Asks rules question store stack)
    (before : question < machine.stack.depth) : store = machine.store := by
  cases asked with
  | wayIn _ => rfl
  | arrival _ _ _ _ => omega

/-- The fuel decides only whether a run comes to its end. -/
theorem run_unique {fuel more : Nat} {halt last : Halt} (ran : machine.run rules late fuel = some halt)
    (ranToo : machine.run rules late more = some last) : last = halt := by
  have both := Progress.finish_mono (Nat.le_max_left fuel more) ran
  have bothToo := Progress.finish_mono (Nat.le_max_right fuel more) ranToo
  exact Option.some.inj (bothToo.symm.trans both)

theorem store_of_takeUp? {block : Block} {point : Option ResumePoint}
    (taken : takeUp? block store point = some machine) : machine.store = store := by
  cases point with
  | none =>
    cases taken
    rfl
  | some point =>
    obtain ⟨stack, _, rfl⟩ := Option.map_eq_some_iff.mp taken
    rfl

end Machine

/-- The first question to the clock that is answered yes, in a run of the machine. -/
structure Machine.StopsAt (rules : Rules) (late : Nat → Bool) (machine : Machine) (question : Nat)
    (store : Store) (stack : Stack) : Prop where
  asked : machine.Asks rules question store stack
  yes : late question = true
  first : ∀ earlier < question, ∀ store stack, machine.Asks rules earlier store stack →
    late earlier = false

theorem Machine.StopsAt.exists_run {rules : Rules} {late : Nat → Bool} {machine : Machine}
    {question : Nat} {store : Store} {stack : Stack}
    (stops : machine.StopsAt rules late question store stack) :
    ∃ fuel total, machine.run rules late fuel = some ⟨total, store, .overran stack⟩ :=
  run_of_first stops.asked stops.yes stops.first

theorem Machine.unasked_or_stopsAt (rules : Rules) (late : Nat → Bool) (machine : Machine) :
    (∀ question store stack, machine.Asks rules question store stack → late question = false) ∨
      ∃ question store stack, machine.StopsAt rules late question store stack := by
  classical
  by_cases some : ∃ question store stack, machine.Asks rules question store stack ∧ late question = true
  · right
    obtain ⟨store, stack, asked, yes⟩ := Nat.find_spec some
    refine ⟨Nat.find some, store, stack, asked, yes, ?_⟩
    intro earlier less last final askedToo
    exact eq_false_of_ne_true fun yesToo => Nat.find_min some less ⟨last, final, askedToo, yesToo⟩
  · left
    intro question store stack asked
    exact eq_false_of_ne_true fun yes => some ⟨question, store, stack, asked, yes⟩

/-- A step over a script begins with whatever earlier steps have left behind, at the start or where the
last of them has paused, and obeys any rules. Whatever the clock answers, either it never says yes
when it is asked, and the step is the one without a clock; or the step ends at the first yes as a
failure that cannot be resumed, with the store that the step without a clock has at that question. On
the way in that is still the store from before the step. -/
theorem deadline_only_truncates (source : Text) (block : Block) (parsed : parse source = .ok block)
    (store : Store) (point : Option ResumePoint) (carried : Carried block store point)
    (rules : Rules) (late : Nat → Bool) :
    ∃ machine, Machine.takeUp? block store point = some machine ∧
      ((∀ question last stack, machine.Asks rules question last stack → late question = false) ∧
          (∀ fuel, machine.run rules late fuel = machine.run rules never fuel) ∨
        ∃ question last stack, machine.StopsAt rules late question last stack ∧
          (question < machine.stack.depth → last = store) ∧
          (∃ fuel halt, machine.run rules late fuel = some halt) ∧
          ∀ fuel halt, machine.run rules late fuel = some halt →
            halt.store = last ∧ halt.outcome.resumePoint? = none ∧
            ∀ elapsed, (Result.ofOutcome block elapsed halt.store halt.outcome).exitCode =
              (ExitCode.ofFlags [.failure, .thresholdExceeded]).withOutput last.output.chars) := by
  have whole := tidy_of_parse parsed
  obtain ⟨machine, _, taken, _, _⟩ := (carried.resumable whole).exists_machine
  refine ⟨machine, taken, ?_⟩
  rcases machine.unasked_or_stopsAt rules late with unasked | ⟨question, last, stack, stops⟩
  · exact .inl ⟨unasked, Machine.run_of_unasked unasked⟩
  · obtain ⟨enough, total, ran⟩ := stops.exists_run
    refine .inr ⟨question, last, stack, stops, ?_, ⟨enough, _, ran⟩, ?_⟩
    · intro before
      rw [stops.asked.store_eq before, Machine.store_of_takeUp? taken]
    · intro fuel halt ranToo
      obtain rfl := Machine.run_unique ran ranToo
      exact ⟨rfl, rfl, fun _ => rfl⟩

/-- A step that is taken up in the body of a loop and stopped where the loop repeats. -/
theorem deadline_only_truncates_in_a_repeated_loop :
    ∃ block store point machine halt, parse "++[-]".toList = .ok block ∧
      Carried block store (some point) ∧ point.offset = 3 ∧
      Machine.takeUp? block store (some point) = some machine ∧ machine.stack.depth = 2 ∧
      machine.run ⟨.short, .empty, true⟩ (· == 3) 9 = some halt ∧ halt.outcome.resumePoint? = none ∧
      (Result.ofOutcome block 0 halt.store halt.outcome).exitCode =
        (ExitCode.ofFlags [.failure, .thresholdExceeded]).withOutput [] ∧
      halt.store.operations = store.operations + 2 := by
  have parsed : parse "++[-]".toList =
      .ok (.act 0 .plus (.act 1 .plus (.loop 2 (.act 3 .minus .done) 4 .done))) := rfl
  have carried := @Carried.step (.act 0 .plus (.act 1 .plus (.loop 2 (.act 3 .minus .done) 4 .done)))
    _ none _ ⟨.short, .ofList [3], true⟩ never 9 _ (.start (.blank 1) []) rfl rfl
  obtain ⟨machine, taken, ⟨_, same⟩ | ⟨_, last, _, _, _, _, stopped⟩⟩ :=
    deadline_only_truncates _ _ parsed _ _ carried ⟨.short, .empty, true⟩ (· == 3)
  · obtain rfl := Option.some.inj taken
    have differs := congrArg (Option.map Halt.steps) (same 9)
    cases differs
  · obtain rfl := Option.some.inj taken
    obtain ⟨rfl, final, flags⟩ := stopped 9 _ rfl
    exact ⟨_, _, _, _, _, parsed, carried, rfl, rfl, rfl, rfl, final, flags 0, rfl⟩

end TapeStepper
