import TapeStepper.Proofs.Shortcut

namespace TapeStepper

/-- Where the plain run stands when a run has ended like this. -/
def Outcome.progress (store : Store) : Outcome → Progress
  | paused stack => .running ⟨store, stack, true⟩
  | finished => .halted store .finished
  | failed fault stack => .halted store (.failed fault stack)
  | overran stack => .halted store (.overran stack)

/-- A machine that pauses at the next breakpoint, or a run that did not end at one. -/
def Progress.Ready : Progress → Prop
  | running machine => machine.armed = true
  | halted _ outcome => ∀ stack, outcome ≠ .paused stack

/-- On its way from step `start` on, the plain run comes at step `stop` for the
first time to its end or to one of the breakpoints. -/
structure Progress.StopsFirst (rules : Rules) (origin : Progress) (start stop : Nat) : Prop where
  ordered : start ≤ stop
  stops : (origin.after (.plain rules.mode) stop).Stops rules.breakpoints
  first : ∀ between, start ≤ between → between < stop →
    ¬ (origin.after (.plain rules.mode) between).Stops rules.breakpoints

theorem Outcome.progress_eq_halted {store last : Store} {outcome result : Outcome}
    (ended : outcome.progress store = .halted last result) : last = store ∧ result = outcome := by
  cases outcome <;> cases ended
  all_goals exact ⟨rfl, rfl⟩

theorem Progress.Ready.arm_eq {progress : Progress} (ready : progress.Ready) :
    progress.arm = progress := by
  cases progress with
  | running machine => rw [arm, Machine.arm_eq ready]
  | halted store outcome => rfl

theorem Progress.Ready.outcome_progress {store : Store} {outcome : Outcome}
    (ready : (halted store outcome).Ready) : outcome.progress store = halted store outcome := by
  cases outcome with
  | paused stack => exact absurd rfl (ready stack)
  | finished | failed _ _ | overran _ => rfl

namespace Machine

variable {rules : Rules} {late : Bool} {machine : Machine}

theorem ready_arrive {store : Store} {stack : Stack} : (arrive late store stack).Ready := by
  cases late with
  | true => exact fun _ => by simp
  | false => rfl

theorem ready_leave {store : Store} : (machine.leave store true).Ready := by
  unfold leave
  split
  · rfl
  · exact fun _ => by simp

/-- An operator neither pauses nor disarms. -/
theorem Executes.ready {progress : Progress} (move : machine.Executes rules late progress) :
    progress.Ready := by
  cases move with
  | acts _ _ | skipsLoop _ _ | resetsCell _ _ _ | defines _ _ => rfl
  | actFails _ _ | defineFails _ _ | callsNothing _ _ | callsTooDeep _ _ _ => exact fun _ => by simp
  | entersLoop _ _ _ | calls _ _ _ | repeatsLoop _ _ => exact ready_arrive
  | endsLoop _ _ => exact ready_leave

theorem ready_step (late : Bool) (armed : machine.armed = true)
    (free : ¬ machine.Meets rules.breakpoints) : (machine.step rules late).Ready := by
  cases atEnd : machine.stack.inner.isOver with
  | true =>
    rw [step_of_over atEnd, armed]
    exact ready_leave
  | false =>
    have unmarked := eq_false_of_ne_true fun marked => free ⟨atEnd, marked⟩
    rw [step_of_execute atEnd fun _ => unmarked]
    exact (executes rules late machine).ready

/-- A step that pauses has met a breakpoint and changes nothing. -/
theorem of_step_paused {store : Store} {stack : Stack}
    (pauses : machine.step rules late = .halted store (.paused stack)) :
    store = machine.store ∧ stack = machine.stack ∧ machine.armed = true ∧
      machine.Meets rules.breakpoints := by
  obtain ⟨_, left⟩ | ⟨inside, armed, marked, here⟩ | ⟨_, _, executed⟩ := step_cases rules late machine
  · rw [left, leave] at pauses
    split at pauses <;> cases pauses
  · cases here.symm.trans pauses
    exact ⟨rfl, rfl, armed, inside, marked⟩
  · have ready := (executes rules late machine).ready
    rw [← executed, pauses] at ready
    exact absurd rfl (ready stack)

/-- One step of a machine that does not pause takes the plain run past states that
are no stops. -/
theorem step_on {origin : Progress} {start : Nat}
    (place : origin.after (.plain rules.mode) start = .running machine.arm)
    (free : machine.armed = true → ¬ machine.Meets rules.breakpoints) :
    ∃ later, start < later ∧
      origin.after (.plain rules.mode) later = (machine.step rules false).arm ∧
      ∀ between, start < between → between < later →
        ¬ (origin.after (.plain rules.mode) between).Stops rules.breakpoints := by
  obtain ⟨count, reached, between⟩ := step_plain free
  refine ⟨start + (count + 1), by omega, ?_, ?_⟩
  · rw [Progress.after_add, place, reached]
  · intro step after before
    obtain ⟨more, rfl⟩ := Nat.exists_eq_add_of_lt after
    rw [Nat.add_assoc, Progress.after_add, place]
    exact between (more + 1) (by omega) (by omega)

theorem step_past {origin : Progress} {start : Nat}
    (place : origin.after (.plain rules.mode) start = .running machine)
    (armed : machine.armed = true) (free : ¬ machine.Meets rules.breakpoints) :
    ∃ later, start < later ∧ origin.after (.plain rules.mode) later = machine.step rules false ∧
      ∀ between, start ≤ between → between < later →
        ¬ (origin.after (.plain rules.mode) between).Stops rules.breakpoints := by
  obtain ⟨later, ordered, reached, between⟩ :=
    step_on (by rw [place, arm_eq armed]) fun _ => free
  refine ⟨later, ordered, reached.trans (ready_step false armed free).arm_eq, ?_⟩
  intro step after before
  rcases Nat.eq_or_lt_of_le after with rfl | after
  · rw [place]
    exact free
  · exact between step after before

end Machine

namespace Progress

variable {rules : Rules} {origin progress : Progress} {machine : Machine} {store : Store}
  {outcome : Outcome} {start stop fuel : Nat}

/-- A stop behind some states that are no stops is still the first one. -/
theorem StopsFirst.extend {later : Nat} (found : StopsFirst rules origin later stop)
    (ordered : start ≤ later)
    (free : ∀ between, start ≤ between → between < later →
      ¬ (origin.after (.plain rules.mode) between).Stops rules.breakpoints) :
    StopsFirst rules origin start stop where
  ordered := Nat.le_trans ordered found.ordered
  stops := found.stops
  first between after before := by
    by_cases early : between < later
    · exact free between after early
    · exact found.first between (by omega) before

/-- No stop is passed over on the way to the first one. -/
theorem StopsFirst.restrict {later : Nat} (found : StopsFirst rules origin start stop)
    (ordered : start ≤ later)
    (free : ∀ between, start ≤ between → between < later →
      ¬ (origin.after (.plain rules.mode) between).Stops rules.breakpoints) :
    StopsFirst rules origin later stop where
  ordered := by
    by_contra beyond
    exact free stop found.ordered (by omega) found.stops
  stops := found.stops
  first between after := found.first between (Nat.le_trans ordered after)

theorem StopsFirst.le_of_stops {place : Nat} (found : StopsFirst rules origin start stop)
    (ordered : start ≤ place)
    (stops : (origin.after (.plain rules.mode) place).Stops rules.breakpoints) : stop ≤ place := by
  by_contra beyond
  exact found.first place ordered (by omega) stops

theorem StopsFirst.eq_of_stops (found : StopsFirst rules origin start stop)
    (stops : (origin.after (.plain rules.mode) start).Stops rules.breakpoints) : stop = start := by
  have ordered := found.ordered
  have bound := found.le_of_stops (Nat.le_refl start) stops
  omega

theorem stopsFirst_self (stops : (origin.after (.plain rules.mode) start).Stops rules.breakpoints) :
    StopsFirst rules origin start start :=
  ⟨Nat.le_refl start, stops, by omega⟩

theorem exists_stopsFirst (rules : Rules) {place : Nat} (ordered : start ≤ place)
    (stops : (origin.after (.plain rules.mode) place).Stops rules.breakpoints) :
    ∃ stop, stop ≤ place ∧ StopsFirst rules origin start stop := by
  induction place using Nat.strongRecOn with
  | _ place ih =>
    by_cases early : ∃ between, start ≤ between ∧ between < place ∧
        (origin.after (.plain rules.mode) between).Stops rules.breakpoints
    · obtain ⟨between, after, before, stops⟩ := early
      obtain ⟨stop, bound, found⟩ := ih between before after stops
      exact ⟨stop, by omega, found⟩
    · refine ⟨place, Nat.le_refl place, ordered, stops, ?_⟩
      intro between after before stops
      exact early ⟨between, after, before, stops⟩

theorem stops_of_halted (breakpoints : Breakpoints) (ended : progress = halted store outcome) :
    progress.Stops breakpoints := by
  rw [ended]
  trivial

/-- Without breakpoints only the end of a run is a stop. -/
theorem halted_of_stops {breakpoints : Breakpoints}
    (unmarked : ∀ offset, breakpoints.has offset = false) (stops : progress.Stops breakpoints) :
    ∃ store outcome, progress = halted store outcome := by
  cases progress with
  | running machine =>
    have marked := stops.2
    rw [unmarked] at marked
    cases marked
  | halted store outcome => exact ⟨store, outcome, rfl⟩

/-- A run that halts has come to the first stop of the plain run. -/
theorem stop_of_halts (rules : Rules) (origin : Progress)
    (place : origin.after (.plain rules.mode) start = progress) (ready : progress.Ready)
    (halts : progress.after rules fuel = halted store outcome) :
    ∃ stop, StopsFirst rules origin start stop ∧
      origin.after (.plain rules.mode) stop = outcome.progress store := by
  induction fuel generalizing progress start with
  | zero =>
    obtain rfl : progress = halted store outcome := halts
    refine ⟨start, stopsFirst_self (by rw [place]; trivial), ?_⟩
    rw [place, ready.outcome_progress]
  | succ fuel ih =>
    cases progress with
    | halted first last =>
      rw [after_halted] at halts
      cases halts
      refine ⟨start, stopsFirst_self (by rw [place]; trivial), ?_⟩
      rw [place, ready.outcome_progress]
    | running machine =>
      rw [after_running] at halts
      have armed : machine.armed = true := ready
      by_cases meets : machine.Meets rules.breakpoints
      · rw [Machine.step_of_pause meets.1 armed meets.2, after_halted] at halts
        cases halts
        refine ⟨start, stopsFirst_self (by rw [place]; exact meets), ?_⟩
        rw [place, Outcome.progress, ← armed]
      · obtain ⟨later, ordered, reached, free⟩ := Machine.step_past place armed meets
        obtain ⟨stop, found, value⟩ := ih reached (Machine.ready_step false armed meets) halts
        exact ⟨stop, found.extend (by omega) free, value⟩

/-- A run halts where the plain run has its first stop. -/
theorem halts_of_stop (found : StopsFirst rules origin start stop)
    (place : origin.after (.plain rules.mode) start = progress) (ready : progress.Ready) :
    ∃ store outcome, progress.after rules (stop + 1 - start) = halted store outcome ∧
      origin.after (.plain rules.mode) stop = outcome.progress store := by
  -- The distance to the stop shrinks with every step of the machine.
  induction distance : stop - start using Nat.strongRecOn generalizing progress start with
  | _ _ ih =>
    have ordered := found.ordered
    cases progress with
    | halted store outcome =>
      have here := found.eq_of_stops (by rw [place]; trivial)
      exact ⟨store, outcome, after_halted _, by rw [here, place, ready.outcome_progress]⟩
    | running machine =>
      have armed : machine.armed = true := ready
      obtain ⟨fuel, fuelEq⟩ : ∃ fuel, stop + 1 - start = fuel + 1 := ⟨stop - start, by omega⟩
      rw [fuelEq, after_running]
      by_cases meets : machine.Meets rules.breakpoints
      · have here := found.eq_of_stops (by rw [place]; exact meets)
        rw [Machine.step_of_pause meets.1 armed meets.2, after_halted, here, place]
        exact ⟨_, _, rfl, by rw [Outcome.progress, ← armed]⟩
      · obtain ⟨later, ahead, reached, free⟩ := Machine.step_past place armed meets
        have onward := found.restrict (by omega) free
        have further := onward.ordered
        obtain ⟨store, outcome, halts, value⟩ :=
          ih (stop - later) (by omega) onward reached (Machine.ready_step false armed meets) rfl
        exact ⟨store, outcome, after_halted_of_le (by omega) halts, value⟩

/-- A machine that was taken up again looks for stops behind the operator it
stands at. -/
theorem stop_of_halts_resumed (rules : Rules) (origin : Progress)
    (place : origin.after (.plain rules.mode) start = running machine.arm)
    (inside : machine.stack.inner.isOver = false) (unarmed : machine.armed = false)
    (halts : (running machine).after rules fuel = halted store outcome) :
    ∃ stop, StopsFirst rules origin (start + 1) stop ∧
      origin.after (.plain rules.mode) stop = outcome.progress store := by
  cases fuel with
  | zero => cases halts
  | succ fuel =>
    have disarmed : machine.armed ≠ true := by simp [unarmed]
    have ready := (Machine.executes rules false machine).ready
    rw [after_running, Machine.step_of_execute inside (absurd · disarmed)] at halts
    obtain ⟨later, ordered, reached, free⟩ := Machine.step_on place (absurd · disarmed)
    rw [Machine.step_of_execute inside (absurd · disarmed), ready.arm_eq] at reached
    obtain ⟨stop, found, value⟩ := stop_of_halts rules origin reached ready halts
    exact ⟨stop, found.extend ordered free, value⟩

theorem halts_of_stop_resumed (found : StopsFirst rules origin (start + 1) stop)
    (place : origin.after (.plain rules.mode) start = running machine.arm)
    (inside : machine.stack.inner.isOver = false) (unarmed : machine.armed = false) :
    ∃ fuel store outcome, (running machine).after rules fuel = halted store outcome ∧
      origin.after (.plain rules.mode) stop = outcome.progress store := by
  have disarmed : machine.armed ≠ true := by simp [unarmed]
  have ready := (Machine.executes rules false machine).ready
  obtain ⟨later, ordered, reached, free⟩ := Machine.step_on place (absurd · disarmed)
  rw [Machine.step_of_execute inside (absurd · disarmed), ready.arm_eq] at reached
  obtain ⟨store, outcome, halts, value⟩ :=
    halts_of_stop (found.restrict ordered free) reached ready
  refine ⟨stop + 1 - later + 1, store, outcome, ?_, value⟩
  rw [after_running, Machine.step_of_execute inside (absurd · disarmed), halts]

end Progress

end TapeStepper
