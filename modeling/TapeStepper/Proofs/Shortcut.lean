import TapeStepper.Proofs.Course

namespace TapeStepper

/-- The rules of a run that does one operator after the other: it never pauses
and enters every loop. -/
def Rules.plain (mode : CellMode) : Rules :=
  ⟨mode, .empty, false⟩

@[simp]
theorem Rules.plain_pausesAt (mode : CellMode) (offset : Nat) :
    (plain mode).pausesAt offset = false :=
  Breakpoints.has_empty offset

@[simp]
theorem Rules.plain_skips (mode : CellMode) (body : Block) (closes : Nat) :
    (plain mode).skips body closes = false := by
  unfold skips
  split <;> simp [plain]

theorem Rules.skips_iff {rules : Rules} {body : Block} {closes : Nat} :
    rules.skips body closes = true ↔ ∃ minus, body = .act minus .minus .done ∧
      rules.shortcut = true ∧ rules.pausesAt minus = false ∧ rules.pausesAt closes = false := by
  unfold skips
  split
  · rename_i minus
    simp [and_assoc]
  · rename_i other
    simp only [Bool.false_eq_true, false_iff]
    rintro ⟨minus, rfl, _⟩
    exact other minus rfl

/-- The machine about to run an operator at one of these offsets. -/
def Machine.Meets (breakpoints : Breakpoints) (machine : Machine) : Prop :=
  machine.stack.inner.isOver = false ∧ breakpoints.has machine.stack.inner.offset = true

/-- The same machine, ready to pause. -/
def Machine.arm (machine : Machine) : Machine :=
  { machine with armed := true }

@[simp]
theorem Machine.arm_store (machine : Machine) : machine.arm.store = machine.store := rfl

@[simp]
theorem Machine.arm_stack (machine : Machine) : machine.arm.stack = machine.stack := rfl

theorem Machine.arm_eq {machine : Machine} (armed : machine.armed = true) :
    machine.arm = machine := by
  rw [arm, ← armed]

/-- The store in which the current cell was counted down to zero, two operators
for each unit. -/
def Store.drain (store : Store) : Store :=
  (store.withTape (store.tape.set 0)).count (2 * store.value)

namespace Store

theorem perform_minus {store : Store} {value : Nat} (mode : CellMode)
    (current : store.value = value + 1) :
    store.perform mode .minus = .ok (store.withTape (store.tape.set value)) := by
  have cell : store.tape.current = value + 1 := current
  cases mode <;> simp [perform, CellMode.decrement?, Tape.decrement?, cell]

@[simp]
theorem value_withTape_set (store : Store) (value : Nat) :
    (store.withTape (store.tape.set value)).value = value := rfl

@[simp]
theorem value_count (store : Store) (operations : Nat) :
    (store.count operations).value = store.value := rfl

theorem drain_zero {store : Store} (zero : store.value = 0) : store.drain = store := by
  have cell : store.tape.current = 0 := zero
  have same : store.tape.set 0 = store.tape := by
    rw [Tape.set, ← cell]
  simp [drain, count, withTape, zero, same]

theorem drain_succ {store : Store} {value : Nat} (current : store.value = value + 1) :
    (((store.withTape (store.tape.set value)).count 1).count 1).drain = store.drain := by
  simp only [drain, current, value_count, value_withTape_set]
  simp only [count, withTape, Tape.set]
  congr 1
  omega

end Store

section Countdown

variable {mode : CellMode} {stack : Stack} {minus closes : Nat}

/-- The level of a loop `[-]`, at its start. -/
abbrev countdown (minus closes : Nat) : Level :=
  .enter (.act minus .minus .done) (.loop closes)

theorem step_countdown_minus {store : Store} {value : Nat} (current : store.value = value + 1) :
    Machine.step (.plain mode) false ⟨store, stack.push (countdown minus closes), true⟩ =
      .running ⟨(store.withTape (store.tape.set value)).count 1,
        (stack.push (countdown minus closes)).modify Level.advance, true⟩ := by
  rw [Machine.step_of_execute rfl (fun _ => Rules.plain_pausesAt _ _)]
  exact (Machine.Executes.acts rfl (Store.perform_minus mode current)).execute_eq

theorem step_countdown_end {store : Store} (zero : store.value = 0) :
    Machine.step (.plain mode) false
        ⟨store, (stack.push (countdown minus closes)).modify Level.advance, true⟩ =
      .running ⟨store.count 1, stack.modify Level.advance, true⟩ := by
  rw [Machine.step_of_execute rfl (fun _ => Rules.plain_pausesAt _ _)]
  exact (Machine.Executes.endsLoop rfl zero).execute_eq

theorem step_countdown_again {store : Store} (nonzero : store.value ≠ 0) :
    Machine.step (.plain mode) false
        ⟨store, (stack.push (countdown minus closes)).modify Level.advance, true⟩ =
      .running ⟨store.count 1, stack.push (countdown minus closes), true⟩ := by
  rw [Machine.step_of_execute rfl (fun _ => Rules.plain_pausesAt _ _)]
  exact (Machine.Executes.repeatsLoop rfl nonzero).execute_eq

/-- Step by step the loop `[-]` counts the cell down to zero and is left. On the
way the machine stands at `-` or at `]` only. -/
theorem after_countdown (mode : CellMode) (stack : Stack) (minus closes : Nat) {store : Store}
    {value : Nat} (current : store.value = value + 1) :
    (Progress.running ⟨store, stack.push (countdown minus closes), true⟩).after (.plain mode)
        (2 * value + 2) = .running ⟨store.drain, stack.modify Level.advance, true⟩ ∧
      ∀ count < 2 * value + 2, ∃ machine,
        (Progress.running ⟨store, stack.push (countdown minus closes), true⟩).after (.plain mode)
          count = .running machine ∧
        (machine.stack.inner.offset = minus ∨ machine.stack.inner.offset = closes) := by
  induction value generalizing store with
  | zero =>
    have drained := Store.drain_succ current
    rw [Store.drain_zero rfl] at drained
    refine ⟨?_, ?_⟩
    · rw [Progress.after_running, step_countdown_minus current, Progress.after_running,
        step_countdown_end rfl, drained]
      rfl
    · intro count bound
      obtain rfl | rfl : count = 0 ∨ count = 1 := by omega
      · exact ⟨_, rfl, .inl rfl⟩
      · rw [Progress.after_running, step_countdown_minus current]
        exact ⟨_, rfl, .inr rfl⟩
  | succ value ih =>
    have nonzero : ((store.withTape (store.tape.set (value + 1))).count 1).value ≠ 0 :=
      Nat.succ_ne_zero value
    have round : ∀ count, (Progress.running ⟨store, stack.push (countdown minus closes),
        true⟩).after (.plain mode) (count + 2) =
        (Progress.running ⟨((store.withTape (store.tape.set (value + 1))).count 1).count 1,
          stack.push (countdown minus closes), true⟩).after (.plain mode) count := by
      intro count
      rw [Progress.after_running, step_countdown_minus current, Progress.after_running,
        step_countdown_again nonzero]
    have counted : (((store.withTape (store.tape.set (value + 1))).count 1).count 1).value =
        value + 1 := rfl
    obtain ⟨ended, inside⟩ := ih counted
    rw [Store.drain_succ current] at ended
    refine ⟨(round _).trans ended, ?_⟩
    intro count bound
    match count with
    | 0 => exact ⟨_, rfl, .inl rfl⟩
    | 1 =>
      rw [Progress.after_running, step_countdown_minus current]
      exact ⟨_, rfl, .inr rfl⟩
    | count + 2 =>
      rw [round]
      exact inside count (by omega)

end Countdown

namespace Progress

def arm : Progress → Progress
  | running machine => running machine.arm
  | halted store outcome => halted store outcome

/-- Whether a run with these breakpoints goes no further. -/
def Stops (breakpoints : Breakpoints) : Progress → Prop
  | running machine => machine.Meets breakpoints
  | halted _ _ => True

end Progress

namespace Machine

variable {rules : Rules} {machine : Machine}

/-- An operator leaves the machine ready to pause. -/
theorem Executes.arm_eq {progress : Progress} (move : machine.Executes rules false progress) :
    progress.arm = progress := by
  cases move with
  | endsLoop here zero =>
    unfold leave
    split <;> rfl
  | _ => rfl

theorem execute_plain {late : Bool}
    (enters : ∀ opens body closes next, machine.stack.inner.rest = .loop opens body closes next →
      machine.store.value ≠ 0 → rules.skips body closes = false) :
    machine.execute rules late = machine.execute (.plain rules.mode) late := by
  have move := executes rules late machine
  revert move
  generalize machine.execute rules late = progress
  intro move
  refine (Executes.execute_eq ?_).symm
  cases move with
  | acts here result => exact .acts here result
  | actFails here result => exact .actFails here result
  | skipsLoop here zero => exact .skipsLoop here zero
  | resetsCell here nonzero skips =>
    rw [enters _ _ _ _ here nonzero] at skips
    cases skips
  | entersLoop here nonzero _ => exact .entersLoop here nonzero (Rules.plain_skips _ _ _)
  | defines here result => exact .defines here result
  | defineFails here result => exact .defineFails here result
  | callsNothing here unbound => exact .callsNothing here unbound
  | callsTooDeep here bound deep => exact .callsTooDeep here bound deep
  | calls here bound room => exact .calls here bound room
  | endsLoop here zero => exact .endsLoop here zero
  | repeatsLoop here nonzero => exact .repeatsLoop here nonzero

theorem step_plain_of_inside (inside : machine.stack.inner.isOver = false) :
    machine.arm.step (.plain rules.mode) false = machine.execute (.plain rules.mode) false :=
  step_of_execute inside (fun _ => Rules.plain_pausesAt _ _)

theorem step_plain_of_over (atEnd : machine.stack.inner.isOver = true) :
    machine.arm.step (.plain rules.mode) false = (machine.step rules false).arm := by
  have atEndArmed : machine.arm.stack.inner.isOver = true := atEnd
  rw [step_of_over atEnd, step_of_over atEndArmed]
  unfold leave
  simp only [arm_stack, arm_store]
  split <;> rfl

/-- The shortcut does in one step what the loop `[-]` does in many, and none of
them is at a breakpoint. -/
theorem after_resetsCell {opens closes : Nat} {body next : Block}
    (here : machine.stack.inner.rest = .loop opens body closes next)
    (nonzero : machine.store.value ≠ 0) (skips : rules.skips body closes = true) :
    ∃ count, (Progress.running machine.arm).after (.plain rules.mode) (count + 1) =
        machine.execute rules false ∧
      ∀ between, 0 < between → between ≤ count →
        ¬ ((Progress.running machine.arm).after (.plain rules.mode) between).Stops
          rules.breakpoints := by
  obtain ⟨minus, rfl, _, freeMinus, freeCloses⟩ := Rules.skips_iff.mp skips
  obtain ⟨value, current⟩ := Nat.exists_eq_succ_of_ne_zero nonzero
  have inside : machine.stack.inner.isOver = false := by
    rw [Level.isOver, here]
  have entered : ∀ count, (Progress.running machine.arm).after (.plain rules.mode) (count + 1) =
      (Progress.running ⟨machine.store.count 1, machine.stack.push (countdown minus closes),
        true⟩).after (.plain rules.mode) count := by
    intro count
    rw [Progress.after_running, step_plain_of_inside inside,
      (Executes.entersLoop here nonzero (Rules.plain_skips _ _ _)).execute_eq]
    rfl
  have entry : (machine.store.count 1).value = value + 1 := current
  obtain ⟨ended, onTheWay⟩ := after_countdown rules.mode machine.stack minus closes entry
  refine ⟨2 * value + 2, ?_, ?_⟩
  · rw [entered, ended, (Executes.resetsCell here nonzero skips).execute_eq, proceed]
    congr 2
    simp only [Store.drain, Store.count, Store.withTape, Store.value]
    congr 1
    omega
  · intro between positive bound
    obtain ⟨earlier, rfl⟩ := Nat.exists_eq_succ_of_ne_zero (Nat.ne_of_gt positive)
    obtain ⟨inner, stands, place⟩ := onTheWay earlier (by omega)
    rw [Nat.succ_eq_add_one, entered, stands]
    rintro ⟨_, marked⟩
    rcases place with atMinus | atCloses
    · rw [atMinus] at marked
      exact Bool.false_ne_true (freeMinus.symm.trans marked)
    · rw [atCloses] at marked
      exact Bool.false_ne_true (freeCloses.symm.trans marked)

/-- One step with breakpoints and shortcut is some steps of the plain run, and no
stop lies between. -/
theorem step_plain (free : machine.armed = true → ¬ machine.Meets rules.breakpoints) :
    ∃ count, (Progress.running machine.arm).after (.plain rules.mode) (count + 1) =
        (machine.step rules false).arm ∧
      ∀ between, 0 < between → between ≤ count →
        ¬ ((Progress.running machine.arm).after (.plain rules.mode) between).Stops
          rules.breakpoints := by
  cases atEnd : machine.stack.inner.isOver with
  | true => exact ⟨0, step_plain_of_over atEnd, by omega⟩
  | false =>
    have unmarked : machine.armed = true →
        rules.pausesAt machine.stack.inner.offset = false := by
      intro armed
      exact eq_false_of_ne_true fun marked => free armed ⟨atEnd, marked⟩
    rw [step_of_execute atEnd unmarked, (executes rules false machine).arm_eq]
    by_cases resets : ∃ opens body closes next,
        machine.stack.inner.rest = .loop opens body closes next ∧
        machine.store.value ≠ 0 ∧ rules.skips body closes = true
    · obtain ⟨opens, body, closes, next, here, nonzero, skips⟩ := resets
      exact after_resetsCell here nonzero skips
    · have enters : ∀ opens body closes next,
          machine.stack.inner.rest = .loop opens body closes next →
          machine.store.value ≠ 0 → rules.skips body closes = false := by
        intro opens body closes next here nonzero
        exact eq_false_of_ne_true fun skips =>
          resets ⟨opens, body, closes, next, here, nonzero, skips⟩
      refine ⟨0, ?_, by omega⟩
      rw [execute_plain enters, ← step_plain_of_inside atEnd]
      rfl

end Machine

end TapeStepper
