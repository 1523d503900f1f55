import TapeStepper.Proofs.Runs

namespace TapeStepper

/-- The tape with zero cells put behind its last one. -/
def Tape.pad (count : Nat) (tape : Tape) : Tape :=
  { tape with after := tape.after ++ List.replicate count 0 }

namespace Tape

variable (count : Nat) (tape : Tape)

theorem cells_pad : (tape.pad count).cells = tape.cells ++ List.replicate count 0 := by
  simp [cells, pad]

@[simp]
theorem current_pad : (tape.pad count).current = tape.current := rfl

@[simp]
theorem currentChar_pad : (tape.pad count).currentChar = tape.currentChar := rfl

theorem pad_blank {size : Nat} (positive : 0 < size) :
    (blank size).pad count = blank (size + count) := by
  have more : size + count - 1 = size - 1 + count := by omega
  simp only [blank, pad, more, List.replicate_append_replicate]

theorem next?_pad {moved : Tape} (step : tape.next? = some moved) :
    (tape.pad count).next? = some (moved.pad count) := by
  obtain ⟨before, current, after⟩ := tape
  cases after with
  | nil => cases step
  | cons cell after =>
    cases step
    rfl

theorem back?_pad : (tape.pad count).back? = tape.back?.map (pad count) := by
  obtain ⟨before, current, after⟩ := tape
  cases before <;> rfl

theorem set_pad (value : Nat) : (tape.pad count).set value = (tape.set value).pad count := rfl

theorem increment?_pad : (tape.pad count).increment? = tape.increment?.map (pad count) := by
  by_cases room : tape.current < shortMax <;> simp [increment?, room, set_pad]

theorem decrement?_pad : (tape.pad count).decrement? = tape.decrement?.map (pad count) := by
  by_cases positive : 0 < tape.current <;> simp [decrement?, positive, set_pad]

end Tape

namespace CellMode

variable (mode : CellMode) (count : Nat) (tape : Tape)

theorem increment?_pad : mode.increment? (tape.pad count) = (mode.increment? tape).map (Tape.pad count) := by
  cases mode with
  | short => exact tape.increment?_pad count
  | byte =>
    simp only [increment?, Tape.current_pad, Tape.set_pad, Tape.increment?_pad]
    split <;> rfl

theorem decrement?_pad : mode.decrement? (tape.pad count) = (mode.decrement? tape).map (Tape.pad count) := by
  cases mode with
  | short => exact tape.decrement?_pad count
  | byte =>
    simp only [decrement?, Tape.decrement?_pad, Tape.set_pad]
    cases tape.decrement? <;> rfl

end CellMode

/-- What a run is given beyond what it had: cells behind its tape and characters behind its input. -/
structure Surplus where
  cells : Nat
  input : Text

/-- The faults of a run that asked for more than it had. -/
def Fault.isShortage : Fault → Bool
  | upperBound | inputExhausted => true
  | lowerBound | maxValue | negativeValue | outputLimit | duplicateFunction _ | functionLimit
  | undefinedFunction _ | depthLimit | timeBudget => false

def Outcome.isShortage : Outcome → Bool
  | failed fault _ => fault.isShortage
  | finished | paused _ | overran _ => false

def Progress.isShortage : Progress → Bool
  | running _ => false
  | halted _ outcome => outcome.isShortage

def Store.widen (surplus : Surplus) (store : Store) : Store :=
  { store with tape := store.tape.pad surplus.cells, input := store.input ++ surplus.input }

def Machine.widen (surplus : Surplus) (machine : Machine) : Machine :=
  { machine with store := machine.store.widen surplus }

def Progress.widen (surplus : Surplus) : Progress → Progress
  | running machine => running (machine.widen surplus)
  | halted store outcome => halted (store.widen surplus) outcome

def Halt.widen (surplus : Surplus) (halt : Halt) : Halt :=
  { halt with store := halt.store.widen surplus }

theorem Store.perform_widen (surplus : Surplus) {mode : CellMode} {store : Store} {action : Action}
    (enough : ∀ fault, store.perform mode action = .error fault → fault.isShortage = false) :
    (store.widen surplus).perform mode action = (store.perform mode action).map (widen surplus) := by
  cases action with
  | next =>
    cases step : store.tape.next? with
    | none =>
      have shortage := enough .upperBound (by simp only [perform, step])
      cases shortage
    | some moved =>
      simp only [perform, widen, Tape.next?_pad _ _ step, step]
      rfl
  | back =>
    simp only [perform, widen, Tape.back?_pad]
    cases store.tape.back? <;> rfl
  | plus =>
    simp only [perform, widen, CellMode.increment?_pad]
    cases mode.increment? store.tape <;> rfl
  | minus =>
    simp only [perform, widen, CellMode.decrement?_pad]
    cases mode.decrement? store.tape <;> rfl
  | print =>
    simp only [perform, widen, Tape.currentChar_pad]
    cases store.output.write? store.tape.currentChar <;> rfl
  | read =>
    cases waiting : store.input with
    | nil =>
      have shortage := enough .inputExhausted (by simp only [perform, waiting])
      cases shortage
    | cons c input =>
      simp only [perform, widen, waiting, List.cons_append]
      cases mode.encode? c <;> rfl

namespace Machine

variable {rules : Rules} {late : Bool} {machine : Machine} {progress : Progress} (surplus : Surplus)

@[simp]
theorem stack_widen (machine : Machine) : (machine.widen surplus).stack = machine.stack := rfl

theorem widen_arrive (store : Store) (stack : Stack) :
    arrive late (store.widen surplus) stack = (arrive late store stack).widen surplus := by
  cases late <;> rfl

theorem widen_leave (store : Store) (armed : Bool) :
    (machine.widen surplus).leave (store.widen surplus) armed =
      (machine.leave store armed).widen surplus := by
  simp only [leave, stack_widen]
  cases machine.stack.leave? <;> rfl

/-- What an operator does, it does with more tape and input as well, unless it asks for them. -/
theorem Executes.widen (move : machine.Executes rules late progress)
    (enough : progress.isShortage = false) :
    (machine.widen surplus).Executes rules late (progress.widen surplus) := by
  cases move with
  | @acts offset action next store here result =>
    have hereToo : (machine.widen surplus).stack.inner.rest = .act offset action next := here
    have faultless (fault : Fault) (failed : machine.store.perform rules.mode action = .error fault) :
        fault.isShortage = false := by cases result.symm.trans failed
    have performed := Store.perform_widen surplus faultless
    rw [result] at performed
    exact .acts hereToo performed
  | @actFails offset action next fault here result =>
    have hereToo : (machine.widen surplus).stack.inner.rest = .act offset action next := here
    have otherwise (other : Fault) (failed : machine.store.perform rules.mode action = .error other) :
        other.isShortage = false := Except.error.inj (result.symm.trans failed) ▸ enough
    have performed := Store.perform_widen surplus otherwise
    rw [result] at performed
    exact .actFails hereToo performed
  | skipsLoop here zero => exact .skipsLoop here zero
  | resetsCell here nonzero skips => exact .resetsCell here nonzero skips
  | entersLoop here nonzero enters =>
    rw [← widen_arrive]
    exact .entersLoop here nonzero enters
  | defines here result => exact .defines here result
  | defineFails here result => exact .defineFails here result
  | callsNothing here unbound => exact .callsNothing here unbound
  | callsTooDeep here bound deep => exact .callsTooDeep here bound deep
  | calls here bound room =>
    rw [← widen_arrive]
    exact .calls here bound room
  | endsLoop here zero =>
    rw [← widen_leave]
    exact .endsLoop here zero
  | repeatsLoop here nonzero =>
    rw [← widen_arrive]
    exact .repeatsLoop here nonzero

theorem step_widen (enough : (machine.step rules late).isShortage = false) :
    (machine.widen surplus).step rules late = (machine.step rules late).widen surplus := by
  obtain ⟨atEnd, step⟩ | ⟨inside, armed, marked, step⟩ | ⟨inside, free, step⟩ :=
    step_cases rules late machine
  · have atEndToo : (machine.widen surplus).stack.inner.isOver = true := atEnd
    rw [step, step_of_over atEndToo]
    exact widen_leave surplus machine.store machine.armed
  · have insideToo : (machine.widen surplus).stack.inner.isOver = false := inside
    rw [step, step_of_pause insideToo armed marked]
    rfl
  · have insideToo : (machine.widen surplus).stack.inner.isOver = false := inside
    rw [step] at enough ⊢
    rw [step_of_execute insideToo free]
    exact ((executes rules late machine).widen surplus enough).execute_eq

end Machine

/-- A run that ended without a shortage has none on its way. -/
theorem Progress.isShortage_of_finish {rules : Rules} {late : Nat → Bool} {fuel steps : Nat}
    {progress : Progress} {halt : Halt} (run : progress.finish rules late fuel steps = some halt)
    (enough : halt.outcome.isShortage = false) : progress.isShortage = false := by
  cases progress with
  | running machine => rfl
  | halted store outcome =>
    rw [finish] at run
    cases run
    exact enough

theorem Progress.finish_widen (surplus : Surplus) {rules : Rules} {late : Nat → Bool} {fuel steps : Nat}
    {progress : Progress} {halt : Halt} (run : progress.finish rules late fuel steps = some halt)
    (enough : halt.outcome.isShortage = false) :
    (progress.widen surplus).finish rules late fuel steps = some (halt.widen surplus) := by
  induction fuel generalizing steps progress with
  | zero =>
    cases progress with
    | halted store outcome =>
      cases run
      rfl
    | running machine => cases run
  | succ fuel ih =>
    cases progress with
    | halted store outcome =>
      cases run
      rfl
    | running machine =>
      rw [finish] at run
      rw [widen, finish, Machine.step_widen surplus (isShortage_of_finish run enough)]
      exact ih run

/-- The whole run goes as before, and nothing is taken from the surplus. -/
theorem Machine.run_widen (surplus : Surplus) {rules : Rules} {late : Nat → Bool} {fuel : Nat}
    {machine : Machine} {halt : Halt} (run : machine.run rules late fuel = some halt)
    (enough : halt.outcome.isShortage = false) :
    (machine.widen surplus).run rules late fuel = some (halt.widen surplus) := by
  have entered : (machine.widen surplus).enter late = (machine.enter late).widen surplus := by
    simp only [enter, stack_widen]
    cases (List.range machine.stack.depth).find? late <;> rfl
  have finished := Progress.finish_widen surplus run enough
  rwa [← entered] at finished

/-- A result without the flags of a shortage is not that of one. -/
theorem Outcome.isShortage_of_flags {outcome : Outcome} {output : Text}
    (inside : (outcome.exitCode.withOutput output).has .upperBoundExceeded = false)
    (fed : (outcome.exitCode.withOutput output).has .stdinBufferExhausted = false) :
    outcome.isShortage = false := by
  rw [ExitCode.has_withOutput _ _ (by decide) (by decide)] at inside fed
  cases outcome with
  | failed fault stack =>
    cases fault with
    | upperBound => simp [exitCode, Fault.exitCode, Fault.flag?, ExitCode.has_ofFlags] at inside
    | inputExhausted => simp [exitCode, Fault.exitCode, Fault.flag?, ExitCode.has_ofFlags] at fed
    | lowerBound | maxValue | negativeValue | outputLimit | duplicateFunction _ | functionLimit
    | undefinedFunction _ | depthLimit | timeBudget => rfl
  | finished | paused _ | overran _ => rfl

/-- The results of two runs that differ in the tape and the time only; the tape of the second is that of
the first with zero cells behind it. -/
structure Result.SameButRoom (cells : Nat) (first second : Result) : Prop where
  exitCode : second.exitCode = first.exitCode
  cells : second.tape.cells = first.tape.cells ++ List.replicate cells 0
  position : second.tape.position = first.tape.position
  output : second.output = first.output
  source : second.source = first.source
  operations : second.operations = first.operations
  trace : second.trace = first.trace
  breakpoint : second.breakpoint = first.breakpoint
  functions : second.functions = first.functions

theorem Rejection.sameButRoom (rejection : Rejection) (source : Text) (cells : Nat) (tape : Tape) :
    (rejection.result source tape).SameButRoom cells (rejection.result source (tape.pad cells)) := by
  have padded := tape.cells_pad cells
  cases rejection with
  | noCode => exact ⟨rfl, padded, rfl, rfl, rfl, rfl, rfl, rfl, rfl⟩
  | mismatched offset => exact ⟨rfl, padded, rfl, rfl, rfl, rfl, rfl, rfl, rfl⟩

theorem sameButRoom_of_runOn {config : Config} (size : Nat) (surplus : Surplus)
    (unbounded : config.budget = none) {source input : Text} {tape : Tape} {fuel : Nat}
    {watch : Stopwatch} {result : Result}
    (ran : runOn fuel watch config source input tape = some result)
    (inside : result.exitCode.has .upperBoundExceeded = false)
    (fed : result.exitCode.has .stdinBufferExhausted = false) (clock : Stopwatch) :
    ∃ other, runOn fuel clock { config with tapeSize := size } source (input ++ surplus.input)
      (tape.pad surplus.cells) = some other ∧ result.SameButRoom surplus.cells other := by
  cases accepted : readScript source with
  | error rejection =>
    simp only [runOn, accepted, Option.some.injEq] at ran ⊢
    exact ⟨_, rfl, ran ▸ rejection.sameButRoom source surplus.cells tape⟩
  | ok block =>
    rw [runOn_of_accepted unbounded accepted] at ran
    obtain ⟨halt, run, rfl⟩ := Option.map_eq_some_iff.mp ran
    have wide := Machine.run_widen surplus run (Outcome.isShortage_of_flags inside fed)
    have unboundedToo : ({ config with tapeSize := size } : Config).budget = none := unbounded
    refine ⟨.ofOutcome block (clock halt.steps) (halt.store.widen surplus) halt.outcome, ?_, ?_⟩
    · rw [runOn_of_accepted unboundedToo accepted]
      exact Option.map_eq_some_iff.mpr ⟨_, wide, rfl⟩
    · exact ⟨rfl, halt.store.tape.cells_pad surplus.cells, rfl, rfl, rfl, rfl, rfl, rfl, rfl⟩

/-- More tape and more input never change a run that did not ask for them. If a run without a budget ends,
and neither because the pointer left the tape nor because the input was used up, then the run with more
cells and more input ends as well; the results are the same, but for the zero cells behind the tape. -/
theorem more_room_changes_nothing (config : Config) (unbounded : config.budget = none)
    (source input more : Text) (size : Nat) (longer : config.tapeSize ≤ size) (fuel : Nat)
    (watch : Stopwatch) (result : Result)
    (ran : run fuel watch config source input = .ok (some result))
    (inside : result.exitCode.has .upperBoundExceeded = false)
    (fed : result.exitCode.has .stdinBufferExhausted = false) (clock : Stopwatch) :
    ∃ other, run fuel clock { config with tapeSize := size } source (input ++ more) = .ok (some other) ∧
      result.SameButRoom (size - config.tapeSize) other := by
  obtain ⟨valid, ran⟩ := runOn_of_run ran
  have positive := Config.tapeSize_pos valid
  have validToo : ({ config with tapeSize := size } : Config).validate = .ok () :=
    Config.validate_eq_ok (Nat.lt_of_lt_of_le positive longer) unbounded
  have padded : (Tape.blank config.tapeSize).pad (size - config.tapeSize) = .blank size := by
    rw [Tape.pad_blank _ positive, Nat.add_sub_cancel' longer]
  obtain ⟨other, ranToo, same⟩ :=
    sameButRoom_of_runOn size ⟨size - config.tapeSize, more⟩ unbounded ran inside fed clock
  rw [padded] at ranToo
  refine ⟨other, ?_, same⟩
  rw [run_eq_runOn validToo, ranToo]

/-- A script that reads a character, counts another cell down and then fails at `<`, on two cells with one
character to read and on four cells with two. -/
theorem more_room_changes_nothing_before_the_first_cell :
    ∃ first second, run 20 (fun _ => 0) ⟨.short, 2, none⟩ ",>++[-]<<.".toList ['a'] = .ok (some first) ∧
      first.exitCode.has .lowerBoundExceeded = true ∧
      run 20 (fun _ => 0) ⟨.short, 4, none⟩ ",>++[-]<<.".toList ['a', 'b'] = .ok (some second) ∧
      second.tape.cells = [97, 0, 0, 0] ∧ second.trace = first.trace ∧
      first.SameButRoom 2 second := by
  obtain ⟨second, ran, same⟩ := more_room_changes_nothing ⟨.short, 2, none⟩ rfl ",>++[-]<<.".toList ['a']
    ['b'] 4 (by decide) 20 (fun _ => 0) _ rfl rfl rfl fun _ => 0
  exact ⟨_, second, rfl, rfl, ran, same.cells, same.trace, same⟩

end TapeStepper
