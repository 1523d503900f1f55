import TapeStepper.Proofs.Reentry
import TapeStepper.Proofs.Resumption

namespace TapeStepper

/-- The states that a run of the machine comes to, whatever the clock answers. -/
inductive Machine.Visits (rules : Rules) (machine : Machine) : Progress → Prop
  | enter (late : Nat → Bool) : Visits rules machine (machine.enter late)
  | step {before : Machine} (late : Bool) : Visits rules machine (.running before) →
      Visits rules machine (before.step rules late)

/-- The states that a script comes to when it is run once from a tape. -/
def RunVisits (config : Config) (source input : Text) (tape : Tape) (progress : Progress) : Prop :=
  config.validate = .ok () ∧ ∃ block, readScript source = .ok block ∧
    (Machine.launch block (.start tape input)).Visits ⟨config.mode, .empty, true⟩ progress

/-- The states that a session comes to, at its start and in every request that can be made. -/
inductive Session.Visits (config : Config) (chunks : List Text) (input : Text) : Progress → Prop
  | start {plan machine progress} : Session.prepare config chunks input = .ok (.inr (plan, machine)) →
      machine.Visits (plan.rules plan.breakpoints) progress → Visits config chunks input progress
  | serve {requests session machine progress} {request : Session.Request} :
      Session.Reached config chunks input requests session → session.machine = .ok machine →
      machine.Visits (session.plan.rules (request.breakpoints session.plan)) progress →
      Visits config chunks input progress

/-- All that can become of a script on a tape. It may be stopped by any breakpoints and by any clock,
and be taken up again where it has paused. -/
inductive Attains (mode : CellMode) (block : Block) (input : Text) (tape : Tape) : Progress → Prop
  | launch : Attains mode block input tape (.running (.launch block (.start tape input)))
  | enter {machine} (late : Nat → Bool) : Attains mode block input tape (.running machine) →
      Attains mode block input tape (machine.enter late)
  | step {machine rules} (late : Bool) : Attains mode block input tape (.running machine) →
      rules.mode = mode → Attains mode block input tape (machine.step rules late)
  | again {store stack} : Attains mode block input tape (.halted store (.paused stack)) →
      Attains mode block input tape (.running ⟨store, stack, false⟩)

namespace Machine

variable {rules : Rules} {machine : Machine} {progress : Progress}

theorem Visits.finish {late : Nat → Bool} {fuel steps : Nat} {halt : Halt}
    (visits : machine.Visits rules progress)
    (run : progress.finish rules late fuel steps = some halt) :
    machine.Visits rules (.halted halt.store halt.outcome) := by
  induction fuel generalizing steps progress with
  | zero =>
    cases progress with
    | halted store outcome =>
      cases run
      exact visits
    | running last => cases run
  | succ fuel ih =>
    cases progress with
    | halted store outcome =>
      cases run
      exact visits
    | running last => exact ih (visits.step (late steps)) run

/-- A run ends in a state that it comes to. -/
theorem visits_of_run {late : Nat → Bool} {fuel : Nat} {halt : Halt}
    (run : machine.run rules late fuel = some halt) :
    machine.Visits rules (.halted halt.store halt.outcome) :=
  (Visits.enter late).finish run

/-- What a step can make of the store. -/
inductive Stores (rules : Rules) (machine : Machine) : Store → Prop
  | same : Stores rules machine machine.store
  | counts : Stores rules machine (machine.store.count 1)
  | acts {offset action next performed} : machine.stack.inner.rest = .act offset action next →
      machine.store.perform rules.mode action = .ok performed →
      Stores rules machine (performed.count 1)
  | resets : Stores rules machine
      ((machine.store.withTape (machine.store.tape.set 0)).count (2 * machine.store.value + 1))
  | defines {opens body closes next functions} :
      machine.stack.inner.rest = .define opens body closes next →
      machine.store.functions.define machine.store.value body = .ok functions →
      Stores rules machine { machine.store with functions }

theorem Executes.stores {late : Bool} (move : machine.Executes rules late progress) :
    machine.Stores rules progress.store := by
  cases move with
  | acts here result => exact .acts here result
  | skipsLoop _ _ => exact .counts
  | resetsCell _ _ _ => exact .resets
  | defines here result => exact .defines here result
  | entersLoop _ _ _ | calls _ _ _ | repeatsLoop _ _ =>
    rw [store_arrive]
    exact .counts
  | endsLoop _ _ =>
    rw [store_leave]
    exact .counts
  | actFails _ _ | defineFails _ _ | callsNothing _ _ | callsTooDeep _ _ _ => exact .same

/-- Only a definition changes the table of functions. -/
theorem Stores.functions_cases {after : Store} (stores : machine.Stores rules after) :
    after.functions = machine.store.functions ∨
      ∃ opens body closes next, machine.stack.inner.rest = .define opens body closes next ∧
        machine.store.functions.define machine.store.value body = .ok after.functions := by
  cases stores with
  | same | counts | resets => exact .inl rfl
  | acts here result =>
    have same := Store.functions_perform result
    exact .inl same
  | defines here result => exact .inr ⟨_, _, _, _, here, result⟩

theorem stores_step (rules : Rules) (late : Bool) (machine : Machine) :
    machine.Stores rules (machine.step rules late).store := by
  obtain ⟨_, step⟩ | ⟨_, _, _, step⟩ | ⟨_, _, step⟩ := step_cases rules late machine
  · rw [step, store_leave]
    exact .same
  · rw [step]
    exact .same
  · rw [step]
    exact (executes rules late machine).stores

theorem store_enter (late : Nat → Bool) (machine : Machine) :
    (machine.enter late).store = machine.store := by
  unfold enter
  split <;> rfl

end Machine

namespace Attains

variable {mode : CellMode} {block : Block} {input : Text} {tape : Tape} {progress : Progress}

theorem visits {rules : Rules} {machine : Machine}
    (attained : Attains mode block input tape (.running machine)) (same : rules.mode = mode)
    (visits : machine.Visits rules progress) : Attains mode block input tape progress := by
  induction visits with
  | enter late => exact attained.enter late
  | step late _ ih => exact ih.step late same

/-- The levels are in order all along, and there is an operator where the run has stopped. -/
theorem sound (attained : Attains mode block input tape progress) (whole : block.Tidy) :
    progress.Sound block := by
  induction attained with
  | launch => exact ⟨Stack.stands_top _ _, nofun, nofun⟩
  | @enter machine late _ ih =>
    unfold Machine.enter
    split
    · refine ⟨?_, ih.plain, nofun⟩
      rintro stack ⟨⟩
      exact Stack.Stands.unwind ih.stands _
    · exact ih
  | step late _ _ ih => exact Machine.sound_step whole ih
  | again _ ih => exact ⟨ih.stands _ rfl, ih.plain, nofun⟩

/-- What the store has at the start and keeps in every step, it has all along. -/
theorem store {motive : Store → Prop} (attained : Attains mode block input tape progress)
    (whole : block.Tidy) (start : motive (.start tape input))
    (step : ∀ (machine : Machine) (rules : Rules) after, rules.mode = mode →
      machine.stack.Stands block machine.store.functions → machine.Stores rules after →
      motive machine.store → motive after) : motive progress.store := by
  induction attained with
  | launch => exact start
  | enter late _ ih =>
    rw [Machine.store_enter]
    exact ih
  | @step machine rules late before same ih =>
    exact step machine rules _ same (before.sound whole).stands (machine.stores_step rules late) ih
  | again _ ih => exact ih

end Attains

section Results

variable {config : Config} {input : Text} {block : Block}

theorem RunVisits.attains {source : Text} {tape : Tape} {progress : Progress}
    (visited : RunVisits config source input tape progress)
    (accepted : readScript source = .ok block) :
    Attains config.mode block input tape progress := by
  obtain ⟨_, read, again, visits⟩ := visited
  obtain rfl := Except.ok.inj (accepted.symm.trans again)
  exact Attains.launch.visits rfl visits

/-- A run that gives a result has come to it. -/
theorem runOn_attains {source : Text} {tape : Tape} (accepted : readScript source = .ok block)
    {fuel : Nat} {watch : Stopwatch} {result : Result}
    (ran : runOn fuel watch config source input tape = some result) :
    ∃ elapsed store outcome, result = .ofOutcome block elapsed store outcome ∧
      Attains config.mode block input tape (.halted store outcome) := by
  simp only [runOn, accepted] at ran
  obtain ⟨halt, run, shown⟩ := Option.bind_eq_some_iff.mp ran
  obtain rfl := Option.some.inj shown
  exact ⟨_, _, _, rfl, Attains.launch.visits rfl (Machine.visits_of_run run)⟩

theorem prepare_cases {chunks : List Text} {plan : Plan} {machine : Machine}
    (prepared : Session.prepare config chunks input = .ok (.inr (plan, machine))) :
    ∃ block, readScript chunks.flatten = .ok block ∧ plan = chunkPlan config chunks block ∧
      machine = .launch block (.start (.blank config.tapeSize) input) := by
  cases valid : config.validate with
  | error error =>
    rw [Session.prepare, valid] at prepared
    cases prepared
  | ok _ =>
    cases accepted : readScript chunks.flatten with
    | error rejection =>
      simp [Session.prepare, valid, accepted, bind, Except.bind, pure, Except.pure] at prepared
    | ok block =>
      cases (prepare_of_accepted valid accepted).symm.trans prepared
      exact ⟨block, rfl, rfl, rfl⟩

variable {chunks : List Text} {requests : List Session.Request} {session : Session}

/-- A session of a script has stopped in a state that the script comes to. -/
theorem Session.Reached.attains (accepted : readScript chunks.flatten = .ok block)
    (reached : Reached config chunks input requests session) :
    ∃ elapsed store outcome, session = (chunkPlan config chunks block).settle elapsed store outcome ∧
      Attains config.mode block input (.blank config.tapeSize) (.halted store outcome) := by
  induction reached with
  | start started =>
    rw [start_of_accepted (Reached.start started).valid accepted, Plan.proceed_eq] at started
    obtain ⟨halt, run, rfl⟩ := Option.map_eq_some_iff.mp (Except.ok.inj started)
    exact ⟨_, _, _, rfl, Attains.launch.visits rfl (Machine.visits_of_run run)⟩
  | @serve requests request fuel watch before after _ served ih =>
    obtain ⟨elapsed, store, outcome, rfl, attained⟩ := ih
    have continues := canContinue_of_serve served
    cases outcome with
    | paused stack =>
      have stands := (attained.sound (tidy_of_readScript accepted)).stands stack rfl
      rw [serve_eq, machine_settle stands] at served
      obtain ⟨halt, run, rfl⟩ := Option.map_eq_some_iff.mp (Except.ok.inj served)
      exact ⟨_, _, _, rfl, attained.again.visits rfl (Machine.visits_of_run run)⟩
    | finished | failed _ _ | overran _ => cases continues

/-- A session that can continue takes up the run where it has paused. -/
theorem Session.Reached.machine (accepted : readScript chunks.flatten = .ok block)
    (reached : Reached config chunks input requests session)
    (continues : session.canContinue = true) :
    ∃ elapsed store stack,
      session = (chunkPlan config chunks block).settle elapsed store (.paused stack) ∧
      session.machine = .ok ⟨store, stack, false⟩ ∧
      Attains config.mode block input (.blank config.tapeSize) (.halted store (.paused stack)) := by
  obtain ⟨elapsed, store, outcome, rfl, attained⟩ := reached.attains accepted
  cases outcome with
  | paused stack =>
    have stands := (attained.sound (tidy_of_readScript accepted)).stands stack rfl
    exact ⟨elapsed, store, stack, rfl, machine_settle stands, attained⟩
  | finished | failed _ _ | overran _ => cases continues

/-- A session that can continue is not lost. -/
theorem Session.Reached.exists_serve (reached : Reached config chunks input requests session)
    (continues : session.canContinue = true) (request : Session.Request) (fuel : Nat)
    (watch : Stopwatch) : ∃ next?, session.serve request fuel watch = .ok next? := by
  cases accepted : readScript chunks.flatten with
  | error rejection =>
    rw [(reached.of_rejected reached.valid accepted).2.1] at continues
    cases continues
  | ok block =>
    obtain ⟨_, store, stack, _, taken, _⟩ := reached.machine accepted continues
    rw [serve_eq, taken]
    exact ⟨_, rfl⟩

theorem Session.Visits.attains {progress : Progress} (visited : Visits config chunks input progress) :
    ∃ block, readScript chunks.flatten = .ok block ∧
      Attains config.mode block input (.blank config.tapeSize) progress := by
  cases visited with
  | start prepared visits =>
    obtain ⟨block, accepted, rfl, rfl⟩ := prepare_cases prepared
    exact ⟨block, accepted, Attains.launch.visits rfl visits⟩
  | @serve requests session machine request progress reached taken visits =>
    have continues : session.canContinue = true := by
      cases here : session.point with
      | none => simp [Session.machine, here] at taken
      | some point => rw [canContinue, here, Option.isSome_some]
    cases accepted : readScript chunks.flatten with
    | error rejection =>
      rw [(reached.of_rejected reached.valid accepted).2.1] at continues
      cases continues
    | ok block =>
      obtain ⟨elapsed, store, stack, rfl, again, attained⟩ := reached.machine accepted continues
      obtain rfl := Except.ok.inj (again.symm.trans taken)
      exact ⟨block, rfl, attained.again.visits rfl visits⟩

end Results

end TapeStepper
