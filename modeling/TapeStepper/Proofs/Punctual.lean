import TapeStepper.Proofs.Sessions

namespace TapeStepper

/-- The run was stopped by the clock. -/
def Outcome.isOverrun : Outcome → Bool
  | overran _ => true
  | finished | paused _ | failed _ _ => false

namespace Machine

variable {rules : Rules} {late : Bool} {machine : Machine} {progress : Progress}

theorem arrive_cases (late : Bool) (store : Store) (stack : Stack) :
    arrive late store stack = arrive false store stack ∨
      arrive late store stack = .halted store (.overran stack) := by
  cases late with
  | false => exact .inl rfl
  | true => exact .inr rfl

/-- The clock's answer matters only where a body is entered or repeated, and there it can only stop
the run. -/
theorem Executes.late_cases (move : machine.Executes rules late progress) :
    machine.execute rules false = progress ∨ ∃ store stack, progress = .halted store (.overran stack) := by
  cases move with
  | acts here result => exact .inl (Executes.acts here result).execute_eq
  | actFails here result => exact .inl (Executes.actFails here result).execute_eq
  | skipsLoop here zero => exact .inl (Executes.skipsLoop here zero).execute_eq
  | resetsCell here nonzero skips => exact .inl (Executes.resetsCell here nonzero skips).execute_eq
  | defines here result => exact .inl (Executes.defines here result).execute_eq
  | defineFails here result => exact .inl (Executes.defineFails here result).execute_eq
  | callsNothing here unbound => exact .inl (Executes.callsNothing here unbound).execute_eq
  | callsTooDeep here bound deep => exact .inl (Executes.callsTooDeep here bound deep).execute_eq
  | endsLoop here zero => exact .inl (Executes.endsLoop here zero).execute_eq
  | entersLoop here nonzero enters =>
    rcases arrive_cases late _ _ with same | overrun
    · exact .inl ((Executes.entersLoop here nonzero enters).execute_eq.trans same.symm)
    · exact .inr ⟨_, _, overrun⟩
  | calls here bound room =>
    rcases arrive_cases late _ _ with same | overrun
    · exact .inl ((Executes.calls here bound room).execute_eq.trans same.symm)
    · exact .inr ⟨_, _, overrun⟩
  | repeatsLoop here nonzero =>
    rcases arrive_cases late _ _ with same | overrun
    · exact .inl ((Executes.repeatsLoop here nonzero).execute_eq.trans same.symm)
    · exact .inr ⟨_, _, overrun⟩

theorem step_late_cases (rules : Rules) (late : Bool) (machine : Machine) :
    machine.step rules late = machine.step rules false ∨
      ∃ store stack, machine.step rules late = .halted store (.overran stack) := by
  obtain ⟨atEnd, step⟩ | ⟨inside, armed, marked, step⟩ | ⟨inside, free, step⟩ :=
    step_cases rules late machine
  · exact .inl (step.trans (step_of_over atEnd).symm)
  · exact .inl (step.trans (step_of_pause inside armed marked).symm)
  · rcases (executes rules late machine).late_cases with same | ⟨store, stack, overrun⟩
    · exact .inl (step.trans (same.symm.trans (step_of_execute inside free).symm))
    · exact .inr ⟨store, stack, step.trans overrun⟩

end Machine

theorem Progress.finish_never {rules : Rules} {late : Nat → Bool} {fuel steps : Nat}
    {progress : Progress} {halt : Halt} (run : progress.finish rules late fuel steps = some halt)
    (punctual : halt.outcome.isOverrun = false) :
    progress.finish rules never fuel steps = some halt := by
  induction fuel generalizing steps progress with
  | zero =>
    cases progress with
    | halted store outcome => simpa only [finish] using run
    | running machine => simp [finish] at run
  | succ fuel ih =>
    cases progress with
    | halted store outcome => simpa only [finish] using run
    | running machine =>
      rw [finish] at run ⊢
      rcases machine.step_late_cases rules (late steps) with same | ⟨store, stack, overrun⟩
      · rw [same] at run
        exact ih run
      · rw [overrun, finish] at run
        cases run
        cases punctual

/-- A run that the clock did not stop is the run without a clock. -/
theorem Machine.run_never_of_punctual {rules : Rules} {late : Nat → Bool} {fuel : Nat}
    {machine : Machine} {halt : Halt} (run : machine.run rules late fuel = some halt)
    (punctual : halt.outcome.isOverrun = false) : machine.run rules never fuel = some halt := by
  rw [run_never]
  unfold Machine.run Machine.enter at run
  split at run
  · rw [Progress.finish] at run
    cases run
    cases punctual
  · exact Progress.finish_never run punctual

section Results

variable {config : Config} {source input : Text} {tape : Tape} {block : Block}

/-- A result tells of a run that the clock has stopped, or of the end of the plain run. -/
theorem runOn_cases (accepted : readScript source = .ok block) {fuel : Nat} {watch : Stopwatch}
    {result : Result} (ran : runOn fuel watch config source input tape = some result) :
    ∃ elapsed store outcome, result = .ofOutcome block elapsed store outcome ∧
      (outcome.isOverrun = true ∨
        ∃ place, plainRun config.mode block input tape place = .halted store outcome) := by
  simp only [runOn, accepted] at ran
  obtain ⟨halt, run, shown⟩ := Option.bind_eq_some_iff.mp ran
  obtain rfl := Option.some.inj shown
  cases overrun : halt.outcome.isOverrun with
  | true => exact ⟨_, _, _, rfl, .inl overrun⟩
  | false =>
    have unclocked : runOn fuel watch { config with budget := none } source input tape =
        some (.ofOutcome block (watch halt.steps) halt.store halt.outcome) := by
      rw [runOn_of_accepted rfl accepted, Machine.run_never_of_punctual run overrun]
      rfl
    obtain ⟨place, elapsed, store, outcome, ended, same⟩ := runOn_ended rfl accepted unclocked
    exact ⟨_, _, _, same, .inr ⟨place, ended⟩⟩

end Results

section Sessions

variable {config : Config} {chunks : List Text} {input : Text} {block : Block}
  {requests : List Session.Request} {session : Session}

/-- A session after a run that the clock has stopped, or one that stands on the plain run. -/
inductive Session.Stopped (plan : Plan) (input : Text) : Session → Prop
  | overran {elapsed store stack} : Stopped plan input (plan.settle elapsed store (.overran stack))
  | stands {place session} : session.StandsAt plan input place → Stopped plan input session

theorem Plan.stopped_proceed {plan : Plan} {fuel carried : Nat} {watch : Stopwatch}
    {offsets : List Nat} {machine : Machine}
    (proceeds : plan.proceed fuel watch carried offsets machine = some session)
    (stands : ∀ total store outcome elapsed,
      machine.run (plan.rules offsets) never fuel = some ⟨total, store, outcome⟩ →
        ∃ place, (plan.settle elapsed store outcome).StandsAt plan input place) :
    session.Stopped plan input := by
  rw [proceed_eq] at proceeds
  obtain ⟨⟨total, store, outcome⟩, run, rfl⟩ := Option.map_eq_some_iff.mp proceeds
  cases outcome with
  | overran stack => exact .overran
  | finished | paused _ | failed _ _ =>
    obtain ⟨place, standsAt⟩ := stands _ _ _ _ (Machine.run_never_of_punctual run rfl)
    exact .stands standsAt

/-- Whatever the budget, a session that the clock has not stopped stands on the plain run. -/
theorem Session.Reached.stopped (accepted : readScript chunks.flatten = .ok block)
    (reached : Reached config chunks input requests session) :
    session.Stopped (chunkPlan config chunks block) input := by
  induction reached with
  | start started =>
    rw [start_of_accepted (Reached.start started).valid accepted] at started
    refine Plan.stopped_proceed (Except.ok.inj started) ?_
    intro total store outcome elapsed run
    obtain ⟨stop, _, standsAt⟩ := launch_standsAt run elapsed
    exact ⟨stop, standsAt⟩
  | @serve requests request fuel watch before after _ served ih =>
    have continues := canContinue_of_serve served
    cases ih with
    | overran => cases continues
    | stands stopped =>
      obtain ⟨machine, taken, _⟩ := stopped.machine continues
      rw [serve_eq, stopped.plan_eq, taken] at served
      refine Plan.stopped_proceed (Except.ok.inj served) ?_
      intro total store outcome elapsed run
      obtain ⟨stop, _, standsAt⟩ := stopped.settle taken run elapsed
      exact ⟨stop, standsAt⟩

end Sessions

end TapeStepper
