import TapeStepper.Session
import TapeStepper.Proofs.Stops

namespace TapeStepper

theorem Config.validate_eq_ok {config : Config} (size : 0 < config.tapeSize)
    (unbounded : config.budget = none) : config.validate = .ok () := by
  simp [validate, fault?, Nat.ne_of_gt size, unbounded]

theorem Config.tapeSize_pos {config : Config} (valid : config.validate = .ok ()) :
    0 < config.tapeSize := by
  refine Nat.pos_of_ne_zero fun none => ?_
  simp [validate, fault?, none] at valid

theorem isLate_of_unbounded {config : Config} (unbounded : config.budget = none) (carried : Nat)
    (watch : Stopwatch) : isLate (config.deadline? carried) watch = never := by
  funext question
  simp [isLate, Config.deadline?, unbounded, never]

/-- The script at work on a tape, operator after operator, after some steps. -/
def plainRun (mode : CellMode) (block : Block) (input : Text) (tape : Tape) (count : Nat) : Progress :=
  (Progress.running (.launch block (.start tape input))).after (.plain mode) count

/-- Two results that differ in the time at most. -/
def Result.Agrees (first second : Result) : Prop :=
  { first with elapsed := second.elapsed } = second

theorem Result.agrees_ofOutcome (block : Block) (elapsed other : Nat) (store : Store)
    (outcome : Outcome) :
    (ofOutcome block elapsed store outcome).Agrees (ofOutcome block other store outcome) := rfl

/-- A tape as `runWithTape` takes it. -/
def CellMode.adapt (mode : CellMode) (tape : Tape) : Tape :=
  match mode with
  | .short => tape
  | .byte => tape.wrapToBytes

section Valid

variable {config : Config} {source : Text}

theorem run_eq_runOn (valid : config.validate = .ok ()) (fuel : Nat) (watch : Stopwatch)
    (input : Text) : run fuel watch config source input =
      .ok (runOn fuel watch config source input (.blank config.tapeSize)) := by
  simp [run, valid, bind, Except.bind, pure, Except.pure]

theorem runWithTape_eq_runOn (valid : config.validate = .ok ()) (fuel : Nat) (watch : Stopwatch)
    (input : Text) (tape : Tape) : runWithTape fuel watch config source input tape =
      .ok (runOn fuel watch config source input (config.mode.adapt tape)) := by
  unfold runWithTape CellMode.adapt
  rw [valid]
  cases config.mode <;> rfl

theorem run_of_invalid {error : ConfigError} (invalid : config.validate = .error error) (fuel : Nat)
    (watch : Stopwatch) (input : Text) : run fuel watch config source input = .error error := by
  rw [run, invalid]
  rfl

theorem runWithTape_of_invalid {error : ConfigError} (invalid : config.validate = .error error)
    (fuel : Nat) (watch : Stopwatch) (input : Text) (tape : Tape) :
    runWithTape fuel watch config source input tape = .error error := by
  rw [runWithTape, invalid]
  rfl

/-- What a run returns was returned for a valid configuration. -/
theorem runOn_of_run {fuel : Nat} {watch : Stopwatch} {input : Text} {result : Option Result}
    (ran : run fuel watch config source input = .ok result) :
    config.validate = .ok () ∧ runOn fuel watch config source input (.blank config.tapeSize) = result := by
  cases valid : config.validate with
  | error error =>
    rw [run_of_invalid valid] at ran
    cases ran
  | ok _ =>
    rw [run_eq_runOn valid] at ran
    exact ⟨rfl, Except.ok.inj ran⟩

theorem runOn_of_runWithTape {fuel : Nat} {watch : Stopwatch} {input : Text} {tape : Tape}
    {result : Option Result} (ran : runWithTape fuel watch config source input tape = .ok result) :
    runOn fuel watch config source input (config.mode.adapt tape) = result := by
  cases valid : config.validate with
  | error error =>
    rw [runWithTape_of_invalid valid] at ran
    cases ran
  | ok _ =>
    rw [runWithTape_eq_runOn valid] at ran
    exact Except.ok.inj ran

end Valid

section Accepted

variable {config : Config} {source input : Text} {tape : Tape} {block : Block}

theorem runOn_of_accepted (unbounded : config.budget = none)
    (accepted : readScript source = .ok block) (fuel : Nat) (watch : Stopwatch) :
    runOn fuel watch config source input tape =
      (Machine.run ⟨config.mode, .empty, true⟩ never fuel (.launch block (.start tape input))).map
        fun halt => .ofOutcome block (watch halt.steps) halt.store halt.outcome := by
  simp only [runOn, accepted, isLate_of_unbounded unbounded]
  rw [Option.map_eq_bind]
  rfl

/-- A machine that is run without breakpoints ends as the plain run does. -/
theorem plainRun_of_run {mode : CellMode} {fuel total : Nat} {store : Store} {outcome : Outcome}
    (runs : Machine.run ⟨mode, .empty, true⟩ never fuel (.launch block (.start tape input)) =
      some ⟨total, store, outcome⟩) :
    ∃ place, plainRun mode block input tape place = .halted store outcome := by
  have halts := Machine.run_never_iff.mp ⟨total, runs⟩
  obtain ⟨stop, first, value⟩ := Progress.stop_of_halts ⟨mode, .empty, true⟩
    (.running (.launch block (.start tape input))) Progress.after_zero rfl halts
  obtain ⟨last, result, ended⟩ := Progress.halted_of_stops Breakpoints.has_empty first.stops
  obtain ⟨rfl, rfl⟩ := Outcome.progress_eq_halted (value.symm.trans ended)
  exact ⟨stop, ended⟩

/-- A run to the end ends as the plain run does. -/
theorem runOn_ended (unbounded : config.budget = none) (accepted : readScript source = .ok block)
    {fuel : Nat} {watch : Stopwatch} {result : Result}
    (ran : runOn fuel watch config source input tape = some result) :
    ∃ place elapsed store outcome,
      plainRun config.mode block input tape place = .halted store outcome ∧
      result = .ofOutcome block elapsed store outcome := by
  rw [runOn_of_accepted unbounded accepted] at ran
  obtain ⟨⟨total, store, outcome⟩, runs, rfl⟩ := Option.map_eq_some_iff.mp ran
  obtain ⟨place, ended⟩ := plainRun_of_run runs
  exact ⟨place, watch total, store, outcome, ended, rfl⟩

theorem exists_runOn (unbounded : config.budget = none) (accepted : readScript source = .ok block)
    {place : Nat} {store : Store} {outcome : Outcome}
    (ended : plainRun config.mode block input tape place = .halted store outcome)
    (watch : Stopwatch) :
    ∃ fuel result, runOn fuel watch config source input tape = some result := by
  have stops : (plainRun config.mode block input tape place).Stops .empty := by
    rw [ended]
    trivial
  obtain ⟨stop, _, first⟩ :=
    Progress.exists_stopsFirst ⟨config.mode, .empty, true⟩ (Nat.zero_le place) stops
  obtain ⟨last, result, halts, _⟩ := Progress.halts_of_stop first rfl rfl
  obtain ⟨total, runs⟩ := Machine.run_never_iff.mpr halts
  refine ⟨stop + 1, .ofOutcome block (watch total) last result, ?_⟩
  rw [runOn_of_accepted unbounded accepted]
  exact Option.map_eq_some_iff.mpr ⟨_, runs, rfl⟩

theorem plainRun_end_unique {mode : CellMode} {first second : Nat} {store last : Store}
    {outcome result : Outcome} (ended : plainRun mode block input tape first = .halted store outcome)
    (again : plainRun mode block input tape second = .halted last result) :
    last = store ∧ result = outcome :=
  Progress.halted_unique ended again

end Accepted

end TapeStepper
