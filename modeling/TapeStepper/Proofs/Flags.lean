import TapeStepper.Proofs.Attained
import TapeStepper.Proofs.Failures

namespace TapeStepper

namespace Flag

/-- The flags of the faults that an operator can raise. -/
def raised : List Flag :=
  [upperBoundExceeded, lowerBoundExceeded, maxValueExceeded, negativeValue,
    stdoutBufferLimitExceeded, stdinBufferExhausted, duplicateFunctionDefinition,
    functionsLimitExceeded, undefinedFunctionCalled, callDepthExceeded]

/-- The kinds of failure. -/
def failures : List Flag :=
  [exceptionThrown, thresholdExceeded, mismatchedParentheses, noCodeInterpreted]

theorem raised_distinct : ∀ flag ∈ raised, textOutput ≠ flag ∧ noOutput ≠ flag ∧
    breakpointReached ≠ flag ∧ noCodeInterpreted ≠ flag := by
  decide

end Flag

namespace ExitCode

/-- How many of these flags are set. -/
def countOf (flags : List Flag) (code : ExitCode) : Nat :=
  flags.countP code.has

/-- A code tells either of success or of one kind of failure. An exception comes with the one flag
that tells which, and a pause is a success. -/
structure Orderly (code : ExitCode) : Prop where
  verdict : code.countOf [.success, .failure] = 1
  pauses : code.has .breakpointReached = true → code.has .success = true
  thrown : code.has .exceptionThrown = true ↔ code.countOf Flag.raised = 1
  single : code.countOf Flag.failures ≤ 1
  failed : code.has .failure = true ↔ code.countOf Flag.failures = 1

theorem countOf_withOutput (code : ExitCode) (output : List Char) {flags : List Flag}
    (printed : .textOutput ∉ flags) (silent : .noOutput ∉ flags) :
    (code.withOutput output).countOf flags = code.countOf flags := by
  refine List.countP_congr fun flag listed => ?_
  have apart : flag ≠ .textOutput ∧ flag ≠ .noOutput :=
    ⟨fun same => printed (same ▸ listed), fun same => silent (same ▸ listed)⟩
  rw [has_withOutput code output apart.1 apart.2]

theorem Orderly.withOutput {code : ExitCode} (orderly : code.Orderly) (output : List Char) :
    (code.withOutput output).Orderly := by
  have kept {flag : Flag} (printed : flag ≠ .textOutput) (silent : flag ≠ .noOutput) :
      (code.withOutput output).has flag = code.has flag :=
    has_withOutput _ _ printed silent
  have counted {flags : List Flag} (printed : .textOutput ∉ flags) (silent : .noOutput ∉ flags) :
      (code.withOutput output).countOf flags = code.countOf flags :=
    countOf_withOutput _ _ printed silent
  refine ⟨?_, ?_, ?_, ?_, ?_⟩
  · rw [counted (by decide) (by decide), orderly.verdict]
  · rw [kept (by decide) (by decide), kept (by decide) (by decide)]
    exact orderly.pauses
  · rw [kept (by decide) (by decide), counted (by decide) (by decide), orderly.thrown]
  · rw [counted (by decide) (by decide)]
    exact orderly.single
  · rw [kept (by decide) (by decide), counted (by decide) (by decide), orderly.failed]

theorem orderly_of_raised {flag : Flag} (listed : flag ∈ Flag.raised) :
    (ofFlags [.failure, .exceptionThrown, flag]).Orderly := by
  simp only [Flag.raised, List.mem_cons, List.not_mem_nil, or_false] at listed
  rcases listed with rfl | rfl | rfl | rfl | rfl | rfl | rfl | rfl | rfl | rfl <;>
    exact ⟨rfl, by decide, by decide, by decide, by decide⟩

end ExitCode

theorem Fault.orderly_exitCode (fault : Fault) : fault.exitCode.Orderly := by
  cases fault with
  | timeBudget => exact ⟨rfl, by decide, by decide, by decide, by decide⟩
  | upperBound | lowerBound | maxValue | negativeValue | outputLimit | inputExhausted
  | duplicateFunction _ | functionLimit | undefinedFunction _ | depthLimit =>
    exact ExitCode.orderly_of_raised (by decide)

/-- The flags of a result fit the rest of it. -/
structure Result.Fits (result : Result) : Prop where
  code : result.exitCode.Orderly
  output : result.exitCode.countOf [.noOutput, .textOutput] = 1
  printed : result.exitCode.has .textOutput = true ↔ result.output ≠ []
  bounded : result.output.length ≤ outputLimit
  paused : result.exitCode.has .breakpointReached = true ↔ ∃ offset, result.breakpoint = some offset
  here : ∀ offset, result.breakpoint = some offset →
    ∃ trace, result.trace = some trace ∧ offset = trace.offset
  traced : (∃ trace, result.trace = some trace) ↔ result.exitCode.has .breakpointReached = true ∨
    result.exitCode.has .failure = true ∧ result.exitCode.has .noCodeInterpreted = false

/-- A code gets the flag for the output last, so that it is enough to look at the flags before. -/
theorem Result.fits_of_flags {result : Result} {flags : List Flag}
    (orderly : (ExitCode.ofFlags flags).Orderly) (unprinted : .textOutput ∉ flags)
    (unsilent : .noOutput ∉ flags)
    (coded : result.exitCode = (ExitCode.ofFlags flags).withOutput result.output)
    (bounded : result.output.length ≤ outputLimit)
    (paused : .breakpointReached ∈ flags ↔ ∃ offset, result.breakpoint = some offset)
    (here : ∀ offset, result.breakpoint = some offset →
      ∃ trace, result.trace = some trace ∧ offset = trace.offset)
    (traced : (∃ trace, result.trace = some trace) ↔
      .breakpointReached ∈ flags ∨ .failure ∈ flags ∧ .noCodeInterpreted ∉ flags) : result.Fits := by
  have kept {flag : Flag} (printed : flag ≠ .textOutput) (silent : flag ≠ .noOutput) :
      result.exitCode.has flag = decide (flag ∈ flags) := by
    rw [coded, ExitCode.has_withOutput _ _ printed silent, ExitCode.has_ofFlags]
  have told : result.exitCode.has .textOutput = !result.output.isEmpty ∧
      result.exitCode.has .noOutput = result.output.isEmpty := by
    rw [coded, ExitCode.withOutput]
    cases result.output.isEmpty <;> simp [ExitCode.has_ofFlags, unprinted, unsilent]
  refine ⟨?_, ?_, ?_, bounded, ?_, here, ?_⟩
  · rw [coded]
    exact orderly.withOutput _
  · simp only [ExitCode.countOf, List.countP_cons, List.countP_nil, told]
    cases result.output.isEmpty <;> rfl
  · rw [told.1]
    simp
  · rw [kept (by decide) (by decide), decide_eq_true_iff, paused]
  · rw [kept (by decide) (by decide), kept (by decide) (by decide), kept (by decide) (by decide), traced]
    simp only [decide_eq_true_iff, decide_eq_false_iff_not]

theorem Rejection.fits_result (rejection : Rejection) (source : Text) (tape : Tape) :
    (rejection.result source tape).Fits := by
  cases rejection with
  | noCode =>
    have orderly : (ExitCode.ofFlags [.failure, .noCodeInterpreted]).Orderly :=
      ⟨rfl, by decide, by decide, by decide, by decide⟩
    refine Result.fits_of_flags orderly (by decide) (by decide) rfl (Nat.zero_le _) ?_ ?_ ?_
    · simp [result, Result.notStarted]
    · intro offset paused
      cases paused
    · simp [result, Result.notStarted]
  | mismatched offset =>
    have orderly : (ExitCode.ofFlags [.failure, .mismatchedParentheses]).Orderly :=
      ⟨rfl, by decide, by decide, by decide, by decide⟩
    refine Result.fits_of_flags orderly (by decide) (by decide) rfl (Nat.zero_le _) ?_ ?_ ?_
    · simp [result, Result.notStarted]
    · intro offset paused
      cases paused
    · simp [result, Result.notStarted]

section Outcomes

variable {block : Block} {elapsed : Nat} {store : Store}

/-- The result of a run that was stopped by a fault. -/
theorem Fault.fits_ofOutcome (fault : Fault) {outcome : Outcome} {trace : Trace}
    (coded : outcome.exitCode = fault.exitCode) (stopped : outcome.resumePoint? = none)
    (shown : outcome.trace? = some trace) : (Result.ofOutcome block elapsed store outcome).Fits := by
  have nowhere : (Result.ofOutcome block elapsed store outcome).breakpoint = none := by
    simp [Result.ofOutcome, stopped]
  have traced : (Result.ofOutcome block elapsed store outcome).trace = some trace := shown
  have orderly := fault.orderly_exitCode
  unfold Fault.exitCode at coded orderly
  split at coded
  · rename_i flag named
    rw [named] at orderly
    have listed : flag ∈ Flag.raised := by
      cases fault <;> cases named <;> decide
    have distinct := Flag.raised_distinct flag listed
    refine Result.fits_of_flags orderly (by simp [distinct]) (by simp [distinct]) ?_
      store.output.bounded (by simp [nowhere, distinct]) (by simp [nowhere]) (by simp [traced, distinct])
    rw [← coded]
    rfl
  · rename_i named
    rw [named] at orderly
    refine Result.fits_of_flags orderly (by decide) (by decide) ?_ store.output.bounded
      (by simp [nowhere]) (by simp [nowhere]) (by simp [traced])
    rw [← coded]
    rfl

/-- The result of a run, if the run has not paused behind the end of a body. -/
theorem Outcome.fits_ofOutcome (block : Block) (elapsed : Nat) (store : Store) {outcome : Outcome}
    (inside : ∀ stack, outcome = .paused stack → stack.inner.isOver = false) :
    (Result.ofOutcome block elapsed store outcome).Fits := by
  cases outcome with
  | finished =>
    have orderly : (ExitCode.ofFlags [.success]).Orderly :=
      ⟨rfl, by decide, by decide, by decide, by decide⟩
    refine Result.fits_of_flags orderly (by decide) (by decide) rfl store.output.bounded ?_ nofun ?_
    · simp [Result.ofOutcome, resumePoint?]
    · simp [Result.ofOutcome, trace?]
  | paused stack =>
    have orderly : (ExitCode.ofFlags [.success, .breakpointReached]).Orderly :=
      ⟨rfl, by decide, by decide, by decide, by decide⟩
    obtain ⟨token, here⟩ := Level.exists_current? (inside stack rfl)
    refine Result.fits_of_flags orderly (by decide) (by decide) rfl store.output.bounded ?_ ?_ ?_
    · simp [Result.ofOutcome, resumePoint?]
    · rintro offset ⟨⟩
      exact ⟨_, rfl, (Level.offset_of_current? here).trans (Stack.offset_ofFrames here).symm⟩
    · simp [Result.ofOutcome, trace?]
  | failed fault stack => exact fault.fits_ofOutcome rfl rfl rfl
  | overran stack => exact Fault.timeBudget.fits_ofOutcome rfl rfl rfl

end Outcomes

namespace Machine

variable {rules : Rules} {late : Nat → Bool} {machine : Machine} {halt : Halt} {stack : Stack}

/-- Only an operator at a breakpoint makes a run pause. -/
theorem pausesAt_of_step {late : Bool} {store : Store}
    (step : machine.step rules late = .halted store (.paused stack)) :
    stack.inner.isOver = false ∧ rules.pausesAt stack.inner.offset = true := by
  obtain ⟨rfl, rfl, _, inside, marked⟩ := of_step_paused step
  exact ⟨inside, marked⟩

theorem pausesAt_of_run {fuel : Nat} (run : machine.run rules late fuel = some halt)
    (paused : halt.outcome = .paused stack) :
    stack.inner.isOver = false ∧ rules.pausesAt stack.inner.offset = true := by
  have visits := visits_of_run run
  rw [paused] at visits
  generalize ended : Progress.halted halt.store (.paused stack) = progress at visits
  cases visits with
  | enter late =>
    unfold enter at ended
    split at ended
    · cases (Progress.halted.inj ended).2
    · cases ended
  | step late _ => exact pausesAt_of_step ended.symm

end Machine

/-- A session can continue exactly if its result tells of a pause, which is at one of its breakpoints. -/
structure Session.Fits (session : Session) : Prop where
  result : session.result.Fits
  continues : session.canContinue = true ↔ session.result.exitCode.has .breakpointReached = true
  listed : ∀ offset, session.result.breakpoint = some offset → offset ∈ session.breakpoints

section Results

variable {config : Config} {input : Text}

theorem fits_of_runOn {source : Text} {tape : Tape} {fuel : Nat} {watch : Stopwatch} {result : Result}
    (ran : runOn fuel watch config source input tape = some result) :
    result.Fits ∧ result.exitCode.has .breakpointReached = false := by
  cases accepted : readScript source with
  | error rejection =>
    simp only [runOn, accepted, Option.some.injEq] at ran
    rw [← ran]
    exact ⟨rejection.fits_result source tape, rejection.has_result (by decide)⟩
  | ok block =>
    simp only [runOn, accepted] at ran
    obtain ⟨halt, run, shown⟩ := Option.bind_eq_some_iff.mp ran
    obtain rfl := Option.some.inj shown
    have unpaused (stack : Stack) : halt.outcome ≠ .paused stack := by
      intro paused
      have marked := (Machine.pausesAt_of_run run paused).2
      simp [Rules.pausesAt] at marked
    have fits := Outcome.fits_ofOutcome block (watch halt.steps) halt.store
      fun stack paused => absurd paused (unpaused stack)
    refine ⟨fits, ?_⟩
    rw [← Bool.not_eq_true, fits.paused]
    rintro ⟨offset, stops⟩
    obtain ⟨point, pauses, _⟩ := Option.map_eq_some_iff.mp stops
    cases ended : halt.outcome with
    | paused stack => exact unpaused stack ended
    | finished | failed _ _ | overran _ =>
      rw [ended] at pauses
      cases pauses

theorem Plan.fits_proceed {plan : Plan} {fuel carried : Nat} {watch : Stopwatch} {offsets : List Nat}
    {machine : Machine} {session : Session} (listed : ∀ offset ∈ offsets, offset ∈ plan.breakpoints)
    (proceeds : plan.proceed fuel watch carried offsets machine = some session) : session.Fits := by
  rw [proceed_eq] at proceeds
  obtain ⟨⟨total, store, outcome⟩, run, rfl⟩ := Option.map_eq_some_iff.mp proceeds
  have fits := Outcome.fits_ofOutcome plan.block (carried + watch total) store
    fun stack paused => (Machine.pausesAt_of_run run paused).1
  refine ⟨fits, ?_, ?_⟩
  · refine Iff.trans ?_ fits.paused.symm
    rw [← Option.isSome_iff_exists, Result.ofOutcome, Option.isSome_map]
    rfl
  · intro offset stops
    cases outcome with
    | paused stack =>
      obtain rfl : stack.inner.offset = offset := Option.some.inj stops
      have marked := (Machine.pausesAt_of_run run rfl).2
      rw [Rules.pausesAt, rules, Breakpoints.has_ofList, List.contains_iff_mem] at marked
      exact listed _ marked
    | finished | failed _ _ | overran _ => cases stops

theorem Session.Reached.fits {chunks : List Text} {requests : List Session.Request} {session : Session}
    (reached : Reached config chunks input requests session) : session.Fits := by
  cases reached with
  | start started =>
    have valid := (Reached.start started).valid
    cases accepted : readScript chunks.flatten with
    | error rejection =>
      rw [start_of_rejected valid accepted] at started
      cases started
      have unpaused : (rejection.result chunks.flatten (.blank config.tapeSize)).exitCode.has
          .breakpointReached = false := rejection.has_result (by decide)
      refine ⟨rejection.fits_result _ _, ?_, ?_⟩
      · simp [canContinue, rejected, unpaused]
      · intro offset stops
        cases rejection <;> cases stops
    | ok block =>
      rw [start_of_accepted valid accepted] at started
      exact Plan.fits_proceed (fun _ listed => listed) (Except.ok.inj started)
  | @serve _ request fuel watch before after _ served =>
    rw [serve_eq] at served
    cases taken : before.machine with
    | error error =>
      rw [taken] at served
      cases served
    | ok machine =>
      rw [taken] at served
      cases request with
      | resume => exact Plan.fits_proceed (fun _ listed => listed) (Except.ok.inj served)
      | complete => exact Plan.fits_proceed (fun _ none => by cases none) (Except.ok.inj served)

end Results

/-- Whatever has been run, from a blank tape or from a given one, under any clock, or in a session
after any number of requests, the flags of the result fit it. A run without breakpoints never tells
of a pause, and a session can continue exactly if its result does. -/
theorem flags_fit_the_result (config : Config) (input : Text) :
    (∀ source fuel watch result, run fuel watch config source input = .ok (some result) →
      result.Fits ∧ result.exitCode.has .breakpointReached = false) ∧
    (∀ source tape fuel watch result,
      runWithTape fuel watch config source input tape = .ok (some result) →
      result.Fits ∧ result.exitCode.has .breakpointReached = false) ∧
    ∀ chunks requests session, Session.Reached config chunks input requests session →
      session.Fits := by
  refine ⟨?_, ?_, ?_⟩
  · intro source fuel watch result ran
    exact fits_of_runOn (runOn_of_run ran).2
  · intro source tape fuel watch result ran
    exact fits_of_runOn (runOn_of_runWithTape ran)
  · intro chunks requests session reached
    exact reached.fits

/-- A script that is refused, one that the clock stops in its loop, and a session that has printed and
paused. -/
theorem flags_fit_the_result_of_every_kind :
    (∃ result, run 0 (fun _ => 0) ⟨.short, 1, none⟩ [']'] [] = .ok (some result) ∧
      result.exitCode.has .mismatchedParentheses = true ∧ result.Fits) ∧
    (∃ result, runWithTape 9 id ⟨.short, 1, some 1⟩ ['+', '[', ']'] [] ⟨[], 0, []⟩ = .ok (some result) ∧
      result.exitCode.has .thresholdExceeded = true ∧ result.Fits) ∧
    ∃ session, Session.Reached ⟨.short, 1, none⟩ [['+', '.'], ['+']] [] [] session ∧
      session.result.output = [Char.ofNat 1] ∧ session.result.breakpoint = some 2 ∧ session.Fits := by
  obtain ⟨atOnce, _, inSession⟩ := flags_fit_the_result ⟨.short, 1, none⟩ []
  have started := @Session.Reached.start ⟨.short, 1, none⟩ [['+', '.'], ['+']] [] 9 (fun _ => 0) _ rfl
  refine ⟨⟨_, rfl, rfl, (atOnce [']'] 0 (fun _ => 0) _ rfl).1⟩, ?_,
    ⟨_, started, by decide, rfl, inSession _ _ _ started⟩⟩
  exact ⟨_, rfl, rfl, ((flags_fit_the_result ⟨.short, 1, some 1⟩ []).2.1 ['+', '[', ']'] ⟨[], 0, []⟩ 9 id _
    rfl).1⟩

end TapeStepper
