import TapeStepper.Proofs.Traces

namespace TapeStepper

/-- What a run keeps of an earlier store. -/
structure Store.Extends (before after : Store) : Prop where
  output : before.output.chars <+: after.output.chars
  operations : before.operations ≤ after.operations
  functions : before.functions.entries.Sublist after.functions.entries
  size : after.tape.size = before.tape.size

theorem FunctionTable.sublist_insertEntry {Body : Type} (key : Nat) (body : Body)
    (entries : List (Nat × Body)) : entries.Sublist (insertEntry key body entries) := by
  induction entries with
  | nil => exact List.nil_sublist _
  | cons entry rest ih =>
    unfold insertEntry
    split
    · exact List.sublist_cons_self ..
    · exact ih.cons_cons entry

theorem CellMode.size_increment? {mode : CellMode} {tape changed : Tape}
    (step : mode.increment? tape = some changed) : changed.size = tape.size := by
  have plain (step : tape.increment? = some changed) : changed.size = tape.size := by
    obtain ⟨_, ⟨⟩⟩ := Option.ite_none_right_eq_some.mp step
    rfl
  cases mode with
  | short => exact plain step
  | byte =>
    simp only [increment?] at step
    split at step
    · cases step
      rfl
    · exact plain step

theorem CellMode.size_decrement? {mode : CellMode} {tape changed : Tape}
    (step : mode.decrement? tape = some changed) : changed.size = tape.size := by
  cases mode with
  | short =>
    obtain ⟨_, ⟨⟩⟩ := Option.ite_none_right_eq_some.mp step
    rfl
  | byte =>
    simp only [decrement?, Tape.decrement?, Option.some.injEq] at step
    rw [← step]
    split <;> rfl

namespace Store

variable {mode : CellMode} {store changed : Store} {action : Action}

namespace Extends

theorem refl (store : Store) : store.Extends store :=
  ⟨List.prefix_rfl, Nat.le_refl _, List.Sublist.refl _, rfl⟩

theorem trans {first second third : Store} (grown : first.Extends second)
    (further : second.Extends third) : first.Extends third where
  output := grown.output.trans further.output
  operations := Nat.le_trans grown.operations further.operations
  functions := grown.functions.trans further.functions
  size := further.size.trans grown.size

theorem count (grown : store.Extends changed) (operations : Nat) :
    store.Extends (changed.count operations) :=
  { grown with operations := Nat.le_trans grown.operations (Nat.le_add_right ..) }

theorem withTape {tape : Tape} (same : tape.size = store.tape.size) :
    store.Extends (store.withTape tape) :=
  { refl store with size := same }

end Extends

theorem extends_of_perform (result : store.perform mode action = .ok changed) :
    store.Extends changed := by
  have size_eq {tape moved : Tape} (same : moved.cells = tape.cells) : moved.size = tape.size := by
    rw [← Tape.cells_length, ← Tape.cells_length, same]
  cases action with
  | next =>
    simp only [perform] at result
    split at result <;> cases result
    rename_i tape step
    exact .withTape (size_eq (Tape.cells_next? step).1)
  | back =>
    simp only [perform] at result
    split at result <;> cases result
    rename_i tape step
    exact .withTape (size_eq (Tape.cells_back? step).1)
  | plus =>
    simp only [perform] at result
    split at result <;> cases result
    rename_i tape step
    exact .withTape (CellMode.size_increment? step)
  | minus =>
    simp only [perform] at result
    split at result <;> cases result
    rename_i tape step
    exact .withTape (CellMode.size_decrement? step)
  | print =>
    simp only [perform] at result
    split at result <;> cases result
    rename_i output step
    exact { Extends.refl store with output := ⟨_, (Output.chars_write? step).symm⟩ }
  | read =>
    simp only [perform] at result
    split at result
    · cases result
    · split at result <;> cases result
      exact { Extends.refl store with size := rfl }

end Store

namespace Machine

variable {rules : Rules} {machine : Machine} {progress : Progress} {halt : Halt}

theorem Stores.grows {after : Store} (stores : machine.Stores rules after) :
    machine.store.Extends after := by
  cases stores with
  | same => exact .refl _
  | counts => exact (Store.Extends.refl _).count 1
  | acts here result => exact (Store.extends_of_perform result).count 1
  | resets =>
    have same : (machine.store.tape.set 0).size = machine.store.tape.size := rfl
    exact (Store.Extends.withTape same).count _
  | defines here result =>
    obtain ⟨_, _, rfl⟩ := FunctionTable.define_ok_iff.mp result
    exact { Store.Extends.refl machine.store with
      functions := FunctionTable.sublist_insertEntry _ _ _ }

theorem extends_finish {late : Nat → Bool} {fuel steps : Nat}
    (run : progress.finish rules late fuel steps = some halt) : progress.store.Extends halt.store := by
  induction fuel generalizing steps progress with
  | zero =>
    cases progress with
    | halted store outcome =>
      cases run
      exact .refl _
    | running last => cases run
  | succ fuel ih =>
    cases progress with
    | halted store outcome =>
      cases run
      exact .refl _
    | running last => exact (last.stores_step rules (late steps)).grows.trans (ih run)

theorem extends_run {late : Nat → Bool} {fuel : Nat} (run : machine.run rules late fuel = some halt) :
    machine.store.Extends halt.store := by
  have grown := extends_finish run
  rwa [store_enter] at grown

/-- Every operator is counted but a definition, and one that fails. -/
theorem Executes.counted {late : Bool} (move : machine.Executes rules late progress) :
    machine.store.operations < progress.store.operations ∨
    (∃ opens body closes next, machine.stack.inner.rest = .define opens body closes next) ∨
    ∃ fault, progress = .halted machine.store (.failed fault machine.stack) := by
  cases move with
  | acts here result => exact .inl (Nat.lt_succ_of_le (Store.extends_of_perform result).operations)
  | skipsLoop _ _ => exact .inl (Nat.lt_succ_self _)
  | resetsCell _ _ _ => exact .inl (Nat.lt_add_of_pos_right (Nat.succ_pos _))
  | entersLoop _ _ _ | calls _ _ _ | repeatsLoop _ _ =>
    rw [store_arrive]
    exact .inl (Nat.lt_succ_self _)
  | endsLoop _ _ =>
    rw [store_leave]
    exact .inl (Nat.lt_succ_self _)
  | defines here _ => exact .inr (.inl ⟨_, _, _, _, here⟩)
  | actFails _ _ | defineFails _ _ | callsNothing _ _ | callsTooDeep _ _ _ =>
    exact .inr (.inr ⟨_, rfl⟩)

/-- A machine that is taken up runs an operator, unless the time is up before. -/
theorem run_counted {late : Nat → Bool} {fuel steps : Nat} {store : Store} {outcome : Outcome}
    (unarmed : machine.armed = false) (inside : machine.stack.inner.isOver = false)
    (run : machine.run rules late fuel = some ⟨steps, store, outcome⟩) :
    machine.store.operations < store.operations ∨
    (∃ opens body closes next, machine.stack.inner.rest = .define opens body closes next) ∨
    (∃ stack, outcome = .overran stack) ∨
    ∃ fault, store = machine.store ∧ outcome = .failed fault machine.stack := by
  unfold Machine.run enter at run
  split at run
  · cases fuel <;> cases run <;> exact .inr (.inr (.inl ⟨_, rfl⟩))
  · cases fuel with
    | zero => cases run
    | succ fuel =>
      rw [Progress.finish, step_of_execute inside (by simp [unarmed])] at run
      obtain more | defines | ⟨fault, failed⟩ :=
        (executes rules (late machine.stack.depth) machine).counted
      · exact .inl (Nat.lt_of_lt_of_le more (extends_finish run).operations)
      · exact .inr (.inl defines)
      · rw [failed] at run
        cases fuel <;> cases run <;> exact .inr (.inr (.inr ⟨fault, rfl, rfl⟩))

end Machine

/-- What a result keeps of an earlier one of the same session. -/
structure Result.Extends (before after : Result) : Prop where
  output : before.output <+: after.output
  operations : before.operations ≤ after.operations
  functions : before.functions.Sublist after.functions
  source : after.source = before.source
  size : after.tape.size = before.tape.size

theorem Result.Extends.trans {first second third : Result} (grown : first.Extends second)
    (further : second.Extends third) : first.Extends third where
  output := grown.output.trans further.output
  operations := Nat.le_trans grown.operations further.operations
  functions := grown.functions.trans further.functions
  source := further.source.trans grown.source
  size := further.size.trans grown.size

theorem Store.Extends.result {before after : Store} (grown : before.Extends after) (block : Block)
    (elapsed later : Nat) (outcome ended : Outcome) :
    (Result.ofOutcome block elapsed before outcome).Extends (.ofOutcome block later after ended) where
  output := grown.output
  operations := grown.operations
  functions := grown.functions.map _
  source := rfl
  size := grown.size

/-- The operator that was to be run next has failed, and nothing has changed. -/
structure Result.FailsAtOnce (before after : Result) : Prop where
  thrown : after.exitCode.has .exceptionThrown = true
  trace : after.trace = before.trace
  tape : after.tape = before.tape
  output : after.output = before.output
  operations : after.operations = before.operations
  functions : after.functions = before.functions

theorem Fault.has_exceptionThrown (fault : Fault) :
    fault.exitCode.has .exceptionThrown = !decide (fault = .timeBudget) := by
  cases fault <;> simp [exitCode, flag?, ExitCode.has_ofFlags]

theorem Outcome.thrown_of_failed {fault : Fault} {stack : Stack} {output : Text}
    (within : ((failed fault stack).exitCode.withOutput output).has .thresholdExceeded = false) :
    ((failed fault stack).exitCode.withOutput output).has .exceptionThrown = true := by
  rw [ExitCode.has_withOutput _ _ (by decide) (by decide)] at within ⊢
  rw [exitCode, Fault.has_thresholdExceeded] at within
  rw [exitCode, Fault.has_exceptionThrown, within]
  rfl

/-- What one request makes of a session of the script. More operations are counted, unless the first
operator is a definition or fails, or the time is up. -/
structure Session.Continues (source : Text) (before after : Session) : Prop where
  result : before.result.Extends after.result
  breakpoints : after.breakpoints = before.breakpoints
  counted : ∃ offset operator, before.result.breakpoint = some offset ∧
    operatorAt? source offset = some operator ∧
    (operator ≠ .functionStart → after.result.exitCode.has .thresholdExceeded = false →
      before.result.operations < after.result.operations ∨ before.result.FailsAtOnce after.result)

section Sessions

variable {config : Config} {chunks : List Text} {input : Text} {requests : List Session.Request}
  {session : Session}

/-- There is an operator of the script where a run has paused. -/
theorem Attains.operatorAt? {mode : CellMode} {block : Block} {source : Text} {tape : Tape}
    {store : Store} {stack : Stack}
    (attained : Attains mode block input tape (.halted store (.paused stack)))
    (accepted : readScript source = .ok block) :
    ∃ token, stack.inner.current? = some token ∧
      operatorAt? source stack.inner.offset = some token.operator := by
  have whole := tidy_of_readScript accepted
  have stands := (attained.sound whole).stands stack rfl
  obtain ⟨token, here⟩ := Level.exists_current? ((attained.sound whole).inside stack rfl)
  have listed := stands.current_mem (attained.drawn whole) here
  rw [(readScript_eq_ok_iff.mp accepted).2.2] at listed
  rw [Level.offset_of_current? here]
  exact ⟨token, here, operatorAt?_of_mem_tokens listed⟩

theorem Session.Reached.continues (reached : Reached config chunks input requests session)
    {request : Session.Request} {fuel : Nat} {watch : Stopwatch} {next : Session}
    (served : session.serve request fuel watch = .ok (some next)) :
    session.Continues chunks.flatten next := by
  have continues := canContinue_of_serve served
  cases accepted : readScript chunks.flatten with
  | error rejection =>
    rw [(reached.of_rejected reached.valid accepted).2.1] at continues
    cases continues
  | ok block =>
    obtain ⟨elapsed, store, stack, rfl, taken, attained⟩ := reached.machine accepted continues
    rw [serve_eq, taken] at served
    obtain ⟨⟨steps, later, outcome⟩, run, rfl⟩ := Option.map_eq_some_iff.mp (Except.ok.inj served)
    have sound := attained.sound (tidy_of_readScript accepted)
    obtain ⟨token, here, spelled⟩ := attained.operatorAt? accepted
    refine ⟨(Machine.extends_run run).result block _ _ _ _, rfl, _, _, rfl, spelled, ?_⟩
    intro counts within
    obtain more | ⟨opens, body, closes, rest, defines⟩ | ⟨last, rfl⟩ | ⟨fault, same, failed⟩ :=
      Machine.run_counted rfl (sound.inside stack rfl) run
    · exact .inl more
    -- The operator that was resumed from is the first one of the run.
    · have token_eq := (Level.current?_of_rest defines rfl).symm.trans here
      obtain rfl := Option.some.inj token_eq
      exact absurd rfl counts
    · cases (Outcome.has_thresholdExceeded _ _).symm.trans within
    · obtain rfl : later = store := same
      obtain rfl : outcome = .failed fault stack := failed
      exact .inr ⟨Outcome.thrown_of_failed within, rfl, rfl, rfl, rfl, rfl⟩

/-- A session that is over answers every call so, and stays as it is. -/
theorem Session.answers_of_over (closed : session.canContinue = false) (calls : List Session.Call) :
    session.answers calls = calls.map fun _ => .error .terminated := by
  have refused (call : Session.Call) :
      session.serve call.request call.fuel call.watch = .error .terminated := by
    have nowhere : session.point = none := by simpa [canContinue] using closed
    rw [serve_eq, Session.machine, nowhere]
    rfl
  induction calls with
  | nil => rfl
  | cons call calls ih =>
    simp only [answers, refused call, ih]
    rfl

/-- Along any calls each result that is answered extends all that came before. -/
theorem Session.Reached.pairwise_extends (reached : Reached config chunks input requests session)
    (calls : List Session.Call) :
    (session.result :: (session.answers calls).filterMap Except.toOption).Pairwise Result.Extends := by
  induction calls generalizing session requests with
  | nil => exact List.pairwise_singleton ..
  | cons call calls ih =>
    unfold answers
    split
    · exact ih reached
    · exact List.pairwise_singleton ..
    · rename_i next served
      have grown := (reached.continues served).result
      have further := ih (reached.serve served)
      refine List.pairwise_cons.mpr ⟨?_, further⟩
      intro later listed
      rcases List.mem_cons.mp listed with rfl | behind
      · exact grown
      · exact grown.trans ((List.pairwise_cons.mp further).1 later behind)

end Sessions

end TapeStepper
