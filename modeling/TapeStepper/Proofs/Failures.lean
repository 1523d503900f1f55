import TapeStepper.Proofs.Adequacy
import TapeStepper.Proofs.Bounds
import TapeStepper.Proofs.Punctual
import TapeStepper.Proofs.Resumption

namespace TapeStepper

/-- The operator at an offset of a script. -/
def operatorAt? (source : Text) (offset : Nat) : Option Operator :=
  source[offset]?.bind Operator.ofChar?

theorem operatorAt?_of_mem_tokensFrom {base : Nat} {source : Text} {token : Token}
    (listed : token ∈ tokensFrom base source) :
    ∃ index, token.offset = base + index ∧ operatorAt? source index = some token.operator := by
  induction source generalizing base with
  | nil => cases listed
  | cons c rest ih =>
    have later (behind : token ∈ tokensFrom (base + 1) rest) : ∃ index, token.offset = base + index ∧
        operatorAt? (c :: rest) index = some token.operator := by
      obtain ⟨index, offset, read⟩ := ih behind
      exact ⟨index + 1, by omega, read⟩
    unfold tokensFrom at listed
    split at listed
    · rename_i operator read
      rcases List.mem_cons.mp listed with rfl | behind
      · exact ⟨0, rfl, read⟩
      · exact later behind
    · exact later listed

theorem operatorAt?_of_mem_tokens {source : Text} {token : Token} (listed : token ∈ tokens source) :
    operatorAt? source token.offset = some token.operator := by
  obtain ⟨index, offset, read⟩ := operatorAt?_of_mem_tokensFrom listed
  rw [offset, Nat.zero_add]
  exact read

/-- The keys that a result lists functions under. -/
def Result.keys (result : Result) : List Nat :=
  result.functions.map FunctionListing.key

/-- What a result shows when the flag was raised at an operator. `pending` is the input that was left
then. A flag that is not raised by an operator shows nothing. -/
def Flag.Evident (mode : CellMode) (pending : Text) (operator : Operator) (result : Result) : Flag → Prop
  | upperBoundExceeded =>
    operator = .act .next ∧ result.tape.position + 1 = result.tape.cells.length
  | lowerBoundExceeded => operator = .act .back ∧ result.tape.position = 0
  | maxValueExceeded => operator = .act .plus ∧ mode = .short ∧ shortMax ≤ result.tape.current
  | negativeValue => mode = .short ∧
      (operator = .act .minus ∧ result.tape.current = 0 ∨
        operator = .act .read ∧ ∃ c rest, pending = c :: rest ∧ shortMax < c.toNat)
  | stdoutBufferLimitExceeded => operator = .act .print ∧ result.output.length = outputLimit
  | stdinBufferExhausted => operator = .act .read ∧ pending = []
  | duplicateFunctionDefinition => operator = .functionStart ∧ result.tape.current ∈ result.keys
  | functionsLimitExceeded => operator = .functionStart ∧ result.functions.length = functionLimit ∧
      result.tape.current ∉ result.keys
  | undefinedFunctionCalled => operator = .call ∧ result.tape.current ∉ result.keys
  | callDepthExceeded => operator = .call ∧ result.tape.current ∈ result.keys ∧
      ∃ trace, result.trace = some trace ∧ depthLimit ≤ trace.frames.length
  | success | failure | noOutput | textOutput | breakpointReached | exceptionThrown
  | thresholdExceeded | mismatchedParentheses | noCodeInterpreted => False

theorem FunctionTable.mem_keys_listing {table : FunctionTable Block} {key : Nat} :
    key ∈ table.listing.map FunctionListing.key ↔ ∃ body, table.get? key = some body := by
  obtain ⟨entries⟩ := table
  simp only [listing, get?, List.map_map]
  induction entries with
  | nil => simp [bodyOf?]
  | cons entry rest ih =>
    rw [List.map_cons, List.mem_cons, ih]
    by_cases same : key = entry.1
    · simp [bodyOf?, same, FunctionListing.ofBody]
    · simp [bodyOf?, same, FunctionListing.ofBody]

section Reasons

variable {mode : CellMode} {store : Store} {result : Result} {fault : Fault} {fault? : Option Fault}

/-- A result lists the functions that can be called. -/
theorem Result.Reports.mem_keys (reports : result.Reports store fault?) {key : Nat} :
    key ∈ result.keys ↔ ∃ body, store.functions.get? key = some body := by
  rw [Result.keys, reports.functions]
  exact FunctionTable.mem_keys_listing

theorem Tape.position_of_next? {tape : Tape} (stuck : tape.next? = none) :
    tape.position + 1 = tape.cells.length := by
  obtain ⟨before, current, after⟩ := tape
  cases after with
  | nil => simp [position, size]
  | cons cell after => cases stuck

theorem Tape.position_of_back? {tape : Tape} (stuck : tape.back? = none) : tape.position = 0 := by
  obtain ⟨before, current, after⟩ := tape
  cases before with
  | nil => rfl
  | cons cell before => cases stuck

/-- An action that fails can be seen to fail. -/
theorem Store.evident_of_perform {action : Action} (bytes : mode = .byte → store.tape.Bytes)
    (failed : store.perform mode action = .error fault) (reports : result.Reports store fault?) :
    ∃ flag, fault.flag? = some flag ∧ flag.Evident mode store.input (.act action) result := by
  have tape := reports.tape
  cases action with
  | next =>
    simp only [perform] at failed
    split at failed <;> cases failed
    rename_i stuck
    exact ⟨_, rfl, rfl, tape ▸ Tape.position_of_next? stuck⟩
  | back =>
    simp only [perform] at failed
    split at failed <;> cases failed
    rename_i stuck
    exact ⟨_, rfl, rfl, tape ▸ Tape.position_of_back? stuck⟩
  | plus =>
    cases mode with
    | byte =>
      simp only [perform, CellMode.increment?_byte (bytes rfl).current] at failed
      cases failed
    | short =>
      simp only [perform, CellMode.increment?, Tape.increment?] at failed
      by_cases room : store.tape.current < shortMax
      · simp only [if_pos room] at failed
        cases failed
      · simp only [if_neg room] at failed
        cases failed
        exact ⟨_, rfl, rfl, rfl, tape ▸ Nat.le_of_not_lt room⟩
  | minus =>
    cases mode with
    | byte =>
      simp only [perform, CellMode.decrement?] at failed
      cases failed
    | short =>
      simp only [perform, CellMode.decrement?, Tape.decrement?] at failed
      by_cases positive : 0 < store.tape.current
      · simp only [if_pos positive] at failed
        cases failed
      · simp only [if_neg positive] at failed
        cases failed
        exact ⟨_, rfl, rfl, .inl ⟨rfl, tape ▸ Nat.eq_zero_of_not_pos positive⟩⟩
  | print =>
    simp only [perform] at failed
    split at failed <;> cases failed
    rename_i full
    exact ⟨_, rfl, rfl, reports.output ▸ Output.write?_eq_none_iff.mp full⟩
  | read =>
    simp only [perform] at failed
    split at failed
    · rename_i nothing
      cases failed
      exact ⟨_, rfl, rfl, nothing⟩
    · rename_i c input pending
      cases mode with
      | byte => cases failed
      | short =>
        by_cases fits : c.toNat ≤ shortMax
        · simp only [CellMode.encode?, if_pos fits] at failed
          cases failed
        · simp only [CellMode.encode?, if_neg fits] at failed
          cases failed
          exact ⟨_, rfl, rfl, .inr ⟨rfl, c, input, pending, Nat.lt_of_not_le fits⟩⟩

/-- A definition that fails can be seen to fail. -/
theorem Store.evident_of_define {body : Block} (few : store.functions.entries.length ≤ functionLimit)
    (failed : store.functions.define store.value body = .error fault)
    (reports : result.Reports store fault?) :
    ∃ flag, fault.flag? = some flag ∧ flag.Evident mode store.input .functionStart result := by
  have current : result.tape.current = store.value := congrArg Tape.current reports.tape
  unfold FunctionTable.define FunctionTable.contains at failed
  cases bound : store.functions.get? store.value with
  | some old =>
    simp only [bound, Option.isSome_some, if_true] at failed
    cases failed
    exact ⟨_, rfl, rfl, reports.mem_keys.mpr ⟨old, by rw [current, bound]⟩⟩
  | none =>
    have fresh : result.tape.current ∉ result.keys := by
      rw [reports.mem_keys, current, bound]
      simp
    by_cases room : store.functions.entries.length < functionLimit
    · simp [bound, room] at failed
    · simp only [bound, Option.isSome_none, Bool.false_eq_true, if_false, if_neg room] at failed
      cases failed
      have listed : result.functions.length = store.functions.entries.length := by
        simp [reports.functions, FunctionTable.listing]
      exact ⟨_, rfl, rfl, by omega, fresh⟩

end Reasons

namespace Machine

variable {rules : Rules} {late : Bool} {machine : Machine} {progress : Progress} {block : Block}
  {input : Text} {store : Store} {fault : Fault} {stack : Stack} {result : Result}
  {fault? : Option Fault}

/-- An operator that fails changes nothing, and a result that shows the machine shows why. -/
theorem Executes.evident (move : machine.Executes rules late progress)
    (ended : progress = .halted store (.failed fault stack))
    (regular : machine.store.Regular rules.mode block input)
    (reports : result.Reports machine.store fault?)
    (trace : result.trace = some (.ofFrames machine.stack.frames)) :
    store = machine.store ∧ stack = machine.stack ∧ ∃ flag token, fault.flag? = some flag ∧
      machine.stack.inner.rest.first? = some token ∧
      flag.Evident rules.mode machine.store.input token.operator result := by
  have current : result.tape.current = machine.store.value := congrArg Tape.current reports.tape
  cases move with
  | acts _ _ | skipsLoop _ _ | resetsCell _ _ _ | defines _ _ => cases ended
  | entersLoop _ _ _ | calls _ _ _ | repeatsLoop _ _ =>
    cases late <;> cases ended
  | endsLoop _ _ =>
    unfold leave at ended
    split at ended <;> cases ended
  | actFails here failed =>
    cases ended
    obtain ⟨flag, raised, evident⟩ := Store.evident_of_perform regular.bytes failed reports
    exact ⟨rfl, rfl, flag, _, raised, congrArg Block.first? here, evident⟩
  | defineFails here failed =>
    cases ended
    obtain ⟨flag, raised, evident⟩ := Store.evident_of_define regular.few failed reports
    exact ⟨rfl, rfl, flag, _, raised, congrArg Block.first? here, evident⟩
  | callsNothing here unbound =>
    cases ended
    refine ⟨rfl, rfl, _, _, rfl, congrArg Block.first? here, rfl, ?_⟩
    rw [reports.mem_keys, current, unbound]
    simp
  | callsTooDeep here bound deep =>
    cases ended
    refine ⟨rfl, rfl, _, _, rfl, congrArg Block.first? here, rfl, reports.mem_keys.mpr ?_, _, trace, ?_⟩
    · rw [current]
      exact ⟨_, bound⟩
    · simpa [Trace.ofFrames, Stack.frames] using deep

end Machine

theorem Progress.exists_last_step {rules : Rules} {machine : Machine} {count : Nat} {store : Store}
    {outcome : Outcome} (ended : (running machine).after rules count = halted store outcome) :
    ∃ place last, (running machine).after rules place = running last ∧
      last.step rules false = halted store outcome := by
  induction count with
  | zero => cases ended
  | succ count ih =>
    rw [after_succ_last] at ended
    cases before : (running machine).after rules count with
    | running last =>
      rw [before] at ended
      exact ⟨count, last, before, ended⟩
    | halted earlier result =>
      rw [before] at ended
      exact ih (before.trans ended)

theorem Stack.offset_ofFrames {stack : Stack} {token : Token}
    (here : stack.inner.current? = some token) : (Trace.ofFrames stack.frames).offset = token.offset := by
  simp [Trace.ofFrames, frames, levels, Level.reached, here]

/-- The result of a run that could not run the operator where `machine` stands. It shows the machine
as it was, the operator, and the reason. -/
structure Result.FailsAt (mode : CellMode) (source : Text) (machine : Machine) (flag : Flag)
    (operator : Operator) (trace : Trace) (result : Result) : Prop where
  exitCode : result.exitCode =
    (ExitCode.ofFlags [.failure, .exceptionThrown, flag]).withOutput result.output
  tape : result.tape = machine.store.tape
  output : result.output = machine.store.output.chars
  operations : result.operations = machine.store.operations
  functions : result.functions = machine.store.functions.listing
  shown : result.trace = some trace
  here : machine.stack.inner.current? = some ⟨trace.offset, operator⟩
  spelled : operatorAt? source trace.offset = some operator
  evident : flag.Evident mode machine.store.input operator result

/-- The script, run from the tape operator after operator, comes to one that fails, with some of the
input left, and the result tells so. -/
def Result.TellsFailure (mode : CellMode) (source input : Text) (tape : Tape) (result : Result) : Prop :=
  ∃ block place machine fault, readScript source = .ok block ∧
    plainRun mode block input tape place = .running machine ∧
    plainRun mode block input tape (place + 1) = .halted machine.store (.failed fault machine.stack) ∧
    machine.store.input <:+ input ∧
    ∃ flag operator trace, result.FailsAt mode source machine flag operator trace

section Runs

variable {mode : CellMode} {source input : Text} {tape : Tape} {block : Block}

/-- A plain run that ends in a fault has a result that tells so. -/
theorem tellsFailure_of_plainRun (accepted : readScript source = .ok block)
    (bytes : mode = .byte → tape.Bytes) {count : Nat} {store : Store} {fault : Fault} {stack : Stack}
    (ended : plainRun mode block input tape count = .halted store (.failed fault stack))
    (elapsed : Nat) :
    (Result.ofOutcome block elapsed store (.failed fault stack)).TellsFailure mode source input tape := by
  obtain ⟨place, machine, stands, last⟩ := Progress.exists_last_step ended
  have regular := (regular_plainRun bytes block input place).2
  have nested := (regular_plainRun bytes block input place).1
  rw [plainRun, stands] at regular nested
  -- Neither the end of a body nor a pause is a fault, so the last step ran an operator.
  obtain ⟨_, step⟩ | ⟨_, _, _, step⟩ | ⟨_, _, step⟩ := machine.step_cases (.plain mode) false
  · rw [step, Machine.leave] at last
    split at last <;> cases last
  · cases step.symm.trans last
  · have failed := step.symm.trans last
    have reports : (Result.ofOutcome block elapsed machine.store
        (.failed fault machine.stack)).Reports machine.store (some fault) := ⟨rfl, rfl, rfl, rfl, rfl⟩
    obtain ⟨rfl, rfl, flag, token, raised, first, evident⟩ :=
      (machine.executes (.plain mode) false).evident failed regular reports rfl
    have here : machine.stack.inner.current? = some token := by
      rw [Level.current?, first, Option.some_or]
    have spelled : token ∈ tokens source := by
      rw [← (readScript_eq_ok_iff.mp accepted).2.2]
      refine nested.drawn regular.drawn ?_
      rw [← Block.head?_tokens] at first
      exact List.mem_of_mem_head? first
    refine ⟨block, place, machine, fault, accepted, stands, ?_, regular.pending, flag, token.operator,
      .ofFrames machine.stack.frames, ?_⟩
    · rw [plainRun, Progress.after_succ_last, stands]
      exact last
    · have offset := Stack.offset_ofFrames here
      refine ⟨?_, rfl, rfl, rfl, rfl, rfl, ?_, ?_, evident⟩
      · simp only [Result.ofOutcome, Outcome.exitCode, Fault.exitCode, raised]
      · rw [offset]
        exact here
      · rw [offset]
        exact operatorAt?_of_mem_tokens spelled

theorem Outcome.failed_of_thrown {outcome : Outcome} {output : Text}
    (thrown : (outcome.exitCode.withOutput output).has .exceptionThrown = true) :
    ∃ fault stack, outcome = .failed fault stack := by
  rw [ExitCode.has_withOutput _ _ (by decide) (by decide)] at thrown
  cases outcome with
  | failed fault stack => exact ⟨fault, stack, rfl⟩
  | finished => simp [exitCode, ExitCode.has_ofFlags] at thrown
  | paused stack => simp [exitCode, ExitCode.has_ofFlags] at thrown
  | overran stack => simp [exitCode, Fault.exitCode, Fault.flag?, ExitCode.has_ofFlags] at thrown

theorem Outcome.of_success {outcome : Outcome} {output : Text}
    (success : (outcome.exitCode.withOutput output).isSuccess = true) :
    outcome.isOverrun = false ∧ ∀ fault stack, outcome ≠ .failed fault stack := by
  rw [ExitCode.isSuccess, ExitCode.has_withOutput _ _ (by decide) (by decide)] at success
  cases outcome with
  | finished | paused _ => exact ⟨rfl, nofun⟩
  | failed fault stack =>
    cases fault <;> simp [exitCode, Fault.exitCode, Fault.flag?, ExitCode.has_ofFlags] at success
  | overran stack => simp [exitCode, Fault.exitCode, Fault.flag?, ExitCode.has_ofFlags] at success

/-- A result with success is that of a script which was read and came to its end. -/
theorem means_of_success {config : Config} {source input : Text} {tape : Tape} {fuel : Nat}
    {watch : Stopwatch} {result : Result}
    (ran : runOn fuel watch config source input tape = some result)
    (success : result.exitCode.isSuccess = true) :
    ∃ block last, readScript source = .ok block ∧
      Means config.mode 1 (.statements block) (.start tape input) last none ∧
      result.Reports last none := by
  cases accepted : readScript source with
  | error rejection =>
    simp only [runOn, accepted, Option.some.injEq] at ran
    subst ran
    cases (rejection.has_result (by decide)).symm.trans success
  | ok block =>
    obtain ⟨elapsed, store, outcome, rfl, ended⟩ := runOn_cases accepted ran
    obtain ⟨punctual, unfailed⟩ := Outcome.of_success success
    rcases ended with overrun | ⟨place, ended⟩
    · cases overrun.symm.trans punctual
    · rcases means_of_plainRun ended with ⟨rfl, means⟩ | ⟨fault, stack, failed, _⟩
      · exact ⟨block, store, rfl, means, rfl, rfl, rfl, rfl, rfl⟩
      · exact absurd failed (unfailed fault stack)

theorem tellsFailure_of_runOn {config : Config} (bytes : config.mode = .byte → tape.Bytes) {fuel : Nat}
    {watch : Stopwatch} {result : Result}
    (ran : runOn fuel watch config source input tape = some result)
    (thrown : result.exitCode.has .exceptionThrown = true) :
    result.TellsFailure config.mode source input tape := by
  cases accepted : readScript source with
  | error rejection =>
    simp only [runOn, accepted, Option.some.injEq] at ran
    rw [← ran, rejection.has_result (by decide)] at thrown
    cases thrown
  | ok block =>
    obtain ⟨elapsed, store, outcome, rfl, ended⟩ := runOn_cases accepted ran
    obtain ⟨fault, stack, rfl⟩ := Outcome.failed_of_thrown thrown
    rcases ended with overrun | ⟨place, ended⟩
    · cases overrun
    · exact tellsFailure_of_plainRun accepted bytes ended elapsed

theorem Session.Reached.tellsFailure {config : Config} {chunks : List Text}
    {requests : List Session.Request} {session : Session}
    (reached : Reached config chunks input requests session)
    (thrown : session.result.exitCode.has .exceptionThrown = true) :
    session.result.TellsFailure config.mode chunks.flatten input (.blank config.tapeSize) := by
  have valid := reached.valid
  cases accepted : readScript chunks.flatten with
  | error rejection =>
    rw [(reached.of_rejected valid accepted).2.2, rejection.has_result (by decide)] at thrown
    cases thrown
  | ok block =>
    cases reached.stopped accepted with
    | overran =>
      obtain ⟨_, _, failed⟩ := Outcome.failed_of_thrown thrown
      cases failed
    | stands stopped =>
      obtain @⟨elapsed, store, outcome, stands, _⟩ := stopped
      obtain ⟨fault, stack, rfl⟩ := Outcome.failed_of_thrown thrown
      have bytes : config.mode = .byte → (Tape.blank config.tapeSize).Bytes :=
        fun _ => Tape.bytes_blank (Config.tapeSize_pos valid)
      exact tellsFailure_of_plainRun accepted bytes stands elapsed

end Runs

/-- Whatever raises an exception, in a run from a blank tape or from a given one or in a session, and
under any clock, has changed nothing and can be seen from the result. -/
theorem failure_shows_its_reason (config : Config) (input : Text) :
    (∀ source fuel watch result, run fuel watch config source input = .ok (some result) →
      result.exitCode.has .exceptionThrown = true →
      result.TellsFailure config.mode source input (.blank config.tapeSize)) ∧
    (∀ source tape fuel watch result,
      runWithTape fuel watch config source input tape = .ok (some result) →
      result.exitCode.has .exceptionThrown = true →
      result.TellsFailure config.mode source input (config.mode.adapt tape)) ∧
    ∀ chunks requests session, Session.Reached config chunks input requests session →
      session.result.exitCode.has .exceptionThrown = true →
      session.result.TellsFailure config.mode chunks.flatten input (.blank config.tapeSize) := by
  refine ⟨?_, ?_, ?_⟩
  · intro source fuel watch result ran thrown
    obtain ⟨valid, ran⟩ := runOn_of_run ran
    have positive := Config.tapeSize_pos valid
    exact tellsFailure_of_runOn (fun _ => Tape.bytes_blank positive) ran thrown
  · intro source tape fuel watch result ran thrown
    have bytes : config.mode = .byte → (config.mode.adapt tape).Bytes :=
      fun wraps => CellMode.bytes_adapt wraps tape
    exact tellsFailure_of_runOn bytes (runOn_of_runWithTape ran) thrown
  · intro chunks requests session reached thrown
    exact reached.tellsFailure thrown

/-- A loop that walks over the edge of the tape, at once and after a pause inside it. -/
theorem failure_shows_its_reason_at_the_edge :
    (∃ result, run 9 (fun _ => 0) ⟨.short, 2, none⟩ ['+', '[', '>', '+', ']'] [] = .ok (some result) ∧
      result.exitCode.has .exceptionThrown = true ∧
      result.TellsFailure .short ['+', '[', '>', '+', ']'] [] (.blank 2)) ∧
    ∃ session, Session.Reached ⟨.short, 2, none⟩ [['+', '[', '>'], ['+', ']']] [] [.resume] session ∧
      session.result.exitCode.has .exceptionThrown = true ∧
      session.result.TellsFailure .short ['+', '[', '>', '+', ']'] [] (.blank 2) := by
  obtain ⟨atOnce, _, inSession⟩ := failure_shows_its_reason ⟨.short, 2, none⟩ []
  have first := @Session.Reached.start ⟨.short, 2, none⟩ [['+', '[', '>'], ['+', ']']] []
    9 (fun _ => 0) _ rfl
  have second := @Session.Reached.serve _ _ _ _ .resume 9 (fun _ => 0) _ _ first rfl
  exact ⟨⟨_, rfl, rfl, atOnce _ 9 (fun _ => 0) _ rfl rfl⟩, _, second, rfl, inSession _ _ _ second rfl⟩

end TapeStepper
