import TapeStepper.Proofs.Attained
import TapeStepper.Proofs.Failures

namespace TapeStepper

/-- What an action makes of the tape when it does not fail. -/
def Action.Changes (before after : Store) : CellMode → Action → Prop
  | _, .next => after.tape.cells = before.tape.cells ∧ after.tape.position = before.tape.position + 1
  | _, .back => after.tape.cells = before.tape.cells ∧ after.tape.position + 1 = before.tape.position
  | .byte, .plus => after.tape = before.tape.set ((before.value + 1) % 256)
  | .byte, .minus => after.tape = before.tape.set (((before.value : Int) - 1) % 256).toNat
  | .byte, .read =>
    ∃ c, before.input = c :: after.input ∧ after.tape = before.tape.set (c.toNat % 256)
  | .short, .plus => before.value < shortMax ∧ after.tape = before.tape.set (before.value + 1)
  | .short, .minus => 0 < before.value ∧ after.tape = before.tape.set (before.value - 1)
  | .short, .read =>
    ∃ c, before.input = c :: after.input ∧ c.toNat ≤ shortMax ∧ after.tape = before.tape.set c.toNat
  | _, .print => after.tape = before.tape

/-- What a tape keeps to in runs that have begun on the tape `first`. -/
structure Tape.KeepsTo (tape : Tape) (mode : CellMode) (first : Tape) : Prop where
  length : tape.cells.length = first.cells.length
  pointer : tape.position < tape.cells.length
  bytes : mode = .byte → ∀ cell ∈ tape.cells, cell < 256
  shorts : mode = .short → ∀ index old cell : Nat, first.cells[index]? = some old →
    tape.cells[index]? = some cell → cell ≤ max shortMax old

namespace Tape.KeepsTo

variable {mode : CellMode} {first tape moved : Tape}

theorem self (bytes : mode = .byte → tape.Bytes) : tape.KeepsTo mode tape where
  length := rfl
  pointer := by
    rw [cells_length]
    exact tape.position_lt_size
  bytes := bytes
  shorts _ index old cell before now := by
    obtain rfl := Option.some.inj (before.symm.trans now)
    exact Nat.le_max_right _ _

theorem adapt (mode : CellMode) (tape : Tape) : (mode.adapt tape).KeepsTo mode tape := by
  cases mode with
  | short => exact self nofun
  | byte =>
    refine ⟨?_, ?_, fun _ => tape.bytes_wrapToBytes, nofun⟩
    · simp [CellMode.adapt, wrapToBytes, size]
    · rw [cells_length]
      exact position_lt_size _

theorem of_cells (keeps : tape.KeepsTo mode first) (same : moved.cells = tape.cells) :
    moved.KeepsTo mode first where
  length := same ▸ keeps.length
  pointer := by
    rw [cells_length]
    exact moved.position_lt_size
  bytes := same ▸ keeps.bytes
  shorts := same ▸ keeps.shorts

/-- A new value must be in the range, or below the value that it replaces. -/
theorem set (keeps : tape.KeepsTo mode first) {value : Nat} (byte : mode = .byte → value < 256)
    (short : mode = .short → value ≤ shortMax ∨ value ≤ tape.current) :
    (tape.set value).KeepsTo mode first where
  length := by rw [cells_set, List.length_set, keeps.length]
  pointer := by
    rw [cells_length]
    exact position_lt_size _
  bytes wraps := Tape.Bytes.set (keeps.bytes wraps) (byte wraps)
  shorts limited index old cell before now := by
    rw [cells_set, List.getElem?_set] at now
    split at now
    · rename_i here
      subst here
      have current := keeps.shorts limited _ _ _ before tape.cells_position
      have fits := short limited
      split at now
      · obtain rfl := Option.some.inj now
        omega
      · cases now
    · exact keeps.shorts limited index old cell before now

/-- On a tape that was blank no cell is larger than `+` can make it. -/
theorem le_shortMax {size : Nat} (keeps : tape.KeepsTo .short (.blank size)) :
    ∀ cell ∈ tape.cells, cell ≤ shortMax := by
  intro cell listed
  obtain ⟨index, now⟩ := List.mem_iff_getElem?.mp listed
  have inside : index < (blank size).cells.length := by
    rw [← keeps.length]
    exact (List.getElem?_eq_some_iff.mp now).1
  have zero : (blank size).cells[index] = 0 :=
    List.eq_of_mem_replicate (n := size - 1 + 1) (List.getElem_mem inside)
  have bound := keeps.shorts rfl index 0 cell (by rw [List.getElem?_eq_getElem inside, zero]) now
  rwa [Nat.max_eq_left (Nat.zero_le _)] at bound

end Tape.KeepsTo

namespace Store

variable {mode : CellMode} {store changed : Store} {action : Action} {first : Tape}

theorem changes_of_perform (bytes : mode = .byte → store.tape.Bytes)
    (result : store.perform mode action = .ok changed) : action.Changes store changed mode := by
  cases action with
  | next =>
    simp only [perform] at result
    split at result <;> cases result
    rename_i tape step
    exact Tape.cells_next? step
  | back =>
    simp only [perform] at result
    split at result <;> cases result
    rename_i tape step
    exact Tape.cells_back? step
  | plus =>
    cases mode with
    | byte =>
      simp only [perform, CellMode.increment?_byte (bytes rfl).current] at result
      cases result
      rfl
    | short =>
      simp only [perform, CellMode.increment?, Tape.increment?] at result
      split at result <;> cases result
      rename_i tape step
      obtain ⟨room, ⟨⟩⟩ := Option.ite_none_right_eq_some.mp step
      exact ⟨room, rfl⟩
  | minus =>
    cases mode with
    | byte =>
      simp only [perform, CellMode.decrement?_byte (bytes rfl).current] at result
      cases result
      have small := (bytes rfl).current
      have reduced : (store.tape.current + 255) % 256 =
          (((store.value : Int) - 1) % 256).toNat := by
        unfold value
        omega
      exact congrArg store.tape.set reduced
    | short =>
      simp only [perform, CellMode.decrement?, Tape.decrement?] at result
      split at result <;> cases result
      rename_i tape step
      obtain ⟨positive, ⟨⟩⟩ := Option.ite_none_right_eq_some.mp step
      exact ⟨positive, rfl⟩
  | print =>
    simp only [perform] at result
    split at result <;> cases result
    cases mode <;> rfl
  | read =>
    simp only [perform] at result
    split at result
    · cases result
    · rename_i c input pending
      cases mode with
      | byte =>
        cases result
        exact ⟨c, pending, rfl⟩
      | short =>
        simp only [CellMode.encode?] at result
        split at result <;> cases result
        rename_i value coded
        obtain ⟨fits, ⟨⟩⟩ := Option.ite_none_right_eq_some.mp coded
        exact ⟨c, pending, fits, rfl⟩

/-- No action takes a cell out of its range. -/
theorem keepsTo_of_changes (keeps : store.tape.KeepsTo mode first)
    (changes : action.Changes store changed mode) : changed.tape.KeepsTo mode first := by
  cases action with
  | next | back => cases mode <;> exact keeps.of_cells changes.1
  | print =>
    have same : changed.tape = store.tape := by cases mode <;> exact changes
    exact same ▸ keeps
  | plus =>
    cases mode with
    | byte =>
      have same : changed.tape = _ := changes
      rw [same]
      exact keeps.set (fun _ => Nat.mod_lt _ (by decide)) nofun
    | short =>
      rw [changes.2]
      exact keeps.set nofun fun _ => .inl changes.1
  | minus =>
    cases mode with
    | byte =>
      have same : changed.tape = _ := changes
      rw [same]
      exact keeps.set (fun _ => by omega) nofun
    | short =>
      rw [changes.2]
      exact keeps.set nofun fun _ => .inr (Nat.sub_le _ _)
  | read =>
    cases mode with
    | byte =>
      obtain ⟨c, _, same⟩ := changes
      rw [same]
      exact keeps.set (fun _ => Nat.mod_lt _ (by decide)) nofun
    | short =>
      obtain ⟨c, _, fits, same⟩ := changes
      rw [same]
      exact keeps.set nofun fun _ => .inl fits

end Store

namespace Machine

variable {rules : Rules} {late : Bool} {machine : Machine} {first : Tape}

theorem Stores.keepsTo {after : Store} (stores : machine.Stores rules after)
    (keeps : machine.store.tape.KeepsTo rules.mode first) : after.tape.KeepsTo rules.mode first := by
  cases stores with
  | same | counts | defines _ _ => exact keeps
  | resets => exact keeps.set (fun _ => by decide) fun _ => .inl (Nat.zero_le _)
  | @acts _ _ _ performed here result =>
    have kept : performed.tape.KeepsTo rules.mode first :=
      Store.keepsTo_of_changes keeps (Store.changes_of_perform keeps.bytes result)
    exact kept

/-- A step that goes on from an action has performed it. -/
theorem changes_of_step {offset : Nat} {action : Action} {next : Block} {after : Machine}
    (bytes : rules.mode = .byte → machine.store.tape.Bytes)
    (here : machine.stack.inner.rest = .act offset action next)
    (step : machine.step rules late = .running after) :
    action.Changes machine.store after.store rules.mode := by
  obtain ⟨ended, _⟩ | ⟨_, _, _, paused⟩ | ⟨_, _, executed⟩ := step_cases rules late machine
  · rw [Level.isOver, here] at ended
    cases ended
  · rw [paused] at step
    cases step
  · rw [executed, execute] at step
    simp only [here] at step
    split at step <;> cases step
    rename_i performed result
    have changes := Store.changes_of_perform bytes result
    revert changes
    cases action <;> cases rules.mode <;> exact id

end Machine

theorem Attains.keepsTo {mode : CellMode} {block : Block} {input : Text} {tape first : Tape}
    {progress : Progress} (attained : Attains mode block input tape progress) (whole : block.Tidy)
    (begins : tape.KeepsTo mode first) : progress.store.tape.KeepsTo mode first := by
  refine attained.store (motive := fun store => store.tape.KeepsTo mode first) whole begins ?_
  rintro machine rules after rfl _ stores keeps
  exact stores.keepsTo keeps

/-- What a state of a run that has begun on the tape `first` keeps to: its tape is in range, and the
next action does to the tape what it should. -/
structure Progress.KeepsTo (mode : CellMode) (first : Tape) (progress : Progress) : Prop where
  tape : progress.store.tape.KeepsTo mode first
  acts : ∀ (machine after : Machine) (rules : Rules) late offset action next,
    progress = .running machine → rules.mode = mode →
    machine.stack.inner.rest = .act offset action next → machine.step rules late = .running after →
    action.Changes machine.store after.store mode

/-- What a result of a run that has begun on the tape `first` shows: a tape in range, and no complaint
about the range of bytes. -/
structure Result.KeepsTo (mode : CellMode) (first : Tape) (result : Result) : Prop where
  tape : result.tape.KeepsTo mode first
  unflagged : mode = .byte → result.exitCode.has .maxValueExceeded = false ∧
    result.exitCode.has .negativeValue = false

theorem Attains.progress_keepsTo {mode : CellMode} {block : Block} {input : Text} {tape first : Tape}
    {progress : Progress} (attained : Attains mode block input tape progress) (whole : block.Tidy)
    (begins : tape.KeepsTo mode first) : progress.KeepsTo mode first := by
  refine ⟨attained.keepsTo whole begins, ?_⟩
  rintro machine after rules late offset action next rfl rfl here step
  exact Machine.changes_of_step (attained.keepsTo whole begins).bytes here step

section Flags

variable {mode : CellMode} {source input : Text} {first : Tape} {result : Result}

/-- The flags that tell of a cell out of its range. -/
def cellFlags : List Flag :=
  [.maxValueExceeded, .negativeValue]

theorem Outcome.thrown_of_cellFlags {outcome : Outcome} {output : Text} {flag : Flag}
    (cell : flag ∈ cellFlags) (raised : (outcome.exitCode.withOutput output).has flag = true) :
    (outcome.exitCode.withOutput output).has .exceptionThrown = true := by
  have apart : flag ∉ [Flag.textOutput, .noOutput, .success, .failure, .breakpointReached,
      .thresholdExceeded] := by
    intro other
    simp only [cellFlags, List.mem_cons, List.not_mem_nil, or_false] at cell
    rcases cell with rfl | rfl <;> exact absurd other (by decide)
  simp only [List.mem_cons, List.not_mem_nil, or_false, not_or] at apart
  rw [ExitCode.has_withOutput _ _ apart.1 apart.2.1] at raised
  rw [ExitCode.has_withOutput _ _ (by decide) (by decide)]
  cases outcome with
  | finished | paused _ | overran _ =>
    simp [exitCode, Fault.exitCode, Fault.flag?, ExitCode.has_ofFlags, apart] at raised
  | failed fault stack =>
    cases named : fault.flag? with
    | none => simp [exitCode, Fault.exitCode, named, ExitCode.has_ofFlags, apart] at raised
    | some own => simp [exitCode, Fault.exitCode, named, ExitCode.has_ofFlags]

/-- Only cells that do not wrap can leave their range. -/
theorem Result.TellsFailure.short_of_cellFlags {tape : Tape} {flag : Flag}
    (tells : result.TellsFailure mode source input tape) (cell : flag ∈ cellFlags)
    (raised : result.exitCode.has flag = true) : mode = .short := by
  obtain ⟨_, _, machine, _, _, _, _, _, own, operator, trace, fails⟩ := tells
  have evident := fails.evident
  rw [fails.exitCode] at raised
  simp only [cellFlags, List.mem_cons, List.not_mem_nil, or_false] at cell
  rcases cell with rfl | rfl
  · rw [ExitCode.has_withOutput _ _ (by decide) (by decide), ExitCode.has_ofFlags] at raised
    obtain rfl : .maxValueExceeded = own := by simpa using raised
    exact evident.2.1
  · rw [ExitCode.has_withOutput _ _ (by decide) (by decide), ExitCode.has_ofFlags] at raised
    obtain rfl : .negativeValue = own := by simpa using raised
    exact evident.1

/-- The result of a run is in range, since cells that wrap cannot have raised an exception. -/
theorem Attains.result_keepsTo {block : Block} {tape begun : Tape} {store : Store} {outcome : Outcome}
    (attained : Attains mode block input tape (.halted store outcome)) (whole : block.Tidy)
    (begins : tape.KeepsTo mode first) (elapsed : Nat)
    (tells : (Result.ofOutcome block elapsed store outcome).exitCode.has .exceptionThrown = true →
      (Result.ofOutcome block elapsed store outcome).TellsFailure mode source input begun) :
    (Result.ofOutcome block elapsed store outcome).KeepsTo mode first := by
  refine ⟨attained.keepsTo whole begins, ?_⟩
  rintro rfl
  have unflagged (flag : Flag) (cell : flag ∈ cellFlags) :
      (outcome.exitCode.withOutput store.output.chars).has flag = false := by
    by_contra raised
    rw [Bool.not_eq_false] at raised
    have fails := tells (Outcome.thrown_of_cellFlags cell raised)
    cases fails.short_of_cellFlags cell raised
  exact ⟨unflagged _ (by decide), unflagged _ (by decide)⟩

theorem Rejection.keepsTo_result (rejection : Rejection) (source : Text) {tape : Tape}
    (begins : tape.KeepsTo mode first) : (rejection.result source tape).KeepsTo mode first where
  tape := by cases rejection <;> exact begins
  unflagged _ := ⟨rejection.has_result (by decide), rejection.has_result (by decide)⟩

end Flags

section Runs

variable {config : Config} {input : Text} {first : Tape}

theorem keepsTo_of_runOn {source : Text} {tape : Tape} (begins : tape.KeepsTo config.mode first)
    {fuel : Nat} {watch : Stopwatch} {result : Result}
    (ran : runOn fuel watch config source input tape = some result) :
    result.KeepsTo config.mode first := by
  cases accepted : readScript source with
  | error rejection =>
    simp only [runOn, accepted, Option.some.injEq] at ran
    exact ran ▸ rejection.keepsTo_result source begins
  | ok block =>
    obtain ⟨elapsed, store, outcome, rfl, attained⟩ := runOn_attains accepted ran
    have tells := tellsFailure_of_runOn begins.bytes ran
    exact attained.result_keepsTo (tidy_of_readScript accepted) begins elapsed tells

theorem RunVisits.keepsTo {source : Text} {tape : Tape} {progress : Progress}
    (visited : RunVisits config source input tape progress)
    (begins : tape.KeepsTo config.mode first) : progress.KeepsTo config.mode first := by
  obtain ⟨block, accepted, _⟩ := visited.2
  exact (visited.attains accepted).progress_keepsTo (tidy_of_readScript accepted) begins

theorem Session.Reached.keepsTo {chunks : List Text} {requests : List Session.Request}
    {session : Session} (reached : Reached config chunks input requests session)
    (begins : (Tape.blank config.tapeSize).KeepsTo config.mode first) :
    session.result.KeepsTo config.mode first := by
  cases accepted : readScript chunks.flatten with
  | error rejection =>
    rw [(reached.of_rejected reached.valid accepted).2.2]
    exact rejection.keepsTo_result _ begins
  | ok block =>
    obtain ⟨elapsed, store, outcome, rfl, attained⟩ := reached.attains accepted
    have tells := reached.tellsFailure
    exact attained.result_keepsTo (tidy_of_readScript accepted) begins elapsed tells

end Runs

/-- In every state of every run and session, and in every result, the tape has the length that it had
at the start, the pointer is on it, and the cells are in range: bytes where cells wrap, and else no
larger than `+` can make them or than they were at the start. Every `+`, `-` and `,` that is
executed counts modulo 256 where cells wrap, and else does not wrap. -/
theorem cells_keep_to_their_range (config : Config) (input : Text) :
    (∀ source, (∀ progress, RunVisits config source input (.blank config.tapeSize) progress →
        progress.KeepsTo config.mode (.blank config.tapeSize)) ∧
      ∀ fuel watch result, run fuel watch config source input = .ok (some result) →
        result.KeepsTo config.mode (.blank config.tapeSize)) ∧
    (∀ source tape, (∀ progress, RunVisits config source input (config.mode.adapt tape) progress →
        progress.KeepsTo config.mode tape) ∧
      ∀ fuel watch result, runWithTape fuel watch config source input tape = .ok (some result) →
        result.KeepsTo config.mode tape) ∧
    (∀ chunks, (∀ progress, Session.Visits config chunks input progress →
        progress.KeepsTo config.mode (.blank config.tapeSize)) ∧
      ∀ requests session, Session.Reached config chunks input requests session →
        session.result.KeepsTo config.mode (.blank config.tapeSize)) ∧
    ∀ size (tape : Tape), tape.KeepsTo .short (.blank size) → ∀ cell ∈ tape.cells, cell ≤ shortMax := by
  have blank : (Tape.blank config.tapeSize).KeepsTo config.mode (.blank config.tapeSize) := by
    refine .self fun _ cell listed => ?_
    have zero : cell = 0 := List.eq_of_mem_replicate (n := config.tapeSize - 1 + 1) listed
    rw [zero]
    decide
  refine ⟨fun source => ⟨?_, ?_⟩, fun source tape => ⟨?_, ?_⟩, fun chunks => ⟨?_, ?_⟩, ?_⟩
  · exact fun progress visited => visited.keepsTo blank
  · exact fun fuel watch result ran => keepsTo_of_runOn blank (runOn_of_run ran).2
  · exact fun progress visited => visited.keepsTo (.adapt config.mode tape)
  · exact fun fuel watch result ran =>
      keepsTo_of_runOn (.adapt config.mode tape) (runOn_of_runWithTape ran)
  · intro progress visited
    obtain ⟨block, accepted, attained⟩ := visited.attains
    exact attained.progress_keepsTo (tidy_of_readScript accepted) blank
  · exact fun requests session reached => reached.keepsTo blank
  · exact fun size tape keeps => keeps.le_shortMax

/-- A cell that holds 511 at the start is counted as a byte, and goes from 255 to 0. A session of
short cells is taken up before its `-`. -/
theorem cells_keep_to_their_range_from_a_byte_to_the_next :
    (∃ machine, RunVisits ⟨.byte, 1, none⟩ ['+'] [] (CellMode.byte.adapt ⟨[], 511, []⟩)
        (.running machine) ∧ machine.store.value = 255 ∧
      (Progress.running machine).KeepsTo .byte ⟨[], 511, []⟩) ∧
    (∃ result, runWithTape 9 (fun _ => 0) ⟨.byte, 1, none⟩ ['+'] [] ⟨[], 511, []⟩ = .ok (some result) ∧
      result.tape.cells = [0] ∧ result.KeepsTo .byte ⟨[], 511, []⟩) ∧
    ∃ session, Session.Reached ⟨.short, 2, none⟩ [['+'], ['-']] [] [.resume] session ∧
      session.result.KeepsTo .short (.blank 2) := by
  have fromTape := (cells_keep_to_their_range ⟨.byte, 1, none⟩ []).2.1 ['+'] ⟨[], 511, []⟩
  have visited : RunVisits ⟨.byte, 1, none⟩ ['+'] [] (CellMode.byte.adapt ⟨[], 511, []⟩) _ :=
    ⟨rfl, _, rfl, .enter fun _ => false⟩
  have first := @Session.Reached.start ⟨.short, 2, none⟩ [['+'], ['-']] [] 9 (fun _ => 0) _ rfl
  have second := @Session.Reached.serve _ _ _ _ .resume 9 (fun _ => 0) _ _ first rfl
  refine ⟨⟨_, visited, rfl, fromTape.1 _ visited⟩, ⟨_, rfl, rfl, fromTape.2 9 (fun _ => 0) _ rfl⟩, ?_⟩
  exact ⟨_, second, ((cells_keep_to_their_range ⟨.short, 2, none⟩ []).2.2.1 _).2 _ _ second⟩

end TapeStepper
