import TapeStepper.Proofs.Ahead
import TapeStepper.Proofs.Cumulative

namespace TapeStepper

/-- No loop is anywhere in the block. -/
def Block.isLoopFree : Block → Bool
  | done => true
  | act _ _ next | call _ next => next.isLoopFree
  | loop _ _ _ _ => false
  | define _ body _ next => body.isLoopFree && next.isLoopFree

theorem Block.isLoopFree_of_tokens {block : Block}
    (free : ∀ token ∈ block.tokens, token.operator ≠ .loopStart) : block.isLoopFree = true := by
  induction block with
  | done => rfl
  | act offset action next ih | call offset next ih =>
    exact ih fun token listed => free token (List.mem_cons_of_mem _ listed)
  | loop opens body closes next =>
    exact absurd rfl (free ⟨opens, .loopStart⟩ (by simp))
  | define opens body closes next ihBody ihNext =>
    simp only [tokens_define, List.mem_cons, List.mem_append] at free
    refine Bool.and_eq_true_iff.mpr ⟨ihBody ?_, ihNext ?_⟩
    · exact fun token listed => free token (.inr (.inl listed))
    · exact fun token listed => free token (.inr (.inr (.inr listed)))

/-- A script without a `[` has no loops. -/
theorem isLoopFree_of_readScript {source : Text} {block : Block}
    (accepted : readScript source = .ok block) (free : '[' ∉ source) : block.isLoopFree = true := by
  refine Block.isLoopFree_of_tokens fun token listed opens => free ?_
  rw [(readScript_eq_ok_iff.mp accepted).2.2] at listed
  obtain ⟨c, there, read⟩ := Option.bind_eq_some_iff.mp (operatorAt?_of_mem_tokens listed)
  have bracket : '[' = c := by
    rw [← Operator.symbol_of_ofChar? read, opens]
    rfl
  rw [bracket]
  exact List.mem_of_getElem? there

/-- No function in the table has a loop. -/
def FunctionTable.LoopFree (functions : FunctionTable Block) : Prop :=
  ∀ key body, functions.get? key = some body → body.isLoopFree = true

theorem FunctionTable.LoopFree.define {functions defined : FunctionTable Block} {key : Nat} {body : Block}
    (bodies : functions.LoopFree) (free : body.isLoopFree = true)
    (step : functions.define key body = .ok defined) : defined.LoopFree :=
  forall_define bodies free step

/-- The statements come to an end or to a fault, and no function with a loop has been defined. -/
def Block.Concludes (mode : CellMode) (depth : Nat) (store : Store) (block : Block) : Prop :=
  ∃ last fault?, Means mode depth (.statements block) store last fault? ∧ last.functions.LoopFree

section Depth

variable {mode : CellMode} {depth : Nat} {store : Store} {next : Block}

/-- A call concludes if the called function does, one level deeper, and then the statements behind. -/
theorem Block.concludes_call (offset : Nat) (bodies : store.functions.LoopFree)
    (deeper : depth < depthLimit → ∀ body : Block, body.isLoopFree = true →
      body.Concludes mode (depth + 1) (store.count 1))
    (onward : ∀ left : Store, left.functions.LoopFree → next.Concludes mode depth left) :
    (Block.call offset next).Concludes mode depth store := by
  cases bound : store.functions.get? store.value with
  | none => exact ⟨store, _, .callsNothing bound, bodies⟩
  | some body =>
    by_cases room : depth < depthLimit
    · obtain ⟨left, fault?, called, kept⟩ := deeper room body (bodies _ body bound)
      cases fault? with
      | none =>
        obtain ⟨last, fault?, means, further⟩ := onward left kept
        exact ⟨last, fault?, .calls bound room called means, further⟩
      | some fault => exact ⟨left, some fault, .callFails bound room called, kept⟩
    · exact ⟨store, _, .callsTooDeep bound room, bodies⟩

/-- If all functions conclude one level deeper, statements without loops conclude here. -/
theorem Block.concludes_of_deeper {block : Block} (free : block.isLoopFree = true)
    (bodies : store.functions.LoopFree)
    (deeper : depth < depthLimit → ∀ (body : Block) (store : Store), body.isLoopFree = true →
      store.functions.LoopFree → body.Concludes mode (depth + 1) store) :
    block.Concludes mode depth store := by
  induction block generalizing store with
  | done => exact ⟨store, none, .done, bodies⟩
  | act offset action next ih =>
    cases result : store.perform mode action with
    | error fault => exact ⟨store, some fault, .actFails result, bodies⟩
    | ok changed =>
      have same := Store.functions_perform result
      rw [← same] at bodies
      have kept : (changed.count 1).functions.LoopFree := bodies
      obtain ⟨last, fault?, means, further⟩ := ih free kept
      exact ⟨last, fault?, .acts result means, further⟩
  | call offset next ih =>
    refine concludes_call offset bodies ?_ fun left kept => ih free kept
    exact fun room body loopless => deeper room body (store.count 1) loopless bodies
  | loop opens body closes next => cases free
  | define opens body closes next _ ihNext =>
    obtain ⟨freeBody, freeNext⟩ := Bool.and_eq_true_iff.mp free
    cases result : store.functions.define store.value body with
    | error fault => exact ⟨store, some fault, .defineFails result, bodies⟩
    | ok functions =>
      have kept : ({ store with functions } : Store).functions.LoopFree := bodies.define freeBody result
      obtain ⟨last, fault?, means, further⟩ := ihNext freeNext kept
      exact ⟨last, fault?, .defines result means, further⟩

end Depth

/-- However deep, statements without loops conclude: there are only so many levels left. -/
theorem Block.concludes (mode : CellMode) (levels : Nat) {depth : Nat} (limit : depthLimit ≤ depth + levels)
    {block : Block} {store : Store} (free : block.isLoopFree = true) (bodies : store.functions.LoopFree) :
    block.Concludes mode depth store := by
  induction levels generalizing depth block store with
  | zero =>
    refine concludes_of_deeper free bodies fun room => ?_
    omega
  | succ levels ih =>
    refine concludes_of_deeper free bodies fun _ body store loopless kept => ?_
    exact ih (by omega) loopless kept

/-- The result of a run that came to the end of the script or to a fault; neither a pause nor the clock
has stopped it. -/
def Result.Concludes (result : Result) : Prop :=
  result.breakpoint = none ∧ result.exitCode.has .thresholdExceeded = false ∧
    (result.exitCode.isSuccess = true ∨ result.exitCode.has .exceptionThrown = true)

theorem concludes_of_plainRun {mode : CellMode} {block : Block} {input : Text} {tape : Tape} {count : Nat}
    {store : Store} {outcome : Outcome}
    (ended : plainRun mode block input tape count = .halted store outcome) (elapsed : Nat) :
    (Result.ofOutcome block elapsed store outcome).Concludes := by
  have attained := attains_plainRun mode block input tape count
  rw [ended] at attained
  rcases means_of_plainRun ended with ⟨rfl, _⟩ | ⟨fault, stack, rfl, _⟩
  · refine ⟨rfl, ?_, .inl ?_⟩ <;>
      simp [Result.ofOutcome, Outcome.exitCode, ExitCode.isSuccess, ExitCode.has_withOutput,
        ExitCode.has_ofFlags]
  · have named : fault ≠ .timeBudget := attained.namesFault
    have within : ((Outcome.failed fault stack).exitCode.withOutput store.output.chars).has
        .thresholdExceeded = false := by
      rw [ExitCode.has_withOutput _ _ (by decide) (by decide)]
      simp [Outcome.exitCode, Fault.has_thresholdExceeded, named]
    exact ⟨rfl, within, .inr (Outcome.thrown_of_failed within)⟩

/-- A script without loops that can be run comes to its end or to a fault, from any tape. -/
theorem exists_concluding_runOn {config : Config} (unbounded : config.budget = none) {source : Text}
    {block : Block} (accepted : readScript source = .ok block) (free : '[' ∉ source) (input : Text)
    (tape : Tape) (watch : Stopwatch) :
    ∃ fuel result, runOn fuel watch config source input tape = some result ∧ result.Concludes := by
  have loopless := isLoopFree_of_readScript accepted free
  have bodies : (Store.start tape input).functions.LoopFree := nofun
  obtain ⟨last, fault?, means, _⟩ :=
    Block.concludes config.mode depthLimit (Nat.le_add_left depthLimit 1) loopless bodies
  obtain ⟨fuel, result, ran⟩ :=
    (follows_runOn unbounded accepted input tape watch).1.mpr ⟨last, fault?, means⟩
  have ran := Except.ok.inj ran
  obtain ⟨count, elapsed, store, outcome, ended, rfl⟩ := runOn_ended unbounded accepted ran
  exact ⟨fuel, _, ran, concludes_of_plainRun ended elapsed⟩

/-- Scripts without loops always halt, with success or with a fault, however their functions call
themselves or each other. So does every step of a session of the script, and a session can only be
continued so many times. -/
theorem loop_free_script_halts (source : Text) (block : Block) (accepted : readScript source = .ok block)
    (free : '[' ∉ source) (config : Config) (size : 0 < config.tapeSize)
    (unbounded : config.budget = none) (input : Text) (watch : Stopwatch) :
    (∃ fuel result, run fuel watch config source input = .ok (some result) ∧ result.Concludes) ∧
    (∀ tape, ∃ fuel result, runWithTape fuel watch config source input tape = .ok (some result) ∧
      result.Concludes) ∧
    ∀ chunks : List Text, chunks.flatten = source →
      (∃ fuel session, Session.start fuel watch config chunks input = .ok (some session)) ∧
      (∀ requests session, Session.Reached config chunks input requests session →
        session.canContinue = true → ∀ request, ∃ fuel next,
          session.serve request fuel watch = .ok (some next)) ∧
      ∃ bound, ∀ requests session, Session.Reached config chunks input requests session →
        requests.length ≤ bound := by
  have valid := Config.validate_eq_ok size unbounded
  have halts := exists_concluding_runOn unbounded accepted free input
  refine ⟨?_, fun tape => ?_, ?_⟩
  · obtain ⟨fuel, result, ran, concludes⟩ := halts (.blank config.tapeSize) watch
    exact ⟨fuel, result, (run_eq_ok_iff valid).mpr ran, concludes⟩
  · obtain ⟨fuel, result, ran, concludes⟩ := halts (config.mode.adapt tape) watch
    exact ⟨fuel, result, by rw [runWithTape_eq_runOn valid, ran], concludes⟩
  · rintro chunks rfl
    obtain ⟨fuel, result, ran, _⟩ := halts (.blank config.tapeSize) watch
    have ran := (run_eq_ok_iff valid).mpr ran
    refine ⟨exists_start_of_run size unbounded ran watch, ?_, exists_requests_bound size unbounded ran⟩
    intro requests session reached continues request
    exact reached.exists_serve_of_run size unbounded ran continues request watch

/-- A function that calls itself twice, and nothing else ends it. -/
theorem loop_free_script_halts_in_endless_recursion :
    ∃ fuel result, run fuel (fun _ => 0) ⟨.byte, 1, none⟩ ['(', ':', ':', ')', ':'] [] =
      .ok (some result) ∧ result.Concludes :=
  (loop_free_script_halts ['(', ':', ':', ')', ':'] _ rfl (by decide) ⟨.byte, 1, none⟩ (by decide) rfl []
    fun _ => 0).1

end TapeStepper
