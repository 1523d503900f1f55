import TapeStepper.Proofs.Meaning
import TapeStepper.Proofs.Reading

namespace TapeStepper

/-- What the plain run does with a piece of a script is what the piece means: it
comes to the exit, or the whole run has ended there with a fault. -/
def Accounted (mode : CellMode) (final : Store) (outcome : Outcome) (depth : Nat) (phrase : Phrase)
    (store : Store) (stack exit : Stack) : Prop :=
  (∃ left, Means mode depth phrase store left none ∧ Leads mode store stack left none exit) ∨
    ∃ fault last, Means mode depth phrase store final (some fault) ∧ outcome = .failed fault last

namespace Accounted

variable {mode : CellMode} {final store changed : Store} {outcome : Outcome} {depth inner : Nat}
  {phrase later : Phrase} {stack moved exit : Stack}

/-- A stretch of the run in front that belongs to the meaning of the longer piece. -/
theorem prepend (first : Leads mode store stack changed none moved)
    (longer : ∀ last fault?, Means mode inner later changed last fault? →
      Means mode depth phrase store last fault?)
    (accounted : Accounted mode final outcome inner later changed moved exit) :
    Accounted mode final outcome depth phrase store stack exit := by
  rcases accounted with ⟨left, means, onward⟩ | ⟨fault, last, means, failed⟩
  · exact .inl ⟨left, longer left none means, first.trans onward⟩
  · exact .inr ⟨fault, last, longer final (some fault) means, failed⟩

end Accounted

section Halting

variable {mode : CellMode} {final store changed : Store} {outcome : Outcome} {stack moved : Stack}

/-- The run is still to halt when it has gone a part of its way. -/
theorem Leads.halts {count : Nat} (first : Leads mode store stack changed none moved)
    (halts : (Progress.running ⟨store, stack, true⟩).after (.plain mode) count =
      .halted final outcome) :
    ∃ rest ≤ count, (Progress.running ⟨changed, moved, true⟩).after (.plain mode) rest =
      .halted final outcome := by
  obtain ⟨gone, reached⟩ := first
  have before := Progress.lt_of_running reached halts
  refine ⟨count - gone, Nat.sub_le count gone, ?_⟩
  rw [← reached, ← Progress.after_add, Nat.add_sub_cancel' (Nat.le_of_lt before), halts]

/-- After a step the run halts sooner. -/
theorem halts_of_step {count : Nat} {progress : Progress}
    (step : Machine.step (.plain mode) false ⟨store, stack, true⟩ = progress)
    (halts : (Progress.running ⟨store, stack, true⟩).after (.plain mode) count =
      .halted final outcome) :
    ∃ rest < count, progress.after (.plain mode) rest = .halted final outcome := by
  cases count with
  | zero => cases halts
  | succ rest =>
    rw [Progress.after_running, step] at halts
    exact ⟨rest, Nat.lt_succ_self rest, halts⟩

end Halting

/-- Whatever halts within so many steps is accounted for, statements and loops. -/
structure AccountedWithin (mode : CellMode) (final : Store) (outcome : Outcome) (count : Nat) : Prop where
  statements : ∀ (store : Store) (stack : Stack),
    (Progress.running ⟨store, stack, true⟩).after (.plain mode) count = .halted final outcome →
    Accounted mode final outcome stack.depth (.statements stack.inner.rest) store stack stack.exhaust
  rounds : ∀ (store : Store) (stack : Stack) (body : Block) (closes : Nat),
    (Progress.running ⟨store, stack.push (.enter body (.loop closes)), true⟩).after (.plain mode)
      count = .halted final outcome →
    Accounted mode final outcome (stack.depth + 1) (.rounds body) store
      (stack.push (.enter body (.loop closes))) (stack.modify Level.advance)

section Induction

variable {mode : CellMode} {final : Store} {outcome : Outcome} {count : Nat}

/-- An operator that only goes on to the next statement. -/
theorem accounted_of_proceed (ih : ∀ fewer < count, AccountedWithin mode final outcome fewer)
    {store changed : Store} {stack : Stack} {block : Block} (here : stack.inner.rest = block)
    (step : Machine.step (.plain mode) false ⟨store, stack, true⟩ =
      .running ⟨changed, stack.modify Level.advance, true⟩)
    (longer : ∀ last fault?, Means mode stack.depth (.statements block.tail) changed last fault? →
      Means mode stack.depth (.statements block) store last fault?)
    (halts : (Progress.running ⟨store, stack, true⟩).after (.plain mode) count =
      .halted final outcome) :
    Accounted mode final outcome stack.depth (.statements block) store stack stack.exhaust := by
  obtain ⟨rest, fewer, halts⟩ := halts_of_step step halts
  have next : (stack.modify Level.advance).inner.rest = block.tail := congrArg Block.tail here
  have accounted := (ih rest fewer).statements _ _ halts
  rw [next] at accounted
  exact accounted.prepend (.of_step step) longer

/-- An operator that fails is the end of the run. -/
theorem accounted_of_fail {store : Store} {stack exit : Stack} {phrase : Phrase} {depth : Nat}
    {fault : Fault}
    (step : Machine.step (.plain mode) false ⟨store, stack, true⟩ =
      .halted store (.failed fault stack))
    (means : Means mode depth phrase store store (some fault))
    (halts : (Progress.running ⟨store, stack, true⟩).after (.plain mode) count =
      .halted final outcome) :
    Accounted mode final outcome depth phrase store stack exit := by
  obtain ⟨rest, _, halts⟩ := halts_of_step step halts
  rw [Progress.after_halted] at halts
  cases halts
  exact .inr ⟨fault, stack, means, rfl⟩

/-- A statement that opens a body is accounted for by the body and what follows it. -/
theorem accounted_of_body (ih : ∀ fewer < count, AccountedWithin mode final outcome fewer)
    {store changed : Store} {stack entered : Stack} {block : Block} {phrase : Phrase}
    (here : stack.inner.rest = block)
    (step : Machine.step (.plain mode) false ⟨store, stack, true⟩ = .running ⟨changed, entered, true⟩)
    (inside : ∀ fewer < count, (Progress.running ⟨changed, entered, true⟩).after (.plain mode) fewer =
        .halted final outcome →
      Accounted mode final outcome (stack.depth + 1) phrase changed entered
        (stack.modify Level.advance))
    (longer : ∀ left last fault?, Means mode (stack.depth + 1) phrase changed left none →
      Means mode stack.depth (.statements block.tail) left last fault? →
      Means mode stack.depth (.statements block) store last fault?)
    (failing : ∀ last fault, Means mode (stack.depth + 1) phrase changed last (some fault) →
      Means mode stack.depth (.statements block) store last (some fault))
    (halts : (Progress.running ⟨store, stack, true⟩).after (.plain mode) count =
      .halted final outcome) :
    Accounted mode final outcome stack.depth (.statements block) store stack stack.exhaust := by
  obtain ⟨rest, fewer, halts⟩ := halts_of_step step halts
  rcases inside rest fewer halts with ⟨left, means, through⟩ | ⟨fault, last, means, failed⟩
  · obtain ⟨remaining, bound, halts⟩ := through.halts halts
    have next : (stack.modify Level.advance).inner.rest = block.tail := congrArg Block.tail here
    have accounted := (ih remaining (by omega)).statements _ _ halts
    rw [next] at accounted
    exact accounted.prepend ((Leads.of_step step).trans through)
      fun last fault? onward => longer left last fault? means onward
  · exact .inr ⟨fault, last, failing final fault means, failed⟩

theorem accounted_statements (ih : ∀ fewer < count, AccountedWithin mode final outcome fewer)
    (store : Store) (stack : Stack)
    (halts : (Progress.running ⟨store, stack, true⟩).after (.plain mode) count =
      .halted final outcome) :
    Accounted mode final outcome stack.depth (.statements stack.inner.rest) store stack
      stack.exhaust := by
  cases here : stack.inner.rest with
  | done =>
    have leads : (Phrase.statements .done).Leads mode stack.depth store store none := Means.done.leads
    exact .inl ⟨store, .done, leads stack here rfl⟩
  | act offset action next =>
    cases result : store.perform mode action with
    | ok changed =>
      exact accounted_of_proceed ih here
        ((Machine.Executes.acts here result).plain_step_at (by simp [here]))
        (fun _ _ => .acts result) halts
    | error fault =>
      exact accounted_of_fail ((Machine.Executes.actFails here result).plain_step_at (by simp [here]))
        (.actFails result) halts
  | loop opens body closes next =>
    by_cases zero : store.value = 0
    · exact accounted_of_proceed ih here
        ((Machine.Executes.skipsLoop here zero).plain_step_at (by simp [here]))
        (fun _ _ => .skips zero) halts
    · exact accounted_of_body ih here
        ((Machine.Executes.entersLoop here zero (Rules.plain_skips _ _ _)).plain_step_at (by simp [here]))
        (fun fewer less => (ih fewer less).rounds _ _ body closes)
        (fun _ _ _ => .loops zero) (fun _ _ => .loopFails zero) halts
  | define opens body closes next =>
    cases result : store.functions.define store.value body with
    | ok functions =>
      exact accounted_of_proceed ih here
        ((Machine.Executes.defines here result).plain_step_at (by simp [here]))
        (fun _ _ => .defines result) halts
    | error fault =>
      exact accounted_of_fail
        ((Machine.Executes.defineFails here result).plain_step_at (by simp [here]))
        (.defineFails result) halts
  | call offset next =>
    cases bound : store.functions.get? store.value with
    | none =>
      exact accounted_of_fail
        ((Machine.Executes.callsNothing here bound).plain_step_at (by simp [here]))
        (.callsNothing bound) halts
    | some body =>
      by_cases room : stack.depth < depthLimit
      · refine accounted_of_body ih here
          ((Machine.Executes.calls here bound room).plain_step_at (by simp [here]))
          ?_ (fun _ _ _ => .calls bound room) (fun _ _ => .callFails bound room) halts
        intro fewer less halts
        rcases (ih fewer less).statements _ _ halts with ⟨left, means, through⟩ | failed
        · exact .inl ⟨left, means, through.trans .leaveCall⟩
        · exact .inr failed
      · exact accounted_of_fail
          ((Machine.Executes.callsTooDeep here bound room).plain_step_at (by simp [here]))
          (.callsTooDeep bound room) halts

theorem accounted_rounds (ih : ∀ fewer < count, AccountedWithin mode final outcome fewer)
    (store : Store) (stack : Stack) (body : Block) (closes : Nat)
    (halts : (Progress.running ⟨store, stack.push (.enter body (.loop closes)), true⟩).after
      (.plain mode) count = .halted final outcome) :
    Accounted mode final outcome (stack.depth + 1) (.rounds body) store
      (stack.push (.enter body (.loop closes))) (stack.modify Level.advance) := by
  rcases accounted_statements ih _ _ halts with ⟨left, means, through⟩ | ⟨fault, last, means, failed⟩
  · by_cases zero : left.value = 0
    · exact .inl ⟨left.count 1, .lastRound means zero, through.trans (.endLoop zero)⟩
    · obtain ⟨remaining, bound, halts⟩ := through.halts halts
      obtain ⟨rest, fewer, halts⟩ := halts_of_step
        ((Machine.Executes.repeatsLoop rfl zero).plain_step rfl) halts
      exact ((ih rest (by omega)).rounds _ stack body closes halts).prepend
        (through.trans (.repeatLoop zero)) fun _ _ => .nextRound means zero
  · exact .inr ⟨fault, last, .roundFails means, failed⟩

/-- The induction is on the steps that are left until the run halts. -/
theorem accountedWithin (mode : CellMode) (final : Store) (outcome : Outcome) (count : Nat) :
    AccountedWithin mode final outcome count := by
  induction count using Nat.strongRecOn with
  | _ count ih => exact ⟨accounted_statements ih, accounted_rounds ih⟩

end Induction

section Ends

variable {mode : CellMode} {block : Block} {input : Text} {tape : Tape} {last : Store}

theorem Means.finishes (means : Means mode 1 (.statements block) (.start tape input) last none) :
    ∃ count, plainRun mode block input tape count = .halted last .finished := by
  obtain ⟨count, reached⟩ := means.leads (.top block) rfl rfl
  refine ⟨count + 1, ?_⟩
  rw [plainRun, Progress.after_succ_last]
  exact (congrArg (Progress.next _) reached).trans (Machine.step_of_over rfl)

theorem Means.fails {fault : Fault}
    (means : Means mode 1 (.statements block) (.start tape input) last (some fault)) :
    ∃ count stack, plainRun mode block input tape count = .halted last (.failed fault stack) :=
  means.leads (.top block) rfl rfl

/-- A plain run that halts has come to what the script means. -/
theorem means_of_plainRun {count : Nat} {outcome : Outcome}
    (ended : plainRun mode block input tape count = .halted last outcome) :
    (outcome = .finished ∧ Means mode 1 (.statements block) (.start tape input) last none) ∨
      ∃ fault stack, outcome = .failed fault stack ∧
        Means mode 1 (.statements block) (.start tape input) last (some fault) := by
  rcases (accountedWithin mode last outcome count).statements (.start tape input) (.top block) ended
    with ⟨left, means, _⟩ | ⟨fault, stack, means, failed⟩
  · obtain ⟨final, finished⟩ := Means.finishes means
    obtain ⟨rfl, rfl⟩ := plainRun_end_unique finished ended
    exact .inl ⟨rfl, means⟩
  · exact .inr ⟨fault, stack, failed, means⟩

end Ends

/-- The result shows this store and this fault, or success. -/
structure Result.Reports (store : Store) (fault? : Option Fault) (result : Result) : Prop where
  exitCode : result.exitCode =
    ((fault?.map Fault.exitCode).getD (.ofFlags [.success])).withOutput store.output.chars
  tape : result.tape = store.tape
  output : result.output = store.output.chars
  operations : result.operations = store.operations
  functions : result.functions = store.functions.listing

/-- With enough fuel there is a result exactly if the meaning is defined, and then the
result is the one that the meaning gives. -/
def Follows (attempt : Nat → Except ConfigError (Option Result))
    (meaning : Store → Option Fault → Prop) : Prop :=
  ((∃ fuel result, attempt fuel = .ok (some result)) ↔ ∃ last fault?, meaning last fault?) ∧
    ∀ fuel result last fault?, attempt fuel = .ok (some result) → meaning last fault? →
      result.Reports last fault?

section Accepted

variable {config : Config} {source : Text} {block : Block}

theorem follows_runOn (unbounded : config.budget = none) (accepted : readScript source = .ok block)
    (input : Text) (tape : Tape) (watch : Stopwatch) :
    Follows (fun fuel => .ok (runOn fuel watch config source input tape))
      (Means config.mode 1 (.statements block) (.start tape input)) := by
  have ends : ∀ last fault?, Means config.mode 1 (.statements block) (.start tape input) last fault? →
      ∃ count outcome, plainRun config.mode block input tape count = .halted last outcome ∧
        ∀ elapsed, (Result.ofOutcome block elapsed last outcome).Reports last fault? := by
    intro last fault? means
    cases fault? with
    | none =>
      obtain ⟨count, ended⟩ := means.finishes
      exact ⟨count, _, ended, fun elapsed => ⟨rfl, rfl, rfl, rfl, rfl⟩⟩
    | some fault =>
      obtain ⟨count, stack, ended⟩ := means.fails
      exact ⟨count, _, ended, fun elapsed => ⟨rfl, rfl, rfl, rfl, rfl⟩⟩
  refine ⟨⟨?_, ?_⟩, ?_⟩
  · rintro ⟨fuel, result, ran⟩
    obtain ⟨count, _, last, outcome, ended, _⟩ := runOn_ended unbounded accepted (Except.ok.inj ran)
    rcases means_of_plainRun ended with ⟨_, means⟩ | ⟨fault, _, _, means⟩
    · exact ⟨last, none, means⟩
    · exact ⟨last, some fault, means⟩
  · rintro ⟨last, fault?, means⟩
    obtain ⟨count, outcome, ended, _⟩ := ends last fault? means
    obtain ⟨fuel, result, ran⟩ := exists_runOn unbounded accepted ended watch
    exact ⟨fuel, result, congrArg Except.ok ran⟩
  · intro fuel result last fault? ran means
    obtain ⟨count, outcome, ended, reports⟩ := ends last fault? means
    obtain ⟨other, elapsed, _, _, again, rfl⟩ :=
      runOn_ended unbounded accepted (Except.ok.inj ran)
    obtain ⟨rfl, rfl⟩ := plainRun_end_unique ended again
    exact reports elapsed

end Accepted

/-- A script with an operator and brackets in order is spelled by one sequence of
statements, and running it gives, with a result or without, what these mean. -/
theorem run_follows_meaning (source : Text) (code : hasCode source = true)
    (sound : bracketFault? (tokens source) = none) :
    ∃ block : Block, (∀ other : Block, other.tokens = tokens source ↔ other = block) ∧
      ∀ config : Config, 0 < config.tapeSize → config.budget = none → ∀ input watch,
        Follows (fun fuel => run fuel watch config source input)
          (Means config.mode 1 (.statements block) (.start (.blank config.tapeSize) input)) ∧
        ∀ tape, Follows (fun fuel => runWithTape fuel watch config source input tape)
          (Means config.mode 1 (.statements block) (.start (config.mode.adapt tape) input)) := by
  obtain ⟨block, read⟩ := Block.exists_ofTokens?_of_bracketFault? sound
  have spelled := Block.tokens_ofTokens? read
  have accepted := readScript_eq_ok_iff.mpr ⟨code, sound, spelled⟩
  refine ⟨block, ?_, ?_⟩
  · intro other
    exact ⟨fun same => Block.tokens_injective (same.trans spelled.symm), fun same => same ▸ spelled⟩
  · intro config size unbounded input watch
    have valid := Config.validate_eq_ok size unbounded
    refine ⟨?_, ?_⟩
    · simp only [run_eq_runOn valid]
      exact follows_runOn unbounded accepted input _ watch
    · intro tape
      simp only [runWithTape_eq_runOn valid]
      exact follows_runOn unbounded accepted input _ watch

/-- A script that defines a function, calls it and counts the cell down again. -/
theorem run_follows_meaning_of_call_and_loop :
    ∃ block last fault?, Block.tokens block = tokens ['(', '+', ')', ':', '[', '-', ']'] ∧
      Means .short 1 (.statements block) (.start (.blank 2) []) last fault? ∧
      last.operations = 5 ∧ last.tape = .blank 2 := by
  obtain ⟨block, spells, follows⟩ :=
    run_follows_meaning ['(', '+', ')', ':', '[', '-', ']'] (by decide) (by decide)
  obtain ⟨defined, reports⟩ := (follows ⟨.short, 2, none⟩ (by decide) rfl [] fun _ => 0).1
  obtain ⟨last, fault?, means⟩ := defined.mp ⟨9, _, rfl⟩
  have shown := reports 9 _ last fault? rfl means
  exact ⟨block, last, fault?, (spells block).mpr rfl, means, shown.operations.symm, shown.tape.symm⟩

end TapeStepper
