import TapeStepper.Proofs.Flags
import TapeStepper.Proofs.Transparency

namespace TapeStepper

namespace Checked

/-- The operators before anything is run, with what earlier runs have left behind. -/
def Engine.fresh (tokens : List Token) (memory : Memory) : Engine :=
  ⟨memory, .top tokens, [], true⟩

/-- Enters the levels along the marks, running nothing, and goes to the operator that the first mark
names. -/
def Engine.replay? (late : Nat → Bool) (marks : List Mark) (engine : Engine) : Option Flow := do
  let flow ← engine.descend? late marks.tail.reverse
  flow.onward? fun engine => some (.running (engine.revisit marks))

/-- Whatever running the operators leads to. The first run begins with a tape and an input; mode,
breakpoints and clock are free at every step. When a run has stopped, the next one is taken up where it
has paused, or begins anew with what is left behind. -/
inductive Leads (tokens : List Token) : Flow → Prop
  | start {strip input late flow} : strip.position < strip.cells.length →
      Engine.enter? late tokens (.start strip input) [] = some flow → Leads tokens flow
  | step {engine rules late flow} : Leads tokens (.running engine) →
      engine.step? rules late = some flow → Leads tokens flow
  | again {memory frames late flow} : Leads tokens (.halted memory (.paused frames)) →
      Engine.enter? late tokens memory (frames.map Frame.mark) = some flow → Leads tokens flow
  | anew {memory ending late flow} : Leads tokens (.halted memory ending) →
      Engine.enter? late tokens memory [] = some flow → Leads tokens flow

/-- Without a clock, the way in is the replay on a fresh stack. -/
theorem Engine.enter?_never {tokens : List Token} (code : tokens ≠ []) (memory : Memory)
    (marks : List Mark) :
    Engine.enter? never tokens memory marks = (Engine.fresh tokens memory).replay? never marks := by
  have filled : ¬ tokens.isEmpty = true := by simpa using code
  rw [Engine.enter?, if_neg filled]
  rfl

end Checked

/-- A run that has stopped on the operators has stopped on the statements. -/
theorem Progress.of_flow_halted {progress : Progress} {memory : Checked.Memory} {ending : Checked.Ending}
    (same : progress.flow = .halted memory ending) :
    ∃ store outcome, progress = .halted store outcome ∧ store.memory = memory ∧
      outcome.ending = ending := by
  cases progress with
  | running machine => cases same
  | halted store outcome =>
    cases same
    exact ⟨store, outcome, rfl, rfl, rfl⟩

theorem Progress.of_flow_paused {progress : Progress} {memory : Checked.Memory}
    {frames : List Checked.Frame} (same : progress.flow = .halted memory (.paused frames)) :
    ∃ store stack, progress = .halted store (.paused stack) ∧ store.memory = memory ∧
      stack.haltFrames = frames := by
  obtain ⟨store, outcome, rfl, held, ended⟩ := of_flow_halted same
  cases outcome with
  | paused stack =>
    cases ended
    exact ⟨store, stack, rfl, held, rfl⟩
  | finished | failed _ _ | overran _ => cases ended

section Levels

variable {block : Block}

theorem Machine.Marked.of_enter? {machine : Machine} {marks : List Checked.Mark} {late : Nat → Bool}
    {flow : Checked.Flow} (marked : machine.Marked block marks) (code : block.tokens ≠ [])
    (entered : Checked.Engine.enter? late block.tokens machine.store.memory marks = some flow) :
    ∃ progress : Progress, progress.flow = flow ∧ progress.Sound block := by
  rw [marked.enter? code] at entered
  exact ⟨machine.enter late, Option.some.inj entered, marked.sound_enter late⟩

/-- What the operators lead to is what the statements lead to, with the levels in order. -/
theorem Checked.Leads.exists_progress (code : block.tokens ≠ []) (whole : block.Tidy)
    {flow : Checked.Flow} (leads : Checked.Leads block.tokens flow) :
    ∃ progress : Progress, progress.flow = flow ∧ progress.Sound block := by
  induction leads with
  | @start strip input late flow inRange entered =>
    obtain ⟨tape, _, rfl⟩ := Checked.Strip.exists_tape inRange
    have marked : (Machine.launch block (.start tape input)).Marked block [] := .start nofun
    exact marked.of_enter? code entered
  | @step engine rules late flow _ stepped ih =>
    obtain ⟨progress, same, sound⟩ := ih
    cases progress with
    | halted store outcome => cases same
    | running machine =>
      cases same
      rw [Machine.engine_step? whole sound] at stepped
      exact ⟨machine.step rules late, Option.some.inj stepped, Machine.sound_step whole sound⟩
  | @again memory frames late flow _ entered ih =>
    obtain ⟨progress, same, sound⟩ := ih
    obtain ⟨store, stack, rfl, rfl, rfl⟩ := Progress.of_flow_paused same
    have marked : Machine.Marked block ⟨store, stack, false⟩ stack.marks :=
      .again (sound.stands stack rfl) sound.plain
    exact marked.of_enter? code entered
  | @anew memory ending late flow _ entered ih =>
    obtain ⟨progress, same, sound⟩ := ih
    obtain ⟨store, outcome, rfl, rfl, _⟩ := Progress.of_flow_halted same
    have marked : (Machine.launch block store).Marked block [] := .start sound.plain
    exact marked.of_enter? code entered

/-- The marks of a pause lead back to the levels that were active, and from there to the same frames. -/
theorem Machine.replay?_of_paused (code : block.tokens ≠ []) (whole : block.Tidy) {machine : Machine}
    (sound : (Progress.running machine).Sound block) {rules : Rules} {late : Bool}
    {memory : Checked.Memory} {frames : List Checked.Frame}
    (pauses : machine.engine.step? rules late = some (.halted memory (.paused frames))) :
    memory = machine.engine.memory ∧
      (Checked.Engine.fresh block.tokens memory).replay? never (frames.map Checked.Frame.mark) =
        some (.running { machine.engine with armed := false }) ∧
      Checked.Engine.frames? { machine.engine with armed := false } = some frames := by
  rw [engine_step? whole sound] at pauses
  obtain ⟨store, stack, stepped, rfl, rfl⟩ := Progress.of_flow_paused (Option.some.inj pauses)
  obtain ⟨rfl, rfl, _, inside, _⟩ := of_step_paused stepped
  have stands : machine.stack.Stands block machine.store.functions := sound.stands
  have marked : Marked block ⟨machine.store, machine.stack, false⟩ machine.stack.marks :=
    .again stands sound.plain
  have entered := marked.enter? code never
  rw [enter_never, Checked.Engine.enter?_never code] at entered
  exact ⟨rfl, entered, engine_frames? stands inside⟩

end Levels

/-- A pause and the way back in are inverse. However a script has come to a breakpoint, on its statements
or on its operators, the point that is kept leads from a fresh stack to the levels that were active there,
each as it was; nothing else is changed on the way, and to pause again at once gives the same again. -/
theorem pause_and_replay_are_inverse (source : Text) (block : Block)
    (accepted : readScript source = .ok block) :
    (∀ store point machine rules late fuel halt stack, Carried block store point →
      Machine.takeUp? block store point = some machine → machine.run rules late fuel = some halt →
      halt.outcome = .paused stack →
      Machine.relaunch? block halt.store stack.resumePoint = some ⟨halt.store, stack, false⟩ ∧
      Machine.enter never ⟨halt.store, stack, false⟩ = .running ⟨halt.store, stack, false⟩ ∧
      ∀ late, Machine.step rules late ⟨halt.store, stack, true⟩ = .halted halt.store (.paused stack)) ∧
    ∀ engine rules late memory frames, Checked.Leads (tokens source) (.running engine) →
      engine.step? rules late = some (.halted memory (.paused frames)) →
      memory = engine.memory ∧
      (Checked.Engine.fresh (tokens source) memory).replay? never (frames.map Checked.Frame.mark) =
        some (.running { engine with armed := false }) ∧
      Checked.Engine.frames? { engine with armed := false } = some frames := by
  have whole := tidy_of_readScript accepted
  refine ⟨?_, ?_⟩
  · intro store point machine rules late fuel halt stack carried taken ran paused
    obtain ⟨begun, marks, takenToo, marked, _⟩ := (carried.resumable whole).exists_machine
    obtain rfl := Option.some.inj (takenToo.symm.trans taken)
    have stands := (marked.sound_run whole ran).stands stack (by rw [paused]; rfl)
    obtain ⟨inside, hit⟩ := Machine.pausesAt_of_run ran paused
    refine ⟨?_, Machine.enter_never _, fun late => Machine.step_of_pause inside rfl hit⟩
    rw [Machine.relaunch?, stands.rebuild]
    rfl
  · intro engine rules late memory frames leads pauses
    have code := tokens_ne_nil_of_readScript accepted
    have spelled : block.tokens = tokens source := (readScript_eq_ok_iff.mp accepted).2.2
    rw [← spelled] at leads ⊢
    obtain ⟨progress, same, sound⟩ := leads.exists_progress code whole
    cases progress with
    | halted store outcome => cases same
    | running machine =>
      cases same
      exact Machine.replay?_of_paused code whole sound pauses

/-- A breakpoint in a function that is called in a loop: three levels are left, and entered again. -/
theorem pause_and_replay_are_inverse_in_a_call :
    ∃ engine frames, Checked.Leads (tokens "+(-)[:]".toList) (.running engine) ∧
      engine.step? ⟨.short, .ofList [2], true⟩ false =
        some (.halted engine.memory (.paused frames)) ∧
      frames.map Checked.Frame.mark = [⟨0, none⟩, ⟨0, some 1⟩, ⟨4, none⟩] ∧
      (Checked.Engine.fresh (tokens "+(-)[:]".toList) engine.memory).replay? never
          (frames.map Checked.Frame.mark) = some (.running { engine with armed := false }) := by
  have accepted : readScript "+(-)[:]".toList = .ok (.act 0 .plus (.define 1 (.act 2 .minus .done) 3
      (.loop 4 (.call 5 .done) 6 .done))) := rfl
  have first := @Checked.Leads.start (tokens "+(-)[:]".toList) ⟨[0], 0⟩ [] never _ (by decide) rfl
  have second := @Checked.Leads.step _ _ ⟨.short, .ofList [2], true⟩ false _ first rfl
  have third := @Checked.Leads.step _ _ ⟨.short, .ofList [2], true⟩ false _ second rfl
  have fourth := @Checked.Leads.step _ _ ⟨.short, .ofList [2], true⟩ false _ third rfl
  have fifth := @Checked.Leads.step _ _ ⟨.short, .ofList [2], true⟩ false _ fourth rfl
  obtain ⟨_, replayed, _⟩ := (pause_and_replay_are_inverse _ _ accepted).2 _ ⟨.short, .ofList [2], true⟩
    false _ _ fifth rfl
  exact ⟨_, _, fifth, rfl, rfl, replayed⟩

end TapeStepper
