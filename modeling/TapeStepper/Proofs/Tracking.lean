import TapeStepper.Proofs.Spans

namespace TapeStepper

def Machine.engine (machine : Machine) : Checked.Engine where
  memory := machine.store.memory
  inner := machine.stack.inner.span machine.stack.outer
  outer := spans machine.stack.outer
  armed := machine.armed

def Stack.haltFrames (stack : Stack) : List Checked.Frame :=
  stack.inner.frame none :: outerFrames stack.inner stack.outer

def Outcome.ending : Outcome → Checked.Ending
  | finished => .finished
  | paused stack => .paused stack.haltFrames
  | failed fault stack => .failed fault stack.haltFrames
  | overran stack => .failed .timeBudget (.empty :: outerFrames stack.inner stack.outer)

def Progress.flow : Progress → Checked.Flow
  | running machine => .running machine.engine
  | halted store outcome => .halted store.memory outcome.ending

def Halt.stop (halt : Halt) : Checked.Stop :=
  ⟨halt.steps, halt.store.memory, halt.outcome.ending⟩

theorem length_spans (levels : List Level) : (spans levels).length = levels.length := by
  induction levels with
  | nil => rfl
  | cons level outer ih => rw [spans, List.length_cons, ih, List.length_cons]

namespace Machine

variable {block : Block} {rules : Rules} {late : Bool} {machine : Machine} {progress : Progress}

theorem engine_current? : machine.engine.memory.strip.current? = some machine.store.value :=
  machine.store.tape.strip_current?

theorem engine_leave (store : Store) (armed : Bool) :
    machine.engine.leave store.memory armed = (machine.leave store armed).flow := by
  obtain ⟨before, ⟨inner, outer, depth, depth_eq⟩, wasArmed⟩ := machine
  cases outer with
  | nil => rfl
  | cons around outer => rfl

theorem engine_moveBy (inPlace : machine.stack.inner.InPlace) (store : Store) {count : Nat}
    (width : (machine.stack.inner.rest.takeTokens 1).length = count) :
    machine.engine.moveBy count store.memory = (machine.proceed store).flow := by
  have moved := Level.span_advance machine.stack.outer inPlace
  rw [width] at moved
  unfold Checked.Engine.moveBy proceed Progress.flow engine
  exact congrArg (fun span => Checked.Flow.running ⟨store.memory, span, _, true⟩) moved.symm

theorem engine_arrive? (late : Bool) (store : Store) {stack : Stack}
    (stands : stack.Stands block store.functions) :
    Checked.Engine.arrive? late store.memory (stack.inner.span stack.outer) (spans stack.outer) =
      some (arrive late store stack).flow := by
  cases late with
  | false => rfl
  | true =>
    rw [Checked.Engine.arrive?, if_pos rfl, stands.outerFrames?]
    rfl

theorem length_of_skips {body : Block} {closes : Nat} (skips : rules.skips body closes = true) :
    body.tokens.length = 1 := by
  unfold Rules.skips at skips
  split at skips
  · rfl
  · cases skips

section Standing

variable (stands : machine.stack.Stands block machine.store.functions)
include stands

theorem engine_openLoop? {opens closes : Nat} {body next : Block}
    (rest : machine.stack.inner.rest = .loop opens body closes next) :
    machine.engine.openLoop? rules late = some (machine.execute rules late).flow := by
  have width : (machine.stack.inner.rest.takeTokens 1).length = body.tokens.length + 1 + 1 := by
    simp [rest, Block.takeTokens, Block.tokensOnto_eq]
  have length : Checked.loopLength? machine.engine.inner.code machine.engine.inner.index = _ :=
    Level.loopLength?_code machine.stack.outer stands.inPlace rest
  have skips : Checked.Engine.skips rules machine.engine.inner = _ :=
    Level.skips_span machine.stack.outer stands.inPlace rules rest
  unfold Checked.Engine.openLoop? execute
  simp only [engine_current?, rest, skips, length, Option.bind_eq_bind, Option.bind_some]
  split
  · exact congrArg some (engine_moveBy stands.inPlace (machine.store.count 1) width)
  · split
    · rename_i shortcut
      have reset : machine.engine.memory.strip.set? 0 = _ := machine.store.tape.strip_set? 0
      rw [length_of_skips shortcut] at width
      rw [reset]
      exact congrArg some (engine_moveBy stands.inPlace
        ((machine.store.withTape (machine.store.tape.set 0)).count (2 * machine.store.value + 1)) width)
    · have entered : machine.engine.inner.loop? = _ :=
        Level.span_loop? machine.stack.outer stands.inPlace rest
      rw [entered]
      exact engine_arrive? late (machine.store.count 1) (stands.pushLoop rest)

theorem engine_closeLoop? (rest : machine.stack.inner.rest = .done) :
    machine.engine.closeLoop? late = some (machine.execute rules late).flow := by
  unfold Checked.Engine.closeLoop? execute
  simp only [engine_current?, rest, Option.bind_eq_bind, Option.bind_some]
  split
  · exact congrArg some (engine_leave (machine.store.count 1) true)
  · have again : { machine.engine.inner with index := machine.engine.inner.start } =
        machine.stack.inner.restart.span machine.stack.outer :=
      (Level.span_restart machine.stack.outer).symm
    rw [again]
    exact engine_arrive? late (machine.store.count 1) stands.restart

variable (inside : machine.stack.inner.isOver = false)
include inside

theorem engine_frames? : machine.engine.frames? = some machine.stack.haltFrames := by
  have frame := Level.span_frame? machine.stack.outer stands.inPlace inside none
  unfold Checked.Engine.frames? engine
  simp only [frame, stands.outerFrames?]
  rfl

theorem engine_fail? (fault : Fault) : machine.engine.fail? fault = some (machine.fail fault).flow := by
  rw [Checked.Engine.fail?, engine_frames? stands inside]
  rfl

theorem engine_act? {offset : Nat} {action : Action} {next : Block}
    (rest : machine.stack.inner.rest = .act offset action next) :
    machine.engine.act? rules action = some (machine.execute rules late).flow := by
  have performed : machine.engine.memory.perform? rules.mode action = _ :=
    machine.store.memory_perform? rules.mode action
  unfold Checked.Engine.act? execute
  simp only [performed, rest, Option.bind_eq_bind, Option.bind_some]
  cases machine.store.perform rules.mode action with
  | ok store => exact congrArg some (engine_moveBy stands.inPlace (store.count 1) (by rw [rest]; rfl))
  | error fault => exact engine_fail? stands inside fault

theorem engine_define? {opens closes : Nat} {body next : Block}
    (rest : machine.stack.inner.rest = .define opens body closes next)
    (tidy : machine.stack.inner.rest.Tidy) :
    machine.engine.define? = some (machine.execute rules late).flow := by
  have width : (machine.stack.inner.rest.takeTokens 1).length = body.tokens.length + 2 := by
    simp [rest, Block.takeTokens, Block.tokensOnto_eq]
  rw [rest] at tidy
  obtain ⟨plain, nonempty, _⟩ := tidy
  have found : Checked.functionBody? machine.engine.inner.code machine.engine.inner.index = _ :=
    Level.functionBody?_code machine.stack.outer stands.inPlace rest plain
  have defined : machine.engine.memory.define? machine.store.value body.tokens = _ :=
    machine.store.memory_define? machine.store.value nonempty
  unfold Checked.Engine.define? execute
  simp only [found, engine_current?, defined, rest, Option.bind_eq_bind, Option.bind_some]
  cases machine.store.functions.define machine.store.value body with
  | ok functions =>
    exact congrArg some (engine_moveBy stands.inPlace { machine.store with functions } width)
  | error fault => exact engine_fail? stands inside fault

theorem engine_call? {offset : Nat} {next : Block}
    (rest : machine.stack.inner.rest = .call offset next) :
    machine.engine.call? late = some (machine.execute rules late).flow := by
  have found : machine.engine.memory.functions.get? machine.store.value = _ :=
    FunctionTable.get?_spelled machine.store.functions machine.store.value
  have depth : machine.engine.outer.length + 1 = machine.stack.depth := by
    rw [machine.stack.depth_eq, ← length_spans]
    rfl
  unfold Checked.Engine.call? execute
  simp only [engine_current?, found, depth, rest, Option.bind_eq_bind, Option.bind_some]
  cases bound : machine.store.functions.get? machine.store.value with
  | none => exact engine_fail? stands inside _
  | some body =>
    simp only [Option.map_some]
    split
    · have entered := Level.span_call machine.stack.outer body machine.store.value machine.stack.inner
        stands.inPlace rest
      rw [show machine.engine.inner = machine.stack.inner.span machine.stack.outer from rfl, ← entered]
      exact engine_arrive? late (machine.store.count 1) (stands.pushCall rest bound)
    · exact engine_fail? stands inside _

/-- No check fails when the current operator is run. -/
theorem engine_execute? (tidy : machine.stack.inner.rest.Tidy) {token : Token}
    (here : machine.stack.inner.current? = some token) :
    machine.engine.execute? rules late token.operator = some (machine.execute rules late).flow := by
  cases rest : machine.stack.inner.rest with
  | act offset action next =>
    rw [Level.current?, rest] at here
    cases here
    exact engine_act? stands inside rest
  | call offset next =>
    rw [Level.current?, rest] at here
    cases here
    exact engine_call? stands inside rest
  | loop opens body closes next =>
    rw [Level.current?, rest] at here
    cases here
    exact engine_openLoop? stands rest
  | define opens body closes next =>
    rw [Level.current?, rest] at here
    cases here
    exact engine_define? stands inside rest tidy
  | done =>
    rw [Level.current?, rest] at here
    cases entry : machine.stack.inner.entry with
    | loop closes =>
      rw [Level.closing, entry] at here
      cases here
      exact engine_closeLoop? stands rest
    | top | call _ =>
      rw [Level.closing, entry] at here
      cases here

theorem engine_step?_of_inside {token : Token} (here : machine.stack.inner.current? = some token) :
    machine.engine.step? rules late =
      if machine.armed && rules.pausesAt machine.stack.inner.offset then
        machine.engine.frames?.map fun frames => .halted machine.store.memory (.paused frames)
      else machine.engine.execute? rules late token.operator := by
  have going : machine.engine.inner.index ≠ machine.engine.inner.stop := by
    intro stopped
    have ended := (Level.index_eq_stop_iff machine.stack.outer stands.inPlace).mp stopped
    rw [inside] at ended
    cases ended
  have fetched : machine.engine.inner.code[machine.engine.inner.index]? = some token :=
    Level.getElem?_code machine.stack.outer stands.inPlace here
  rw [Checked.Engine.step?, if_neg going, fetched, Option.bind_eq_bind, Option.bind_some,
    Level.offset_of_current? here, Option.map_eq_bind]
  rfl

end Standing

/-- No check fails in a step, and it does what the machine does. -/
theorem engine_step? (whole : block.Tidy) (sound : (Progress.running machine).Sound block) :
    machine.engine.step? rules late = some (machine.step rules late).flow := by
  have stands : machine.stack.Stands block machine.store.functions := sound.stands
  obtain ⟨ended, step⟩ | ⟨inside, armed, marked, step⟩ | ⟨inside, free, step⟩ :=
    step_cases rules late machine
  · have stopped : machine.engine.inner.index = machine.engine.inner.stop :=
      (Level.index_eq_stop_iff machine.stack.outer stands.inPlace).mpr ended
    rw [step, Checked.Engine.step?, if_pos stopped]
    exact congrArg some (engine_leave machine.store machine.armed)
  · obtain ⟨token, here⟩ := Level.exists_current? inside
    rw [step, engine_step?_of_inside stands inside here, armed, marked, engine_frames? stands inside]
    rfl
  · obtain ⟨token, here⟩ := Level.exists_current? inside
    have onward : (machine.armed && rules.pausesAt machine.stack.inner.offset) = false := by
      cases armed : machine.armed with
      | false => rfl
      | true => exact free armed
    rw [step, engine_step?_of_inside stands inside here, onward]
    exact engine_execute? stands inside (stands.tidy whole sound.plain).2 here

end Machine

/-- No check fails along a run. -/
theorem Progress.flow_finish? {block : Block} (whole : block.Tidy) {rules : Rules}
    {late : Nat → Bool} (fuel steps : Nat) {progress : Progress} (sound : progress.Sound block) :
    progress.flow.finish? rules late fuel steps =
      some ((progress.finish rules late fuel steps).map Halt.stop) := by
  induction fuel generalizing steps progress with
  | zero => cases progress <;> rfl
  | succ fuel ih =>
    cases progress with
    | halted store outcome => rfl
    | running machine =>
      rw [Progress.flow, Checked.Flow.finish?, Machine.engine_step? whole sound, Option.bind_eq_bind,
        Option.bind_some, ih (steps + 1) (Machine.sound_step whole sound)]
      rfl

theorem Progress.Sound.finish {block : Block} (whole : block.Tidy) {rules : Rules}
    {late : Nat → Bool} {fuel steps : Nat} {progress : Progress} (sound : progress.Sound block)
    {halt : Halt} (run : progress.finish rules late fuel steps = some halt) :
    (Progress.halted halt.store halt.outcome).Sound block := by
  induction fuel generalizing steps progress with
  | zero =>
    cases progress with
    | halted store outcome =>
      cases run
      exact sound
    | running machine => cases run
  | succ fuel ih =>
    cases progress with
    | halted store outcome =>
      cases run
      exact sound
    | running machine => exact ih (Machine.sound_step whole sound) run

end TapeStepper
