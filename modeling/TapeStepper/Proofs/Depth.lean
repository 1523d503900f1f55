import TapeStepper.Proofs.Attained
import TapeStepper.Proofs.Deadline

namespace TapeStepper

namespace Block

/-- How deep loops nest in a body itself. A function that is defined in it has a body of its own. -/
def loopDepth : Block → Nat
  | done => 0
  | act _ _ next | call _ next | define _ _ _ next => next.loopDepth
  | loop _ body _ next => max (body.loopDepth + 1) next.loopDepth

/-- The bodies of all functions that the script defines, in its order. -/
def functionBodies : Block → List Block
  | done => []
  | act _ _ next | call _ next => next.functionBodies
  | loop _ body _ next => body.functionBodies ++ next.functionBodies
  | define _ body _ next => body :: (body.functionBodies ++ next.functionBodies)

/-- How deep loops nest in any one body, be it the script outside functions or a function. -/
def nesting (block : Block) : Nat :=
  ((block :: block.functionBodies).map loopDepth).foldl max 0

/-- Loops nest in no body deeper than `bound`. -/
def NestsWithin (bound : Nat) (block : Block) : Prop :=
  ∀ body ∈ block :: block.functionBodies, body.loopDepth ≤ bound

theorem nestsWithin_nesting (block : Block) : block.NestsWithin block.nesting := by
  intro body listed
  exact (Breakpoints.le_foldl_max _ 0).2 _ (List.mem_map_of_mem listed)

theorem loopDepth_tail_le (block : Block) : block.tail.loopDepth ≤ block.loopDepth := by
  cases block with
  | loop _ _ _ _ => exact Nat.le_max_right ..
  | done | act _ _ _ | call _ _ | define _ _ _ _ => exact Nat.le_refl _

theorem loopDepth_drop_le (count : Nat) (block : Block) :
    (block.drop count).loopDepth ≤ block.loopDepth := by
  induction count with
  | zero => exact Nat.le_refl _
  | succ count ih =>
    rw [drop_succ]
    exact Nat.le_trans (loopDepth_tail_le _) ih

namespace NestsWithin

variable {bound : Nat} {block : Block}

theorem loopDepth_le (within : block.NestsWithin bound) : block.loopDepth ≤ bound :=
  within block (List.mem_cons_self ..)

theorem tail (within : block.NestsWithin bound) : block.tail.NestsWithin bound := by
  intro body listed
  rcases List.mem_cons.mp listed with rfl | defined
  · exact Nat.le_trans (loopDepth_tail_le block) within.loopDepth_le
  · refine within body (List.mem_cons_of_mem _ ?_)
    cases block with
    | done | act _ _ _ | call _ _ => exact defined
    | loop _ _ _ _ => exact List.mem_append_right _ defined
    | define _ _ _ _ => exact List.mem_cons_of_mem _ (List.mem_append_right _ defined)

theorem loop {opens closes : Nat} {body next : Block}
    (within : (Block.loop opens body closes next).NestsWithin bound) : body.NestsWithin bound := by
  intro inner listed
  rcases List.mem_cons.mp listed with rfl | defined
  · have whole := within.loopDepth_le
    simp only [loopDepth] at whole
    omega
  · exact within inner (List.mem_cons_of_mem _ (List.mem_append_left _ defined))

theorem define {opens closes : Nat} {body next : Block}
    (within : (Block.define opens body closes next).NestsWithin bound) : body.NestsWithin bound := by
  intro inner listed
  refine within inner (List.mem_cons_of_mem _ ?_)
  rcases List.mem_cons.mp listed with rfl | defined
  · exact List.mem_cons_self ..
  · exact List.mem_cons_of_mem _ (List.mem_append_left _ defined)

end NestsWithin

end Block

/-- Loops nest in no function deeper than `bound`. -/
def FunctionTable.NestsWithin (bound : Nat) (functions : FunctionTable Block) : Prop :=
  ∀ key body, functions.get? key = some body → body.NestsWithin bound

namespace Stack

variable {stack : Stack}

/-- How the active levels were entered, innermost first. -/
def entries (stack : Stack) : List Entry :=
  stack.levels.map Level.entry

/-- When a function was entered, there was room for one more level. -/
def CallsInLimit (stack : Stack) : Prop :=
  ∀ key outer, Entry.call key :: outer <:+ stack.entries → outer.length < depthLimit

theorem CallsInLimit.of_suffix {other : Stack} (inLimit : stack.CallsInLimit)
    (part : other.entries <:+ stack.entries) : other.CallsInLimit :=
  fun key outer entered => inLimit key outer (entered.trans part)

theorem callsInLimit_top (block : Block) : (top block).CallsInLimit := by
  intro key outer entered
  obtain ⟨front, whole⟩ := entered
  have single : front ++ Entry.call key :: outer = [Entry.top] := whole
  cases front with
  | nil => cases single
  | cons first rest => simp at single

theorem CallsInLimit.push {level : Level} (inLimit : stack.CallsInLimit)
    (room : ∀ key, level.entry = .call key → stack.depth < depthLimit) :
    (stack.push level).CallsInLimit := by
  intro key outer entered
  rcases List.suffix_cons_iff.mp entered with new | old
  · obtain ⟨called, rfl⟩ := List.cons.inj new
    have depth : (stack.levels.map Level.entry).length = stack.depth := by
      rw [List.length_map, length_levels]
    exact depth ▸ room key called.symm
  · exact inLimit key outer old

theorem CallsInLimit.modify {change : Level → Level} (inLimit : stack.CallsInLimit)
    (kept : (change stack.inner).entry = stack.inner.entry) : (stack.modify change).CallsInLimit := by
  have same : (stack.modify change).entries = stack.entries := by
    simp [entries, levels, Stack.modify, kept]
  exact inLimit.of_suffix (same ▸ List.suffix_refl _)

theorem CallsInLimit.parent {around : Stack} (inLimit : stack.CallsInLimit)
    (step : stack.parent? = some around) : around.CallsInLimit := by
  obtain ⟨inner, outer, depth, depth_eq⟩ := stack
  cases outer with
  | nil => cases step
  | cons level outer =>
    cases step
    exact inLimit.of_suffix (List.suffix_cons _ _)

theorem CallsInLimit.leave {left : Stack} (inLimit : stack.CallsInLimit)
    (step : stack.leave? = some left) : left.CallsInLimit := by
  obtain ⟨around, parent, rfl⟩ := Option.map_eq_some_iff.mp step
  exact (inLimit.parent parent).modify rfl

theorem CallsInLimit.unwind (inLimit : stack.CallsInLimit) (count : Nat) :
    (stack.unwind count).CallsInLimit := by
  induction count generalizing stack with
  | zero => exact inLimit
  | succ count ih =>
    unfold Stack.unwind
    split
    · rename_i around parent
      exact ih (inLimit.parent parent)
    · exact inLimit

/-- Above the function that was entered last, or above the script, there are only loops, and they
are nested in its body. What its loops may still open is counted with the levels that are active. -/
theorem Stands.depth_add_loopDepth_le {block : Block} {functions : FunctionTable Block} {bound : Nat}
    (stands : stack.Stands block functions) (inLimit : stack.CallsInLimit)
    (whole : block.NestsWithin bound) (bodies : functions.NestsWithin bound) :
    stack.depth + stack.inner.body.loopDepth ≤ depthLimit + bound := by
  induction stands with
  | top place =>
    have nested := whole.loopDepth_le
    have positive : 1 ≤ depthLimit := by decide
    show 1 + block.loopDepth ≤ depthLimit + bound
    omega
  | @inside around level outer opened place ih =>
    show around.depth + 1 + level.body.loopDepth ≤ depthLimit + bound
    obtain ⟨opens, body, closes, next, here, entered⟩ | ⟨offset, next, key, body, here, called, bound,
      entered⟩ := opened?_cases opened
    · have same : level.body = body := congrArg Level.body entered
      have below := ih (inLimit.parent rfl)
      have later := Block.loopDepth_drop_le around.inner.index around.inner.body
      rw [outer.inPlace, here] at later
      simp only [Block.loopDepth] at later
      rw [same]
      omega
    · have same : level.body = body := congrArg Level.body entered
      have entry : level.entry = .call key := congrArg Level.entry entered
      have room : (around.levels.map Level.entry).length < depthLimit := by
        refine inLimit key _ ?_
        simp [entries, levels, push, entry]
      rw [List.length_map, length_levels] at room
      have nested := (bodies key body bound).loopDepth_le
      rw [same]
      omega

end Stack

namespace Progress

/-- The active levels, unless the run has come to its end. -/
def stack? : Progress → Option Stack
  | running machine => some machine.stack
  | halted _ outcome => outcome.stack?

/-- How many levels are active. -/
def depth (progress : Progress) : Nat :=
  (progress.stack?.map Stack.depth).getD 0

def CallsInLimit (progress : Progress) : Prop :=
  ∀ stack, progress.stack? = some stack → stack.CallsInLimit

end Progress

namespace Machine

variable {rules : Rules} {late : Bool} {machine : Machine} {progress : Progress}

theorem stack?_arrive (late : Bool) (store : Store) (stack : Stack) :
    (arrive late store stack).stack? = some stack := by
  cases late <;> rfl

theorem callsInLimit_arrive {store : Store} {stack : Stack} (inLimit : stack.CallsInLimit) :
    (arrive late store stack).CallsInLimit := by
  intro active same
  rw [stack?_arrive] at same
  cases same
  exact inLimit

theorem callsInLimit_leave {store : Store} {armed : Bool} (inLimit : machine.stack.CallsInLimit) :
    (machine.leave store armed).CallsInLimit := by
  unfold leave
  split
  · rename_i left step
    rintro stack ⟨⟩
    exact inLimit.leave step
  · nofun

theorem Executes.callsInLimit (move : machine.Executes rules late progress)
    (inLimit : machine.stack.CallsInLimit) : progress.CallsInLimit := by
  cases move with
  | acts _ _ | skipsLoop _ _ | resetsCell _ _ _ | defines _ _ =>
    rintro stack ⟨⟩
    exact inLimit.modify rfl
  | entersLoop _ _ _ => exact callsInLimit_arrive (inLimit.push nofun)
  | calls _ _ room => exact callsInLimit_arrive (inLimit.push fun _ _ => room)
  | endsLoop _ _ => exact callsInLimit_leave inLimit
  | repeatsLoop _ _ => exact callsInLimit_arrive (inLimit.modify rfl)
  | actFails _ _ | defineFails _ _ | callsNothing _ _ | callsTooDeep _ _ _ =>
    rintro stack ⟨⟩
    exact inLimit

theorem callsInLimit_step (inLimit : machine.stack.CallsInLimit) :
    (machine.step rules late).CallsInLimit := by
  obtain ⟨_, step⟩ | ⟨_, _, _, step⟩ | ⟨_, _, step⟩ := step_cases rules late machine
  · rw [step]
    exact callsInLimit_leave inLimit
  · rw [step]
    rintro stack ⟨⟩
    exact inLimit
  · rw [step]
    exact (executes rules late machine).callsInLimit inLimit

/-- A call of a function that is defined fails for the depth of the stack and for nothing else. -/
theorem step_call_fails_iff {offset : Nat} {next body : Block} (runs : machine.Runs rules)
    (here : machine.stack.inner.rest = .call offset next)
    (bound : machine.store.functions.get? machine.store.value = some body) :
    machine.step rules late = .halted machine.store (.failed .depthLimit machine.stack) ↔
      depthLimit ≤ machine.stack.depth := by
  rw [step_of_execute runs.inside runs.free]
  by_cases room : machine.stack.depth < depthLimit
  · rw [(Executes.calls here bound room).execute_eq]
    constructor
    · intro failed
      cases late with
      | false => cases failed
      | true => cases (Progress.halted.inj failed).2
    · intro full
      omega
  · rw [(Executes.callsTooDeep here bound room).execute_eq]
    exact iff_of_true rfl (Nat.le_of_not_lt room)

end Machine

namespace Attains

variable {mode : CellMode} {block : Block} {input : Text} {tape : Tape} {progress : Progress}

theorem callsInLimit (attained : Attains mode block input tape progress) : progress.CallsInLimit := by
  induction attained with
  | launch =>
    rintro stack ⟨⟩
    exact Stack.callsInLimit_top block
  | @enter machine late _ ih =>
    have inLimit := ih machine.stack rfl
    unfold Machine.enter
    split
    · rintro stack ⟨⟩
      exact inLimit.unwind _
    · exact ih
  | step late _ _ ih => exact Machine.callsInLimit_step (ih _ rfl)
  | @again store paused _ ih =>
    rintro stack ⟨⟩
    exact ih paused rfl

theorem nestsWithin (attained : Attains mode block input tape progress) (whole : block.Tidy) :
    progress.store.functions.NestsWithin block.nesting := by
  refine attained.store (motive := fun store => store.functions.NestsWithin block.nesting) whole nofun ?_
  intro machine rules after _ stands stores within
  rcases stores.functions_cases with same | ⟨opens, body, closes, next, here, result⟩
  · rw [same]
    exact within
  · have part := (stands.part (Block.NestsWithin block.nesting) block.nestsWithin_nesting within
      (fun _ part => part.tail) (fun _ _ _ _ part => part.loop)).2
    rw [here] at part
    exact FunctionTable.forall_define within part.define result

theorem stack_depth_le (attained : Attains mode block input tape progress) (whole : block.Tidy)
    {stack : Stack} (active : progress.stack? = some stack) :
    stack.depth ≤ depthLimit + block.nesting := by
  have stands : stack.Stands block progress.store.functions := by
    have sound := (attained.sound whole).stands
    cases progress with
    | running machine =>
      cases active
      exact sound
    | halted store outcome => exact sound stack active
  have bound := stands.depth_add_loopDepth_le (attained.callsInLimit stack active)
    block.nestsWithin_nesting (attained.nestsWithin whole)
  omega

end Attains

/-- A state with a bounded number of levels, in which a call of a function that is defined fails
exactly if there are already as many levels as a call may find. -/
structure Progress.KeepsDepth (bound : Nat) (progress : Progress) : Prop where
  bounded : progress.depth ≤ bound
  refused : ∀ machine, progress = .running machine → ∀ offset next body,
    machine.stack.inner.rest = .call offset next →
    machine.store.functions.get? machine.store.value = some body →
    ∀ (rules : Rules) (late : Bool), machine.Runs rules →
      (machine.step rules late = .halted machine.store (.failed .depthLimit machine.stack) ↔
        depthLimit ≤ machine.stack.depth)

theorem Attains.keepsDepth {mode : CellMode} {block : Block} {input : Text} {tape : Tape}
    {progress : Progress} (attained : Attains mode block input tape progress) (whole : block.Tidy) :
    progress.KeepsDepth (depthLimit + block.nesting) where
  bounded := by
    unfold Progress.depth
    cases active : progress.stack? with
    | none => exact Nat.zero_le _
    | some stack => exact attained.stack_depth_le whole active
  refused := by
    intro machine _ offset next body here bound rules late runs
    exact Machine.step_call_fails_iff runs here bound

/-- A trace has one frame for every level that was active. -/
theorem Outcome.length_frames_of_trace? {outcome : Outcome} {trace : Trace}
    (shown : outcome.trace? = some trace) :
    ∃ stack, outcome.stack? = some stack ∧ trace.frames.length = stack.depth := by
  cases outcome with
  | finished => cases shown
  | paused stack | failed _ stack =>
    cases shown
    exact ⟨stack, rfl, by simp [Trace.ofFrames, Stack.frames]⟩
  | overran stack =>
    cases shown
    exact ⟨stack, rfl, by simp [Trace.ofFrames, Stack.framesAbove, stack.depth_eq]⟩

theorem Attains.length_frames_le {mode : CellMode} {block : Block} {input : Text} {tape : Tape}
    {store : Store} {outcome : Outcome} (attained : Attains mode block input tape (.halted store outcome))
    (whole : block.Tidy) {trace : Trace} (shown : outcome.trace? = some trace) :
    trace.frames.length ≤ depthLimit + block.nesting := by
  obtain ⟨stack, active, count⟩ := Outcome.length_frames_of_trace? shown
  rw [count]
  exact attained.stack_depth_le whole active

section Runs

variable {config : Config} {input : Text} {block : Block}

theorem length_frames_le_of_runOn {source : Text} (accepted : readScript source = .ok block)
    {tape : Tape} {fuel : Nat} {watch : Stopwatch} {result : Result}
    (ran : runOn fuel watch config source input tape = some result) :
    ∀ trace ∈ result.trace, trace.frames.length ≤ depthLimit + block.nesting := by
  obtain ⟨elapsed, store, outcome, rfl, attained⟩ := runOn_attains accepted ran
  exact fun trace shown => attained.length_frames_le (tidy_of_readScript accepted) shown

/-- The levels of a session that has paused are all active again when it is taken up. -/
theorem Session.Reached.depth_eq {chunks : List Text} {requests : List Session.Request}
    {session : Session} (accepted : readScript chunks.flatten = .ok block)
    (reached : Reached config chunks input requests session) {machine : Machine}
    (taken : session.machine = .ok machine) :
    ∃ trace, session.result.trace = some trace ∧ machine.stack.depth = trace.frames.length := by
  have continues : session.canContinue = true := by
    cases here : session.point with
    | none => simp [Session.machine, here] at taken
    | some point => rw [canContinue, here, Option.isSome_some]
  obtain ⟨elapsed, store, stack, rfl, again, _⟩ := reached.machine accepted continues
  obtain rfl := Except.ok.inj (again.symm.trans taken)
  exact ⟨_, rfl, by simp [Trace.ofFrames, Stack.frames]⟩

end Runs

/-- The stack is bounded. In every state of every run and session of a script, whatever the clock
answers, there are at most as many levels as the limit of calls and the nesting of loops in one body
of the script allow together, so that no trace has more frames. A call of a function that is defined
fails exactly if the limit is reached; the levels that a session takes up again count as before. -/
theorem active_levels_are_bounded (config : Config) (input : Text) :
    (∀ source block, readScript source = .ok block →
      (∀ tape progress, RunVisits config source input tape progress →
        progress.KeepsDepth (depthLimit + block.nesting)) ∧
      (∀ fuel watch result, run fuel watch config source input = .ok (some result) →
        ∀ trace ∈ result.trace, trace.frames.length ≤ depthLimit + block.nesting) ∧
      ∀ tape fuel watch result, runWithTape fuel watch config source input tape = .ok (some result) →
        ∀ trace ∈ result.trace, trace.frames.length ≤ depthLimit + block.nesting) ∧
    ∀ chunks block, readScript chunks.flatten = .ok block →
      (∀ progress, Session.Visits config chunks input progress →
        progress.KeepsDepth (depthLimit + block.nesting)) ∧
      ∀ requests session, Session.Reached config chunks input requests session →
        (∀ trace ∈ session.result.trace, trace.frames.length ≤ depthLimit + block.nesting) ∧
        ∀ machine, session.machine = .ok machine →
          ∃ trace, session.result.trace = some trace ∧ machine.stack.depth = trace.frames.length := by
  constructor
  · intro source block accepted
    refine ⟨?_, ?_, ?_⟩
    · intro tape progress visited
      exact (visited.attains accepted).keepsDepth (tidy_of_readScript accepted)
    · intro fuel watch result ran
      exact length_frames_le_of_runOn accepted (runOn_of_run ran).2
    · intro tape fuel watch result ran
      exact length_frames_le_of_runOn accepted (runOn_of_runWithTape ran)
  · intro chunks block accepted
    have whole := tidy_of_readScript accepted
    refine ⟨?_, ?_⟩
    · intro progress visited
      obtain ⟨read, acceptedToo, attained⟩ := visited.attains
      obtain rfl := Except.ok.inj (accepted.symm.trans acceptedToo)
      exact attained.keepsDepth whole
    · intro requests session reached
      refine ⟨?_, fun machine taken => reached.depth_eq accepted taken⟩
      obtain ⟨elapsed, store, outcome, rfl, attained⟩ := reached.attains accepted
      exact fun trace shown => attained.length_frames_le whole shown

/-- A function with a loop that calls it again, taken up inside the loop: three levels are active, and
the call that follows is not refused. -/
theorem active_levels_are_bounded_in_a_loop_taken_up :
    ∃ block session machine, readScript ['+', '(', '[', ':', ']', ')', ':'] = .ok block ∧
      block.nesting = 1 ∧
      Session.Reached ⟨.short, 1, none⟩ [['+', '(', '['], [':', ']', ')', ':']] [] [] session ∧
      session.machine = .ok machine ∧ machine.stack.depth = 3 ∧
      (∀ trace ∈ session.result.trace, trace.frames.length ≤ depthLimit + block.nesting) ∧
      (∃ trace, session.result.trace = some trace ∧ machine.stack.depth = trace.frames.length) ∧
      (Progress.running machine).KeepsDepth (depthLimit + block.nesting) ∧
      machine.step ⟨.short, .empty, true⟩ false ≠
        .halted machine.store (.failed .depthLimit machine.stack) := by
  have accepted : ∃ block, readScript ['+', '(', '[', ':', ']', ')', ':'] = .ok block ∧
      block.nesting = 1 := ⟨_, rfl, rfl⟩
  obtain ⟨block, read, nesting⟩ := accepted
  have bounded := (active_levels_are_bounded ⟨.short, 1, none⟩ []).2
    [['+', '(', '['], [':', ']', ')', ':']] block read
  have reached := @Session.Reached.start ⟨.short, 1, none⟩ [['+', '(', '['], [':', ']', ')', ':']] []
    9 (fun _ => 0) _ rfl
  have visited := @Session.Visits.serve _ _ _ _ _ _ _ .resume reached rfl (.enter never)
  have state := bounded.1 _ visited
  refine ⟨block, _, _, read, nesting, reached, rfl, rfl, (bounded.2 _ _ reached).1,
    (bounded.2 _ _ reached).2 _ rfl, state, ?_⟩
  have refused := state.refused _ rfl _ _ _ rfl rfl ⟨.short, .empty, true⟩ false ⟨rfl, nofun⟩
  exact fun failed => absurd (refused.mp failed) (by decide)

end TapeStepper
