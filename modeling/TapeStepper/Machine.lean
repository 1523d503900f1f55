import TapeStepper.Breakpoints
import TapeStepper.Store
import TapeStepper.Stack

namespace TapeStepper

/-- What a run obeys besides its script. A run pauses before an operator whose
offset is among `breakpoints`; with `shortcut` a loop `[-]` is done at once. -/
structure Rules where
  mode : CellMode
  breakpoints : Breakpoints
  shortcut : Bool

/-- A script in the middle of its run. An unarmed machine does not pause at the
operator it stands at. -/
structure Machine where
  store : Store
  stack : Stack
  armed : Bool

/-- How a run ended. -/
inductive Outcome
  | finished
  | paused (stack : Stack)
  | failed (fault : Fault) (stack : Stack)
  | overran (stack : Stack)

inductive Progress
  | running (machine : Machine)
  | halted (store : Store) (outcome : Outcome)

namespace Rules

def pausesAt (rules : Rules) (offset : Nat) : Bool :=
  rules.breakpoints.has offset

/-- Whether a loop with this body only counts the cell down and nothing can
happen inside it, so that it need not be entered. -/
def skips (rules : Rules) (body : Block) (closes : Nat) : Bool :=
  match body with
  | .act minus .minus .done =>
    rules.shortcut && !rules.pausesAt minus && !rules.pausesAt closes
  | _ => false

end Rules

namespace Machine

def fail (machine : Machine) (fault : Fault) : Progress :=
  .halted machine.store (.failed fault machine.stack)

/-- Goes on with the next statement. -/
def proceed (machine : Machine) (store : Store) : Progress :=
  .running ⟨store, machine.stack.modify Level.advance, true⟩

/-- Goes on with a stack that has just come to the start of a body, unless the
time is up. -/
def arrive (late : Bool) (store : Store) (stack : Stack) : Progress :=
  if late then .halted store (.overran stack) else .running ⟨store, stack, true⟩

def leave (machine : Machine) (store : Store) (armed : Bool) : Progress :=
  match machine.stack.leave? with
  | some stack => .running ⟨store, stack, armed⟩
  | none => .halted store .finished

/-- Runs the operator that the innermost level has come to. When no statement is
left, that is the `]` of a loop. -/
def execute (rules : Rules) (late : Bool) (machine : Machine) : Progress :=
  let store := machine.store
  match machine.stack.inner.rest with
  | .act _ action _ =>
    match store.perform rules.mode action with
    | .ok store => machine.proceed (store.count 1)
    | .error fault => machine.fail fault
  | .loop _ body closes _ =>
    if store.value = 0 then machine.proceed (store.count 1)
    else if rules.skips body closes then
      machine.proceed ((store.withTape (store.tape.set 0)).count (2 * store.value + 1))
    else arrive late (store.count 1) (machine.stack.push (.enter body (.loop closes)))
  | .define _ body _ _ =>
    match store.functions.define store.value body with
    | .ok functions => machine.proceed { store with functions }
    | .error fault => machine.fail fault
  | .call _ _ =>
    match store.functions.get? store.value with
    | none => machine.fail (.undefinedFunction store.value)
    | some body =>
      if machine.stack.depth < depthLimit then
        arrive late (store.count 1) (machine.stack.push (.enter body (.call store.value)))
      else machine.fail .depthLimit
  | .done =>
    if store.value = 0 then machine.leave (store.count 1) true
    else arrive late (store.count 1) (machine.stack.modify Level.restart)

/-- One step: leaves a body that is done, pauses, or runs one operator. `late`
is the clock's answer, asked for when a body is entered or repeated. -/
def step (rules : Rules) (late : Bool) (machine : Machine) : Progress :=
  if machine.stack.inner.isOver then machine.leave machine.store machine.armed
  else if machine.armed && rules.pausesAt machine.stack.inner.offset then
    .halted machine.store (.paused machine.stack)
  else machine.execute rules late

/-- A machine at the start of the script. -/
def launch (block : Block) (store : Store) : Machine :=
  ⟨store, .top block, true⟩

/-- A machine at the point where an earlier run has paused. -/
def relaunch? (block : Block) (store : Store) (point : ResumePoint) : Option Machine :=
  (point.stack? block store.functions).map fun stack => ⟨store, stack, false⟩

/-- Asks the clock once for every level on the way in, outermost first. -/
def enter (late : Nat → Bool) (machine : Machine) : Progress :=
  match (List.range machine.stack.depth).find? late with
  | some entered =>
    .halted machine.store (.overran (machine.stack.unwind (machine.stack.depth - 1 - entered)))
  | none => .running machine

end Machine

/-- A run that came to its end after `steps` questions to the clock. -/
structure Halt where
  steps : Nat
  store : Store
  outcome : Outcome

/-- Steps on until the run ends, at most `fuel` times. -/
def Progress.finish (rules : Rules) (late : Nat → Bool) :
    (fuel steps : Nat) → Progress → Option Halt
  | _, steps, .halted store outcome => some ⟨steps, store, outcome⟩
  | 0, _, .running _ => none
  | fuel + 1, steps, .running machine =>
    finish rules late fuel (steps + 1) (machine.step rules (late steps))

/-- A run that ends is not changed by more fuel. -/
theorem Progress.finish_mono {rules : Rules} {late : Nat → Bool} {fuel more steps : Nat}
    {progress : Progress} {halt : Halt} (bound : fuel ≤ more)
    (run : progress.finish rules late fuel steps = some halt) :
    progress.finish rules late more steps = some halt := by
  induction fuel generalizing more steps progress with
  | zero =>
    cases progress with
    | halted store outcome => simpa only [finish] using run
    | running machine => simp [finish] at run
  | succ fuel ih =>
    cases progress with
    | halted store outcome => simpa only [finish] using run
    | running machine =>
      obtain ⟨rest, rfl⟩ : ∃ rest, more = rest + 1 := ⟨more - 1, by omega⟩
      rw [finish] at run ⊢
      exact ih (by omega) run

/-- Runs the machine to its end. `late` answers the clock's questions in order. -/
def Machine.run (rules : Rules) (late : Nat → Bool) (fuel : Nat) (machine : Machine) :
    Option Halt :=
  (machine.enter late).finish rules late fuel machine.stack.depth

end TapeStepper
