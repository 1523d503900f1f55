import TapeStepper.Config
import TapeStepper.Script

namespace TapeStepper

/-- Runs a script once from the given tape. There is no result when the fuel
does not last. -/
def runOn (fuel : Nat) (watch : Stopwatch) (config : Config) (source input : Text) (tape : Tape) :
    Option Result :=
  match readScript source with
  | .error rejection => some (rejection.result source tape)
  | .ok block => do
    let rules := ⟨config.mode, .empty, true⟩
    let machine := Machine.launch block (.start tape input)
    let halt ← machine.run rules (isLate (config.deadline? 0) watch) fuel
    return .ofOutcome block (watch halt.steps) halt.store halt.outcome

/-- Runs a script once on a blank tape. -/
def run (fuel : Nat) (watch : Stopwatch) (config : Config) (source input : Text) :
    Except ConfigError (Option Result) := do
  config.validate
  return runOn fuel watch config source input (.blank config.tapeSize)

/-- Runs a script once from a tape that is already there. When cells are bytes
its cells are reduced to bytes first. -/
def runWithTape (fuel : Nat) (watch : Stopwatch) (config : Config) (source input : Text)
    (tape : Tape) : Except ConfigError (Option Result) := do
  config.validate
  let tape := match config.mode with
    | .short => tape
    | .byte => tape.wrapToBytes
  return runOn fuel watch config source input tape

/-- What stays the same while a script is run from breakpoint to breakpoint. -/
structure Plan where
  config : Config
  block : Block
  breakpoints : List Nat

/-- A script that is run from breakpoint to breakpoint. Everything in the latest
result is counted from the start. -/
structure Session where
  plan : Plan
  store : Store
  elapsed : Nat
  point : Option ResumePoint
  result : Result

inductive SessionError
  | terminated
  | lostPosition
  deriving DecidableEq

def SessionError.message : SessionError → String
  | terminated => "session has terminated and cannot be continued"
  | lostPosition => "the resume point is not in the script"

/-- The offset of the first operator of each chunk, where there is one. -/
def firstOffsets (base : Nat) : List Text → List Nat
  | [] => []
  | chunk :: chunks =>
    ((tokensFrom base chunk).head?.map Token.offset).toList ++
      firstOffsets (base + chunk.length) chunks

/-- Every chunk but the first starts with a breakpoint. -/
def chunkBreakpoints : List Text → List Nat
  | [] => []
  | chunk :: chunks => firstOffsets chunk.length chunks

namespace Plan

/-- The session after a run that brought the time spent to `elapsed`. -/
def settle (plan : Plan) (elapsed : Nat) (store : Store) (outcome : Outcome) : Session where
  plan := plan
  store := store
  elapsed := elapsed
  point := outcome.resumePoint?
  result := .ofOutcome plan.block elapsed store outcome

/-- Lets the machine run to the next of these breakpoints or to the end, when
`carried` has been spent before. -/
def proceed (plan : Plan) (fuel : Nat) (watch : Stopwatch) (carried : Nat)
    (breakpoints : List Nat) (machine : Machine) : Option Session :=
  let rules := ⟨plan.config.mode, .ofList breakpoints, true⟩
  let late := isLate (plan.config.deadline? carried) watch
  (machine.run rules late fuel).map fun halt =>
    plan.settle (carried + watch halt.steps) halt.store halt.outcome

end Plan

namespace Session

def canContinue (session : Session) : Bool :=
  session.point.isSome

def breakpoints (session : Session) : List Nat :=
  session.plan.breakpoints

/-- A session that is over before it has started. -/
def rejected (config : Config) (store : Store) (result : Result) : Session where
  plan := ⟨config, .done, []⟩
  store := store
  elapsed := 0
  point := none
  result := result

/-- Reads the chunks as one script: there is a machine to run, or else the
session is over. -/
def prepare (config : Config) (chunks : List Text) (input : Text) :
    Except ConfigError (Session ⊕ Plan × Machine) := do
  config.validate
  let source := chunks.flatten
  let store := Store.start (.blank config.tapeSize) input
  match readScript source with
  | .error rejection =>
    return .inl (rejected config store (rejection.result source store.tape))
  | .ok block => return .inr (⟨config, block, chunkBreakpoints chunks⟩, .launch block store)

/-- Runs the chunks as one script up to the first breakpoint. -/
def start (fuel : Nat) (watch : Stopwatch) (config : Config) (chunks : List Text) (input : Text) :
    Except ConfigError (Option Session) := do
  match ← prepare config chunks input with
  | .inl session => return some session
  | .inr (plan, machine) => return plan.proceed fuel watch 0 plan.breakpoints machine

/-- The machine at the breakpoint where the session has paused. -/
def machine (session : Session) : Except SessionError Machine :=
  match session.point with
  | none => .error .terminated
  | some point =>
    match Machine.relaunch? session.plan.block session.store point with
    | none => .error .lostPosition
    | some machine => .ok machine

/-- Runs to the next breakpoint or to the end. -/
def resume (fuel : Nat) (watch : Stopwatch) (session : Session) :
    Except SessionError (Option Session) := do
  let machine ← session.machine
  return session.plan.proceed fuel watch session.elapsed session.breakpoints machine

/-- Runs to the end past all breakpoints. -/
def complete (fuel : Nat) (watch : Stopwatch) (session : Session) :
    Except SessionError (Option Session) := do
  let machine ← session.machine
  return session.plan.proceed fuel watch session.elapsed [] machine

end Session

end TapeStepper
