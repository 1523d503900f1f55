import TapeStepper.CommandLine

namespace TapeStepper

/-- Starts a stopwatch, which can then be read at each question of a run. -/
abbrev Timer (m : Type → Type) := m (Nat → m Nat)

section Timed

variable {m : Type → Type} [Monad m]

/-- Whether the time is up, by a reading that is taken for the question. Without
a deadline none is taken. -/
@[specialize]
def isLateM (deadline : Option Nat) (read : Nat → m Nat) (question : Nat) : m Bool :=
  match deadline with
  | some deadline => do
    let now ← read question
    return isLate (some deadline) (fun _ => now) question
  | none => return false

/-- Asks the clock for the levels on the way in, up to the first at which the
time is up. -/
@[specialize]
def Machine.enterM (late : Nat → m Bool) (machine : Machine) : m Progress := do
  let first ← (List.range machine.stack.depth).findM? late
  return machine.enter fun level => first == some level

@[specialize]
def Progress.finishM (rules : Rules) (late : Nat → m Bool) :
    (fuel steps : Nat) → Progress → m (Option Halt)
  | _, steps, .halted store outcome => return some ⟨steps, store, outcome⟩
  | 0, _, .running _ => return none
  | fuel + 1, steps, .running machine => do
    let answer ← late steps
    finishM rules late fuel (steps + 1) (machine.step rules answer)

@[specialize]
def Machine.runM (rules : Rules) (late : Nat → m Bool) (fuel : Nat) (machine : Machine) :
    m (Option Halt) := do
  let entered ← machine.enterM late
  entered.finishM rules late fuel machine.stack.depth

@[specialize]
def Plan.proceedM (plan : Plan) (fuel : Nat) (timer : Timer m) (carried : Nat)
    (breakpoints : List Nat) (machine : Machine) : m (Option Session) := do
  let read ← timer
  let rules := ⟨plan.config.mode, .ofList breakpoints, true⟩
  match ← machine.runM rules (isLateM (plan.config.deadline? carried) read) fuel with
  | none => return none
  | some halt =>
    let spent ← read halt.steps
    return some (plan.settle (carried + spent) halt.store halt.outcome)

namespace Session

@[specialize]
def startM (fuel : Nat) (timer : Timer m) (config : Config) (chunks : List Text) (input : Text) :
    m (Except ConfigError (Option Session)) :=
  match prepare config chunks input with
  | .error error => return .error error
  | .ok (.inl session) => return .ok (some session)
  | .ok (.inr (plan, machine)) => do
    let session ← plan.proceedM fuel timer 0 plan.breakpoints machine
    return .ok session

@[specialize]
def resumeM (fuel : Nat) (timer : Timer m) (session : Session) :
    m (Except SessionError (Option Session)) :=
  match session.machine with
  | .error error => return .error error
  | .ok machine => do
    let next ← session.plan.proceedM fuel timer session.elapsed session.breakpoints machine
    return .ok next

/-- Tells how a session stands each time it pauses, before it is resumed. What
comes out is the exit status. -/
@[specialize]
def reportM (fuel : Nat) (timer : Timer m) (showTime : Nat → Text)
    (tell : Text → List String → m Unit) : (pauses printed : Nat) → Session → m (Option Nat)
  | pauses, printed, session => do
    tell (session.result.output.drop printed) (session.result.summary showTime)
    if session.canContinue then
      match pauses with
      | 0 => return none
      | pauses + 1 =>
        match ← session.resumeM fuel timer with
        | .error error =>
          tell [] ["Error: " ++ error.message]
          return some 1
        | .ok none => return none
        | .ok (some next) =>
          next.reportM fuel timer showTime tell pauses session.result.output.length
    else return some (if session.result.exitCode.isSuccess then 0 else 1)

end Session

/-- Tells a report; what comes out is the exit status. -/
@[specialize]
def Report.tellM (tell : Text → List String → m Unit) (report : Report) :
    m (Option (Nat ⊕ Session × Text)) := do
  tell report.output report.messages
  return some (.inl report.status)

/-- Carries out a request and tells what there is to tell as it goes. What comes
out is the exit status, or a session of a script to be debugged. -/
@[specialize]
def Request.carryOutM (fuel : Nat) (timer : Timer m) (showTime : Nat → Text)
    (tell : Text → List String → m Unit) (request : Request) (source : Text) :
    m (Option (Nat ⊕ Session × Text)) :=
  if request.emitC then (request.emit source).tellM tell
  else do
    match ← Session.startM fuel timer request.config (splitAtLines source request.breakLines)
      request.input with
    | .error error => (Report.failed error.message).tellM tell
    | .ok none => return none
    | .ok (some session) =>
      if request.headless then
        let status ← session.reportM fuel timer showTime tell fuel 0
        return status.map .inl
      else return some (.inr (session, source))

@[specialize]
def carryOutWordsM (fuel : Nat) (timer : Timer m) (showTime : Nat → Text)
    (tell : Text → List String → m Unit) (read : String → m (Except ReadError String))
    (words : List String) : m (Option (Nat ⊕ Session × Text)) :=
  match Request.ofWords? words with
  | none => Report.misused.tellM tell
  | some request => do
    match ← read request.file with
    | .error error => (Report.unreadable request.file error).tellM tell
    | .ok source => request.carryOutM fuel timer showTime tell source.toList

end Timed

end TapeStepper
