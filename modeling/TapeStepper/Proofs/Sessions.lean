import TapeStepper.Proofs.Nesting
import TapeStepper.Proofs.Runs

namespace TapeStepper

/-- What can be asked of a session. -/
inductive Session.Request
  | resume | complete
  deriving DecidableEq

namespace Session.Request

/-- The breakpoints that are left when the request is served. -/
def breakpoints (plan : Plan) : Session.Request → List Nat
  | resume => plan.breakpoints
  | complete => []

end Session.Request

def Session.serve (request : Session.Request) (fuel : Nat) (watch : Stopwatch) (session : Session) :
    Except SessionError (Option Session) :=
  match request with
  | .resume => session.resume fuel watch
  | .complete => session.complete fuel watch

/-- One call of a session, with the fuel and the clock of its run. -/
structure Session.Call where
  request : Session.Request
  fuel : Nat
  watch : Stopwatch

/-- What is answered to calls one after the other. A call that is refused leaves the session as it
is; after a run that the fuel was too short for there are no more answers. -/
def Session.answers (session : Session) : List Session.Call → List (Except SessionError Result)
  | [] => []
  | call :: calls =>
    match session.serve call.request call.fuel call.watch with
    | .error error => .error error :: session.answers calls
    | .ok none => []
    | .ok (some next) => .ok next.result :: next.answers calls

/-- All that a caller sees of a session: the result of its start, and the answers to its calls. -/
def transcript (fuel : Nat) (watch : Stopwatch) (config : Config) (chunks : List Text) (input : Text)
    (calls : List Session.Call) : Except ConfigError (List (Except SessionError Result)) :=
  match Session.start fuel watch config chunks input with
  | .error error => .error error
  | .ok none => .ok []
  | .ok (some session) => .ok (.ok session.result :: session.answers calls)

/-- The sessions that the chunks lead to, each with the requests that were served,
latest first. Fuel and clock are free at every call. -/
inductive Session.Reached (config : Config) (chunks : List Text) (input : Text) :
    List Session.Request → Session → Prop
  | start {fuel watch session} : Session.start fuel watch config chunks input = .ok (some session) →
      Reached config chunks input [] session
  | serve {requests request fuel watch before after} : Reached config chunks input requests before →
      before.serve request fuel watch = .ok (some after) →
      Reached config chunks input (request :: requests) after

/-- The start of the plain run of a script on a blank tape. -/
def Plan.origin (plan : Plan) (input : Text) : Progress :=
  .running (.launch plan.block (.start (.blank plan.config.tapeSize) input))

/-- The plain run of the plan's script on a blank tape after some steps. -/
def Plan.plainRun (plan : Plan) (input : Text) (count : Nat) : Progress :=
  TapeStepper.plainRun plan.config.mode plan.block input (.blank plan.config.tapeSize) count

/-- The session has stopped where the plain run stands after `place` steps. -/
inductive Session.StandsAt (plan : Plan) (input : Text) (place : Nat) : Session → Prop
  | intro {elapsed store outcome} : plan.plainRun input place = outcome.progress store →
      (∀ stack, outcome = .paused stack → stack.inner.isOver = false) →
      StandsAt plan input place (plan.settle elapsed store outcome)

/-- The plan that a script in chunks is run by, once it has been read. -/
def chunkPlan (config : Config) (chunks : List Text) (block : Block) : Plan :=
  ⟨config, block, chunkBreakpoints chunks⟩

namespace Plan

variable {plan : Plan} {input : Text}

/-- The rules a request is served by. -/
def rules (plan : Plan) (offsets : List Nat) : Rules :=
  ⟨plan.config.mode, .ofList offsets, true⟩

theorem proceed_eq (plan : Plan) (fuel : Nat) (watch : Stopwatch) (carried : Nat) (offsets : List Nat)
    (machine : Machine) : plan.proceed fuel watch carried offsets machine =
      (machine.run (plan.rules offsets) (isLate (plan.config.deadline? carried) watch) fuel).map
        fun halt => plan.settle (carried + watch halt.steps) halt.store halt.outcome := rfl

theorem proceed_eq_some_iff (unbounded : plan.config.budget = none) {fuel carried : Nat}
    {watch : Stopwatch} {offsets : List Nat} {machine : Machine} {session : Session} :
    plan.proceed fuel watch carried offsets machine = some session ↔
      ∃ total store outcome, machine.run (plan.rules offsets) never fuel = some ⟨total, store, outcome⟩ ∧
        plan.settle (carried + watch total) store outcome = session := by
  simp only [proceed_eq, isLate_of_unbounded unbounded, Option.map_eq_some_iff]
  constructor
  · rintro ⟨⟨total, store, outcome⟩, run, settled⟩
    exact ⟨total, store, outcome, run, settled⟩
  · rintro ⟨total, store, outcome, run, settled⟩
    exact ⟨_, run, settled⟩

/-- Without a budget a session goes as far as the machine does. -/
theorem exists_proceed (unbounded : plan.config.budget = none) {fuel : Nat} {offsets : List Nat}
    {machine : Machine} {store : Store} {outcome : Outcome} (carried : Nat) (watch : Stopwatch)
    (halts : (Progress.running machine).after (plan.rules offsets) fuel = .halted store outcome) :
    ∃ session, plan.proceed fuel watch carried offsets machine = some session := by
  obtain ⟨total, run⟩ := Machine.run_never_iff.mpr halts
  exact ⟨_, (proceed_eq_some_iff unbounded).mpr ⟨total, store, outcome, run, rfl⟩⟩

theorem stands_plainRun (plan : Plan) (input : Text) (count : Nat) :
    (plan.plainRun input count).Stands plan.block := by
  refine Progress.after_induction ?_ ?_ count
  · exact Stack.stands_top _ _
  · intro before stands
    cases before with
    | running machine => exact Machine.stands_step stands
    | halted store outcome => exact stands

theorem standsAt_settle {offsets : List Nat} {start stop elapsed : Nat} {store : Store}
    {outcome : Outcome}
    (found : Progress.StopsFirst (plan.rules offsets) (plan.origin input) start stop)
    (value : plan.plainRun input stop = outcome.progress store) :
    (plan.settle elapsed store outcome).StandsAt plan input stop := by
  refine .intro value ?_
  rintro stack rfl
  have stops := found.stops
  rw [show (plan.origin input).after (.plain (plan.rules offsets).mode) stop =
    .running ⟨store, stack, true⟩ from value] at stops
  exact stops.1

end Plan

namespace Session

variable {plan : Plan} {input : Text} {place : Nat} {session : Session}

theorem serve_eq (request : Session.Request) (fuel : Nat) (watch : Stopwatch) (session : Session) :
    session.serve request fuel watch = session.machine.map fun machine =>
      session.plan.proceed fuel watch session.elapsed (request.breakpoints session.plan) machine := by
  cases request <;> cases found : session.machine <;>
    simp [serve, resume, complete, found, Except.map, Session.Request.breakpoints, breakpoints, bind,
      Except.bind, pure, Except.pure]

theorem StandsAt.plan_eq (stopped : session.StandsAt plan input place) : session.plan = plan := by
  cases stopped
  rfl

/-- A paused session takes the machine up as it was left, but for the pause. -/
theorem machine_settle {elapsed : Nat} {store : Store} {stack : Stack}
    (stands : stack.Stands plan.block store.functions) :
    (plan.settle elapsed store (.paused stack)).machine = .ok ⟨store, stack, false⟩ := by
  have rebuilt : Machine.relaunch? plan.block store stack.resumePoint =
      some ⟨store, stack, false⟩ := by
    rw [Machine.relaunch?, stands.rebuild]
    rfl
  simp [Session.machine, Plan.settle, Outcome.resumePoint?, rebuilt]

/-- A session that can continue takes the machine up where the plain run stands. -/
theorem StandsAt.machine (stopped : session.StandsAt plan input place)
    (continues : session.canContinue = true) :
    ∃ machine, session.machine = .ok machine ∧ plan.plainRun input place = .running machine.arm ∧
      machine.stack.inner.isOver = false ∧ machine.armed = false := by
  obtain @⟨elapsed, store, outcome, stands, inside⟩ := stopped
  cases outcome with
  | paused stack =>
    have nested := plan.stands_plainRun input place
    rw [stands] at nested
    exact ⟨⟨store, stack, false⟩, machine_settle nested, stands, inside stack rfl, rfl⟩
  | finished | failed _ _ | overran _ =>
    simp [canContinue, Plan.settle, Outcome.resumePoint?] at continues

theorem canContinue_of_serve {request : Session.Request} {fuel : Nat} {watch : Stopwatch}
    {next : Option Session} (served : session.serve request fuel watch = .ok next) :
    session.canContinue = true := by
  rw [serve_eq] at served
  cases here : session.point with
  | none =>
    rw [Session.machine, here] at served
    cases served
  | some point => rw [canContinue, here, Option.isSome_some]

/-- A session that cannot continue shows the end of the plain run. -/
theorem StandsAt.ended (stopped : session.StandsAt plan input place)
    (stopsHere : session.canContinue = false) :
    ∃ store outcome, plan.plainRun input place = .halted store outcome ∧
      session.result = .ofOutcome plan.block session.elapsed store outcome := by
  obtain @⟨elapsed, store, outcome, stands, inside⟩ := stopped
  refine ⟨store, outcome, ?_, rfl⟩
  cases outcome with
  | paused stack => simp [canContinue, Plan.settle, Outcome.resumePoint?] at stopsHere
  | finished | failed _ _ | overran _ => exact stands

/-- A run that is taken up where the session has paused comes to the next stop of the plain run. -/
theorem StandsAt.settle {machine : Machine} (stopped : session.StandsAt plan input place)
    (taken : session.machine = .ok machine) {offsets : List Nat} {fuel total : Nat} {store : Store}
    {outcome : Outcome}
    (run : machine.run (plan.rules offsets) never fuel = some ⟨total, store, outcome⟩) (elapsed : Nat) :
    ∃ stop, Progress.StopsFirst (plan.rules offsets) (plan.origin input) (place + 1) stop ∧
      (plan.settle elapsed store outcome).StandsAt plan input stop := by
  have continues : session.canContinue = true := by
    cases here : session.point with
    | none => simp [Session.machine, here] at taken
    | some point => rw [canContinue, here, Option.isSome_some]
  obtain ⟨begun, same, stands, inside, unarmed⟩ := stopped.machine continues
  obtain rfl : begun = machine := Except.ok.inj (same.symm.trans taken)
  have halts := Machine.run_never_iff.mp ⟨total, run⟩
  obtain ⟨stop, first, value⟩ := Progress.stop_of_halts_resumed
    (plan.rules offsets) (plan.origin input) stands inside unarmed halts
  exact ⟨stop, first, Plan.standsAt_settle first value⟩

/-- A request takes the session to the next stop of the plain run. -/
theorem StandsAt.serve {request : Session.Request} {fuel : Nat} {watch : Stopwatch} {next : Session}
    (unbounded : plan.config.budget = none) (stopped : session.StandsAt plan input place)
    (served : session.serve request fuel watch = .ok (some next)) :
    ∃ stop, Progress.StopsFirst (plan.rules (request.breakpoints plan)) (plan.origin input)
      (place + 1) stop ∧ next.StandsAt plan input stop := by
  obtain ⟨machine, taken, _⟩ := stopped.machine (canContinue_of_serve served)
  rw [serve_eq, stopped.plan_eq, taken] at served
  obtain ⟨total, store, outcome, run, rfl⟩ :=
    (Plan.proceed_eq_some_iff unbounded).mp (Except.ok.inj served)
  exact stopped.settle taken run _

theorem StandsAt.exists_serve (request : Session.Request) {stop : Nat}
    (unbounded : plan.config.budget = none) (stopped : session.StandsAt plan input place)
    (continues : session.canContinue = true)
    (first : Progress.StopsFirst (plan.rules (request.breakpoints plan)) (plan.origin input)
      (place + 1) stop) (watch : Stopwatch) :
    ∃ fuel next, session.serve request fuel watch = .ok (some next) := by
  obtain ⟨machine, same, stands, inside, unarmed⟩ := stopped.machine continues
  obtain ⟨fuel, store, outcome, halts, value⟩ :=
    Progress.halts_of_stop_resumed first stands inside unarmed
  obtain ⟨next, proceeds⟩ := Plan.exists_proceed unbounded session.elapsed watch halts
  refine ⟨fuel, next, ?_⟩
  rw [serve_eq, same, stopped.plan_eq]
  exact congrArg Except.ok proceeds

end Session

section Start

variable {config : Config} {chunks : List Text} {input : Text}

theorem start_of_invalid {error : ConfigError} (invalid : config.validate = .error error) (fuel : Nat)
    (watch : Stopwatch) : Session.start fuel watch config chunks input = .error error := by
  simp [Session.start, Session.prepare, invalid, bind, Except.bind]

theorem Session.Reached.valid {requests : List Session.Request} {session : Session}
    (reached : Reached config chunks input requests session) : config.validate = .ok () := by
  induction reached with
  | start started =>
    cases valid : config.validate with
    | ok _ => rfl
    | error error =>
      rw [start_of_invalid valid] at started
      cases started
  | serve _ _ ih => exact ih

theorem start_of_rejected {rejection : Rejection} (valid : config.validate = .ok ())
    (refused : readScript chunks.flatten = .error rejection) (fuel : Nat) (watch : Stopwatch) :
    Session.start fuel watch config chunks input = .ok (some (Session.rejected config
      (.start (.blank config.tapeSize) input)
      (rejection.result chunks.flatten (.blank config.tapeSize)))) := by
  simp [Session.start, Session.prepare, valid, refused, bind, Except.bind, pure, Except.pure,
    Store.start]

end Start

section Accepted

variable {config : Config} {chunks : List Text} {input : Text} {block : Block}

theorem prepare_of_accepted (valid : config.validate = .ok ())
    (accepted : readScript chunks.flatten = .ok block) :
    Session.prepare config chunks input = .ok (.inr (chunkPlan config chunks block,
      .launch block (.start (.blank config.tapeSize) input))) := by
  simp [Session.prepare, valid, accepted, bind, Except.bind, pure, Except.pure, chunkPlan]

theorem start_of_accepted (valid : config.validate = .ok ())
    (accepted : readScript chunks.flatten = .ok block) (fuel : Nat) (watch : Stopwatch) :
    Session.start fuel watch config chunks input =
      .ok ((chunkPlan config chunks block).proceed fuel watch 0 (chunkBreakpoints chunks)
        (.launch block (.start (.blank config.tapeSize) input))) := by
  simp [Session.start, prepare_of_accepted valid accepted, bind, Except.bind, pure, Except.pure,
    chunkPlan]

/-- A run from the start of the script comes to the first stop of the plain run. -/
theorem launch_standsAt {plan : Plan} {offsets : List Nat} {fuel total : Nat} {store : Store}
    {outcome : Outcome}
    (run : Machine.run (plan.rules offsets) never fuel
      (.launch plan.block (.start (.blank plan.config.tapeSize) input)) = some ⟨total, store, outcome⟩)
    (elapsed : Nat) :
    ∃ stop, Progress.StopsFirst (plan.rules offsets) (plan.origin input) 0 stop ∧
      (plan.settle elapsed store outcome).StandsAt plan input stop := by
  have halts := Machine.run_never_iff.mp ⟨total, run⟩
  obtain ⟨stop, first, value⟩ := Progress.stop_of_halts (plan.rules offsets) (plan.origin input)
    Progress.after_zero rfl halts
  exact ⟨stop, first, Plan.standsAt_settle first value⟩

theorem start_standsAt (size : 0 < config.tapeSize) (unbounded : config.budget = none)
    (accepted : readScript chunks.flatten = .ok block) {fuel : Nat} {watch : Stopwatch}
    {session : Session} (started : Session.start fuel watch config chunks input = .ok (some session)) :
    ∃ stop, Progress.StopsFirst ((chunkPlan config chunks block).rules (chunkBreakpoints chunks))
        ((chunkPlan config chunks block).origin input) 0 stop ∧
      session.StandsAt (chunkPlan config chunks block) input stop := by
  rw [start_of_accepted (Config.validate_eq_ok size unbounded) accepted] at started
  obtain ⟨total, store, outcome, run, rfl⟩ :=
    (Plan.proceed_eq_some_iff unbounded).mp (Except.ok.inj started)
  exact launch_standsAt run _

theorem exists_start (size : 0 < config.tapeSize) (unbounded : config.budget = none)
    (accepted : readScript chunks.flatten = .ok block) {stop : Nat}
    (first : Progress.StopsFirst ((chunkPlan config chunks block).rules (chunkBreakpoints chunks))
      ((chunkPlan config chunks block).origin input) 0 stop) (watch : Stopwatch) :
    ∃ fuel session, Session.start fuel watch config chunks input = .ok (some session) := by
  obtain ⟨store, outcome, halts, value⟩ := Progress.halts_of_stop first rfl rfl
  obtain ⟨session, proceeds⟩ := Plan.exists_proceed unbounded 0 watch halts
  refine ⟨stop + 1, session, ?_⟩
  rw [start_of_accepted (Config.validate_eq_ok size unbounded) accepted]
  exact congrArg Except.ok proceeds

end Accepted

end TapeStepper
