import TapeStepper.Timing

namespace TapeStepper

/-- A stopwatch that shows these times, whenever it is started. -/
def steadyTimer {m : Type → Type} [Monad m] (watch : Stopwatch) : Timer m :=
  pure fun question => pure (watch question)

/-- All that has been written, and all the messages. -/
abbrev Log := Text × List String

def note (output : Text) (messages : List String) : StateM Log Unit :=
  modify fun log => (log.1 ++ output, log.2 ++ messages)

/-- What comes out of a command once all is told. -/
def Command.ending : Command → Nat ⊕ Session × Text
  | finished report => .inl report.status
  | debug session source => .inr (session, source)

section Pure

variable {m : Type → Type} [Monad m] [LawfulMonad m]

theorem isLateM_pure (deadline : Option Nat) (watch : Stopwatch) (question : Nat) :
    isLateM deadline (fun question => (pure (watch question) : m Nat)) question =
      pure (isLate deadline watch question) := by
  cases deadline with
  | none => rfl
  | some deadline => simp [isLateM, isLate]

theorem Machine.enterM_pure (late : Nat → Bool) (machine : Machine) :
    machine.enterM (fun question => (pure (late question) : m Bool)) = pure (machine.enter late) := by
  have again : (List.range machine.stack.depth).find?
      (fun level => (List.range machine.stack.depth).find? late == some level) =
      (List.range machine.stack.depth).find? late := by
    cases first : (List.range machine.stack.depth).find? late with
    | none => simp
    | some level =>
      have listed := List.mem_of_find?_eq_some first
      rw [List.find?_range_eq_some]
      refine ⟨by simp, listed, fun other before => ?_⟩
      simp [Nat.ne_of_gt before]
  rw [enterM, List.findM?_pure, pure_bind, enter, enter, again]

theorem Progress.finishM_pure (rules : Rules) (late : Nat → Bool) (fuel steps : Nat)
    (progress : Progress) :
    progress.finishM rules (fun question => (pure (late question) : m Bool)) fuel steps =
      pure (progress.finish rules late fuel steps) := by
  induction fuel generalizing steps progress with
  | zero =>
    cases progress with
    | halted store outcome => simp [finishM, finish]
    | running machine => simp [finishM, finish]
  | succ fuel ih =>
    cases progress with
    | halted store outcome => simp [finishM, finish]
    | running machine => rw [finishM, pure_bind, ih, finish]

theorem Machine.runM_pure (rules : Rules) (late : Nat → Bool) (fuel : Nat) (machine : Machine) :
    machine.runM rules (fun question => (pure (late question) : m Bool)) fuel =
      pure (machine.run rules late fuel) := by
  rw [runM, enterM_pure, pure_bind, Progress.finishM_pure, run]

theorem Plan.proceedM_pure (plan : Plan) (fuel : Nat) (watch : Stopwatch) (carried : Nat)
    (breakpoints : List Nat) (machine : Machine) :
    plan.proceedM fuel (steadyTimer watch : Timer m) carried breakpoints machine =
      pure (plan.proceed fuel watch carried breakpoints machine) := by
  have late : isLateM (plan.config.deadline? carried) (fun question => (pure (watch question) : m Nat)) =
      fun question => pure (isLate (plan.config.deadline? carried) watch question) :=
    funext fun question => isLateM_pure _ watch question
  rw [proceedM, steadyTimer, pure_bind, late]
  dsimp only
  rw [Machine.runM_pure, pure_bind, proceed]
  cases machine.run _ _ fuel with
  | none => rfl
  | some halt =>
    dsimp only
    rw [pure_bind]
    rfl

namespace Session

theorem startM_pure (fuel : Nat) (watch : Stopwatch) (config : Config) (chunks : List Text)
    (input : Text) : startM fuel (steadyTimer watch : Timer m) config chunks input =
      pure (start fuel watch config chunks input) := by
  unfold startM start
  cases prepare config chunks input with
  | error error => rfl
  | ok prepared =>
    cases prepared with
    | inl session => rfl
    | inr prepared =>
      dsimp only
      rw [Plan.proceedM_pure, pure_bind]
      rfl

theorem resumeM_pure (fuel : Nat) (watch : Stopwatch) (session : Session) :
    session.resumeM fuel (steadyTimer watch : Timer m) = pure (session.resume fuel watch) := by
  unfold resumeM resume
  cases session.machine with
  | error error => rfl
  | ok machine =>
    dsimp only
    rw [Plan.proceedM_pure, pure_bind]
    rfl

end Session

end Pure

/-- The action comes to the status of the report, and has told all that is in it. Without a report it
comes to nothing. -/
def Tells (action : StateM Log (Option Nat)) (report? : Option Report) : Prop :=
  ∀ log, (action.run log).1 = report?.map Report.status ∧
    ∀ report, report? = some report →
      (action.run log).2 = (log.1 ++ report.output, log.2 ++ report.messages)

theorem tells_none {action : StateM Log (Option Nat)} (nothing : ∀ log, (action.run log).1 = none) :
    Tells action none := by
  intro log
  refine ⟨nothing log, ?_⟩
  rintro report ⟨⟩

theorem Tells.after {action : StateM Log (Option Nat)} {report? : Option Report}
    (tells : Tells action report?) (output : Text) (messages : List String) :
    Tells (do note output messages; action) (report?.map fun later =>
      { later with output := output ++ later.output, messages := messages ++ later.messages }) := by
  intro log
  obtain ⟨status, told⟩ := tells (log.1 ++ output, log.2 ++ messages)
  refine ⟨status.trans ?_, ?_⟩
  · rw [Option.map_map]
    rfl
  · intro report found
    obtain ⟨later, foundLater, rfl⟩ := Option.map_eq_some_iff.mp found
    refine (told later foundLater).trans ?_
    simp only [List.append_assoc]

theorem tells_pure (status : Nat) : Tells (pure (some status)) (some ⟨status, [], []⟩) := by
  intro log
  refine ⟨rfl, ?_⟩
  rintro report ⟨⟩
  simp only [List.append_nil]
  rfl

/-- A session that is reported as it goes comes to its report. The induction is on the pauses that are
left. -/
theorem Session.tells_reportM (fuel : Nat) (watch : Stopwatch) (showTime : Nat → Text)
    (pauses printed : Nat) (session : Session) :
    Tells (session.reportM fuel (steadyTimer watch) showTime note pauses printed)
      (session.report fuel watch showTime pauses printed) := by
  induction pauses generalizing printed session with
  | zero =>
    unfold reportM report
    cases session.canContinue with
    | true => exact tells_none fun _ => rfl
    | false => simpa using (tells_pure _).after _ _
  | succ pauses ih =>
    unfold reportM report
    cases session.canContinue with
    | false => simpa using (tells_pure _).after _ _
    | true =>
      rw [resumeM_pure]
      simp only [if_true, pure_bind]
      cases session.resume fuel watch with
      | error error => simpa using ((tells_pure 1).after [] ["Error: " ++ error.message]).after _ _
      | ok next? =>
        cases next? with
        | none => exact tells_none fun _ => rfl
        | some next =>
          have onward := (ih session.result.output.length next).after
            (session.result.output.drop printed) (session.result.summary showTime)
          rw [Option.map_eq_bind] at onward
          exact onward

/-- The action comes to what the command comes to, and if that is a report, all of it is told. -/
def Performs (action : StateM Log (Option (Nat ⊕ Session × Text))) (command? : Option Command) : Prop :=
  ∀ log, (action.run log).1 = command?.map Command.ending ∧
    ∀ report, command? = some (.finished report) →
      (action.run log).2 = (log.1 ++ report.output, log.2 ++ report.messages)

theorem performs_of_silent {action : StateM Log (Option (Nat ⊕ Session × Text))}
    {command? : Option Command} (ending : ∀ log, (action.run log).1 = command?.map Command.ending)
    (silent : ∀ report, command? ≠ some (.finished report)) : Performs action command? :=
  fun log => ⟨ending log, fun report found => absurd found (silent report)⟩

theorem Report.performs_tellM (report : Report) : Performs (report.tellM note) (some (.finished report)) := by
  intro log
  refine ⟨rfl, ?_⟩
  rintro other ⟨⟩
  rfl

theorem Tells.performs {action : StateM Log (Option Nat)} {report? : Option Report}
    (tells : Tells action report?) :
    Performs (do let status ← action; return status.map .inl) (report?.map .finished) := by
  intro log
  obtain ⟨status, told⟩ := tells log
  refine ⟨(congrArg (Option.map Sum.inl) status).trans ?_, ?_⟩
  · cases report? <;> rfl
  · intro report found
    obtain ⟨other, foundOther, ⟨⟩⟩ := Option.map_eq_some_iff.mp found
    exact told report foundOther

theorem Request.performs_carryOutM (fuel : Nat) (watch : Stopwatch) (showTime : Nat → Text)
    (request : Request) (source : Text) :
    Performs (request.carryOutM fuel (steadyTimer watch) showTime note source)
      (request.carryOut fuel watch showTime source) := by
  unfold carryOutM carryOut
  cases request.emitC with
  | true => exact (request.emit source).performs_tellM
  | false =>
    rw [Session.startM_pure]
    simp only [Bool.false_eq_true, if_false, pure_bind]
    cases Session.start fuel watch request.config (splitAtLines source request.breakLines)
        request.input with
    | error error => exact (Report.failed error.message).performs_tellM
    | ok session? =>
      cases session? with
      | none => exact performs_of_silent (fun _ => rfl) (by simp)
      | some session =>
        cases request.headless with
        | true => exact (session.tells_reportM fuel watch showTime fuel 0).performs
        | false => exact performs_of_silent (fun _ => rfl) (by simp)

/-- The command line that runs, asked about with a clock that shows the times of `watch` in every run:
it comes to what is said of it, and tells the whole report. -/
theorem performs_carryOutWordsM (fuel : Nat) (watch : Stopwatch) (showTime : Nat → Text)
    (read : String → Except ReadError String) (words : List String) :
    Performs (carryOutWordsM fuel (steadyTimer watch) showTime note (fun file => pure (read file)) words)
      (carryOutWords fuel watch showTime read words) := by
  unfold carryOutWordsM carryOutWords
  cases Request.ofWords? words with
  | none => exact Report.misused.performs_tellM
  | some request =>
    simp only [pure_bind]
    cases read request.file with
    | error error => exact (Report.unreadable request.file error).performs_tellM
    | ok source => exact request.performs_carryOutM fuel watch showTime source.toList

end TapeStepper
