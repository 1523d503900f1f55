import TapeStepper.Proofs.Reentry

namespace TapeStepper

/-- The offset in a frame is that of the last operator that was reached. -/
def Checked.Frame.Faithful (frame : Checked.Frame) : Prop :=
  frame.last? = frame.reached.getLast?.map Token.offset

theorem Checked.traceOf_eq {frames : List Checked.Frame}
    (faithful : ∀ frame ∈ frames, Checked.Frame.Faithful frame) :
    Checked.traceOf frames = .ofFrames (frames.map Checked.Frame.reached) := by
  have last : frames.findSome? Checked.Frame.last? =
      ((frames.map Checked.Frame.reached).findSome? List.getLast?).map Token.offset := by
    rw [List.findSome?_map, List.map_findSome?]
    induction frames with
    | nil => rfl
    | cons frame rest ih =>
      have first := faithful frame (List.mem_cons_self ..)
      have others := ih fun other member => faithful other (List.mem_cons_of_mem _ member)
      rw [List.findSome?_cons, List.findSome?_cons, first, others]
      rfl
  rw [Checked.traceOf, Trace.ofFrames, last, List.map_map]
  rfl

theorem Level.faithful_frame {level : Level} (inside : level.isOver = false) (key? : Option Nat) :
    (level.frame key?).Faithful := by
  obtain ⟨token, here⟩ := exists_current? inside
  rw [Checked.Frame.Faithful, frame, reached_eq, here, Option.toList_some, List.getLast?_concat,
    Option.map_some, offset_of_current? here]

theorem map_reached_outerFrames (inner : Level) (outer : List Level) :
    (outerFrames inner outer).map Checked.Frame.reached = outer.map Level.reached := by
  induction outer generalizing inner with
  | nil => rfl
  | cons around outer ih =>
    rw [outerFrames, List.map_cons, List.map_cons, ih]
    rfl

namespace Stack

variable {block : Block} {functions : FunctionTable Block} {stack : Stack}

theorem Stands.faithful_outerFrames (stands : stack.Stands block functions) :
    ∀ frame ∈ outerFrames stack.inner stack.outer, frame.Faithful := by
  induction stands with
  | top place => nofun
  | @inside around level outer opened place ih =>
    intro frame member
    rcases List.mem_cons.mp member with rfl | member
    · exact Level.faithful_frame (isOver_of_opened opened) level.key?
    · exact ih frame member

theorem Stands.traceOf_haltFrames (stands : stack.Stands block functions)
    (inside : stack.inner.isOver = false) :
    Checked.traceOf stack.haltFrames = .ofFrames stack.frames := by
  rw [Checked.traceOf_eq, haltFrames, List.map_cons, map_reached_outerFrames]
  · rfl
  · intro frame member
    rcases List.mem_cons.mp member with rfl | member
    · exact Level.faithful_frame inside none
    · exact stands.faithful_outerFrames frame member

theorem Stands.traceOf_overran (stands : stack.Stands block functions) :
    Checked.traceOf (.empty :: outerFrames stack.inner stack.outer) = .ofFrames stack.framesAbove := by
  rw [Checked.traceOf_eq, List.map_cons, map_reached_outerFrames]
  · rfl
  · intro frame member
    rcases List.mem_cons.mp member with rfl | member
    · rfl
    · exact stands.faithful_outerFrames frame member

end Stack

theorem FunctionTable.listing_spelled (functions : FunctionTable Block) :
    (functions.spelled.entries.map fun (key, body) => Checked.listing key body) =
      functions.listing := by
  simp only [spelled, listing, List.map_map]
  congr 1
  funext entry
  simp [Checked.listing, FunctionListing.ofBody, Block.head?_tokens]

/-- The result is what is known of the run, and no check fails in putting it together. -/
theorem Progress.Sound.result? {block : Block} {store : Store} {outcome : Outcome}
    (sound : (Progress.halted store outcome).Sound block) (elapsed : Nat) :
    Checked.result? block.tokens elapsed store.memory outcome.ending =
      some (.ofOutcome block elapsed store outcome) := by
  have exitCode : outcome.ending.exitCode = outcome.exitCode := by cases outcome <;> rfl
  have trace : outcome.ending.trace? = outcome.trace? := by
    cases outcome with
    | finished => rfl
    | paused stack =>
      exact congrArg some ((sound.stands stack rfl).traceOf_haltFrames (sound.inside stack rfl))
    | failed fault stack =>
      exact congrArg some ((sound.stands stack rfl).traceOf_haltFrames (sound.inside stack rfl))
    | overran stack => exact congrArg some (sound.stands stack rfl).traceOf_overran
  have breakpoint : outcome.ending.bookmark?.map Checked.Bookmark.offset =
      outcome.resumePoint?.map ResumePoint.offset := by cases outcome <;> rfl
  have functions := store.functions.listing_spelled
  have tape : store.memory.strip.tape? = some store.tape := store.tape.strip_tape?
  unfold Checked.result? Result.ofOutcome
  rw [tape, exitCode, trace, breakpoint]
  simp only [Store.memory, functions]
  rfl

/-- The operators that are run are those of the statements that were read. -/
theorem accept_eq (source : Text) : Checked.accept source = (readScript source).map Block.tokens := by
  unfold Checked.accept readScript parse
  cases hasCode source with
  | false => rfl
  | true =>
    cases sound : bracketFault? (tokens source) with
    | some offset => rfl
    | none =>
      obtain ⟨block, read⟩ := Block.exists_ofTokens?_of_bracketFault? sound
      simp only [read, if_true, Except.map, Block.tokens_ofTokens? read]

namespace Checked

/-- How far an answer can be relied on. No check has failed, what is answered has the property, and
if the numbers fit, there is an answer. -/
structure Safe {α : Type} (fits : Prop) (property : α → Prop) (answer : Except Abort α) : Prop where
  unfailing : answer ≠ .error .check
  faithful : ∀ given, answer = .ok given → property given
  complete : fits → ∃ given, answer = .ok given

namespace Safe

variable {α β : Type} {fits fewer : Prop} {property : α → Prop} {goal : β → Prop}

theorem ok {value : α} (holds : property value) : Safe fits property (.ok value) where
  unfailing := by simp
  faithful given same := Except.ok.inj same ▸ holds
  complete _ := ⟨value, rfl⟩

theorem error {abort : Abort} (other : abort ≠ .check) (unfit : ¬ fits) :
    Safe fits property (.error abort) where
  unfailing same := other (Except.error.inj same)
  faithful given same := by cases same
  complete fit := absurd fit unfit

theorem when {answer : Except Abort α} (safe : Safe fits property answer) (fitting : fewer → fits) :
    Safe fewer property answer :=
  ⟨safe.unfailing, safe.faithful, fun fit => safe.complete (fitting fit)⟩

theorem bind {answer : Except Abort α} {next : α → Except Abort β} (safe : Safe fits property answer)
    (onward : ∀ given, property given → Safe fits goal (next given)) :
    Safe fits goal (answer >>= next) := by
  cases answer with
  | ok given => exact onward given (safe.faithful given rfl)
  | error abort =>
    refine .error (fun same => safe.unfailing (congrArg _ same)) fun fit => ?_
    obtain ⟨given, same⟩ := safe.complete fit
    cases same

end Safe

theorem safe_demand {α : Type} {value? : Option α} {value : α} (found : value? = some value)
    (fits : Prop) : Safe fits (· = value) (demand value?) := by
  rw [found]
  exact .ok rfl

theorem safe_addTime (first second : Nat) :
    Safe (first + second ≤ durationLimit) (· = first + second) (addTime first second) := by
  unfold addTime
  split
  · exact .ok rfl
  · rename_i long
    exact .error (by decide) long

theorem safe_deadline (config : Config) (carried : Nat) :
    Safe (config.budget.getD 0 + carried ≤ durationLimit) (· = config.deadline? carried)
      (deadline config carried) := by
  unfold deadline Config.deadline?
  cases config.budget with
  | none => exact .ok rfl
  | some budget =>
    refine (safe_addTime budget carried).bind ?_
    rintro total rfl
    exact .ok rfl

theorem safe_blank {size : Nat} (positive : 0 < size) :
    Safe (2 * size ≤ memoryLimit) (· = (Tape.blank size).strip) (Strip.blank size) := by
  by_cases fits : 2 * size ≤ memoryLimit
  · rw [Tape.strip_blank positive fits]
    exact .ok rfl
  · rw [Strip.blank, if_neg (Nat.ne_of_gt positive), if_pos (Nat.not_le.mp fits)]
    exact .error (by decide) fits

/-- The times of runs one after the other can be counted, with what was spent before them and with the
budget, which every run has for itself. -/
def TimesFit (budget : Nat) : (carried : Nat) → List Stopwatch → Prop
  | _, [] => True
  | carried, watch :: watches =>
    budget + carried ≤ durationLimit ∧ ∃ share, (∀ question, watch question ≤ share) ∧
      carried + share ≤ durationLimit ∧ TimesFit budget (carried + share) watches

namespace TimesFit

variable {budget carried less : Nat} {watch : Stopwatch} {watches : List Stopwatch}

theorem of_le (bound : less ≤ carried) (fit : TimesFit budget carried watches) :
    TimesFit budget less watches := by
  induction watches generalizing carried less with
  | nil => trivial
  | cons watch watches ih =>
    obtain ⟨now, share, short, counted, later⟩ := fit
    exact ⟨by omega, share, short, by omega, ih (by omega) later⟩

theorem behind (fit : TimesFit budget carried (watch :: watches)) {elapsed : Nat}
    (spent : ∃ question, elapsed ≤ carried + watch question) : TimesFit budget elapsed watches := by
  obtain ⟨_, share, short, _, later⟩ := fit
  obtain ⟨question, bound⟩ := spent
  have reading := short question
  exact later.of_le (by omega)

theorem now (fit : TimesFit budget carried (watch :: watches)) :
    budget + carried ≤ durationLimit ∧ ∀ question, carried + watch question ≤ durationLimit := by
  obtain ⟨now, share, short, counted, _⟩ := fit
  refine ⟨now, fun question => ?_⟩
  have reading := short question
  omega

end TimesFit

end Checked

open Checked (Safe safe_demand safe_addTime safe_deadline safe_blank TimesFit)

theorem Machine.Marked.safe_execute {block : Block} {machine : Machine} {marks : List Checked.Mark}
    (marked : machine.Marked block marks) (code : block.tokens ≠ []) (whole : block.Tidy)
    (config : Config) (breakpoints : Breakpoints) (fuel : Nat) (watch : Stopwatch) (carried : Nat)
    (watches : List Stopwatch) :
    Safe (TimesFit (config.budget.getD 0) carried (watch :: watches))
      (· = (machine.run ⟨config.mode, breakpoints, true⟩ (isLate (config.deadline? carried) watch) fuel).map
        fun halt => (halt.stop, .ofOutcome block (carried + watch halt.steps) halt.store halt.outcome))
      (Checked.execute config breakpoints fuel watch carried block.tokens machine.store.memory marks) := by
  refine ((safe_deadline config carried).when fun fit => fit.now.1).bind ?_
  rintro deadline rfl
  refine (safe_demand (marked.run? code whole _ _ _) _).bind ?_
  rintro stop rfl
  cases run : machine.run ⟨config.mode, breakpoints, true⟩ (isLate (config.deadline? carried) watch)
      fuel with
  | none => exact .ok rfl
  | some halt =>
    refine ((safe_addTime carried (watch halt.steps)).when fun fit => fit.now.2 halt.steps).bind ?_
    rintro elapsed rfl
    refine (safe_demand ((marked.sound_run whole run).result? _) _).bind ?_
    rintro result rfl
    exact .ok rfl

theorem plain_start (tape : Tape) (input : Text) : (Store.start tape input).functions.Plain :=
  nofun

theorem marked_launch (block : Block) (tape : Tape) (input : Text) :
    (Machine.launch block (.start tape input)).Marked block [] :=
  .start (plain_start tape input)

theorem safe_runOn (fuel : Nat) (watch : Stopwatch) (config : Config) (source input : Text)
    (tape : Tape) : Safe (TimesFit (config.budget.getD 0) 0 [watch])
      (· = runOn fuel watch config source input tape)
      (Checked.runOn fuel watch config source input tape.strip) := by
  unfold Checked.runOn runOn
  rw [accept_eq]
  cases accepted : readScript source with
  | error rejection =>
    refine (safe_demand tape.strip_tape? _).bind ?_
    rintro tape rfl
    exact .ok rfl
  | ok block =>
    have executed := (marked_launch block tape input).safe_execute (tokens_ne_nil_of_readScript accepted)
      (tidy_of_readScript accepted) config .empty fuel watch 0 []
    refine executed.bind ?_
    rintro report rfl
    refine .ok ?_
    dsimp only
    rw [Option.map_map, Option.map_eq_bind]
    simp only [Nat.zero_add]
    rfl

theorem safe_run (fuel : Nat) (watch : Stopwatch) (config : Config) (source input : Text) :
    Safe (2 * config.tapeSize ≤ memoryLimit ∧ TimesFit (config.budget.getD 0) 0 [watch])
      (· = run fuel watch config source input) (Checked.run fuel watch config source input) := by
  unfold Checked.run
  cases valid : config.validate with
  | error error =>
    rw [run_of_invalid valid]
    exact .ok rfl
  | ok _ =>
    rw [run_eq_runOn valid]
    refine ((safe_blank (Config.tapeSize_pos valid)).when And.left).bind ?_
    rintro strip rfl
    refine ((safe_runOn fuel watch config source input _).when And.right).bind ?_
    rintro result rfl
    exact .ok rfl

theorem safe_runWithTape (fuel : Nat) (watch : Stopwatch) (config : Config) (source input : Text)
    (tape : Tape) : Safe (TimesFit (config.budget.getD 0) 0 [watch])
      (· = runWithTape fuel watch config source input tape)
      (Checked.runWithTape fuel watch config source input tape.strip) := by
  unfold Checked.runWithTape
  cases valid : config.validate with
  | error error =>
    rw [runWithTape_of_invalid valid]
    exact .ok rfl
  | ok _ =>
    rw [runWithTape_eq_runOn valid, Tape.strip_adapt]
    refine (safe_runOn fuel watch config source input _).bind ?_
    rintro result rfl
    exact .ok rfl

def Plan.script (plan : Plan) : Checked.Script :=
  ⟨plan.config, plan.block.tokens, plan.breakpoints⟩

/-- The session after a run, as it is kept on the operators. -/
def Plan.settleChecked (plan : Plan) (elapsed : Nat) (store : Store) (outcome : Outcome) :
    Checked.Session where
  script := plan.script
  memory := store.memory
  elapsed := elapsed
  bookmark? := outcome.ending.bookmark?
  result := .ofOutcome plan.block elapsed store outcome

/-- The plan is for a script that has been read. -/
structure Plan.Ready (plan : Plan) : Prop where
  code : plan.block.tokens ≠ []
  tidy : plan.block.Tidy

/-- A session, and the same session as it is kept on the operators. -/
inductive Session.Mirrors : Session → Checked.Session → Prop
  | ended {session checked} : session.point = none → checked.bookmark? = none →
      checked.result = session.result → Mirrors session checked
  | paused {plan : Plan} {elapsed store stack} : plan.Ready →
      (Progress.halted store (.paused stack)).Sound plan.block →
      Mirrors (plan.settle elapsed store (.paused stack))
        (plan.settleChecked elapsed store (.paused stack))

/-- Both come to the same. -/
inductive Session.Matches {Error : Type} :
    Except Error (Option Session) → Except Error (Option Checked.Session) → Prop
  | refused (error : Error) : Matches (.error error) (.error error)
  | served {next checked} : Option.Rel Session.Mirrors next checked → Matches (.ok next) (.ok checked)

namespace Session

theorem Mirrors.result_eq {session : Session} {checked : Checked.Session}
    (mirrors : session.Mirrors checked) : checked.result = session.result := by
  cases mirrors with
  | ended _ _ same => exact same
  | paused _ _ => rfl

theorem mirrors_settle {plan : Plan} (ready : plan.Ready) {store : Store} {outcome : Outcome}
    (sound : (Progress.halted store outcome).Sound plan.block) (elapsed : Nat) :
    (plan.settle elapsed store outcome).Mirrors (plan.settleChecked elapsed store outcome) := by
  cases outcome with
  | paused stack => exact .paused ready sound
  | finished | failed _ _ | overran _ => exact .ended rfl rfl rfl

theorem safe_proceed {plan : Plan} (ready : plan.Ready) {machine : Machine} {marks : List Checked.Mark}
    (marked : machine.Marked plan.block marks) (fuel : Nat) (watch : Stopwatch) (carried : Nat)
    (breakpoints : List Nat) (watches : List Stopwatch) :
    Safe (TimesFit (plan.config.budget.getD 0) carried (watch :: watches))
      (Option.Rel Mirrors (plan.proceed fuel watch carried breakpoints machine))
      (plan.script.proceed fuel watch carried breakpoints machine.store.memory marks) := by
  refine (marked.safe_execute ready.code ready.tidy plan.config (.ofList breakpoints) fuel watch
    carried watches).bind ?_
  rintro report rfl
  refine .ok ?_
  rw [plan.proceed_eq, Option.map_map]
  unfold Plan.rules
  cases run : machine.run ⟨plan.config.mode, .ofList breakpoints, true⟩
      (isLate (plan.config.deadline? carried) watch) fuel with
  | none => exact .none
  | some halt => exact .some (mirrors_settle ready (marked.sound_run ready.tidy run) _)

theorem ready_of_accepted {config : Config} {chunks : List Text} {block : Block}
    (accepted : readScript chunks.flatten = .ok block) : (chunkPlan config chunks block).Ready :=
  ⟨tokens_ne_nil_of_readScript accepted, tidy_of_readScript accepted⟩

theorem safe_start (fuel : Nat) (watch : Stopwatch) (config : Config) (chunks : List Text)
    (input : Text) (watches : List Stopwatch) :
    Safe (2 * config.tapeSize ≤ memoryLimit ∧ TimesFit (config.budget.getD 0) 0 (watch :: watches))
      (Matches (Session.start fuel watch config chunks input))
      (Checked.Session.start fuel watch config chunks input) := by
  unfold Checked.Session.start
  cases valid : config.validate with
  | error error =>
    rw [start_of_invalid valid]
    exact .ok (.refused error)
  | ok _ =>
    refine ((safe_blank (Config.tapeSize_pos valid)).when And.left).bind ?_
    rintro strip rfl
    rw [accept_eq]
    cases accepted : readScript chunks.flatten with
    | error rejection =>
      rw [start_of_rejected valid accepted]
      refine (safe_demand (Tape.strip_tape? _) _).bind ?_
      rintro tape rfl
      exact .ok (.served (.some (.ended rfl rfl rfl)))
    | ok block =>
      have marked := marked_launch block (.blank config.tapeSize) input
      rw [start_of_accepted valid accepted]
      refine ((safe_proceed (ready_of_accepted accepted) marked fuel watch 0 (chunkBreakpoints chunks)
        watches).when And.right).bind ?_
      exact fun next mirrored => .ok (.served mirrored)

/-- What a session is when it has been started. -/
theorem mirrors_of_start {fuel : Nat} {watch : Stopwatch} {config : Config} {chunks : List Text}
    {input : Text} {session : Session}
    (started : Session.start fuel watch config chunks input = .ok (some session)) :
    session.plan.config = config ∧ (∃ question, session.elapsed ≤ watch question) ∧
      ∃ checked, session.Mirrors checked := by
  cases valid : config.validate with
  | error error =>
    rw [start_of_invalid valid] at started
    cases started
  | ok _ =>
    cases accepted : readScript chunks.flatten with
    | error rejection =>
      rw [start_of_rejected valid accepted] at started
      cases started
      let checked : Checked.Session := ⟨⟨config, [], []⟩, .start ⟨[], 0⟩ [], 0, none,
        rejection.result chunks.flatten (.blank config.tapeSize)⟩
      exact ⟨rfl, ⟨0, Nat.zero_le _⟩, checked, .ended rfl rfl rfl⟩
    | ok block =>
      rw [start_of_accepted valid accepted] at started
      have marked := marked_launch block (.blank config.tapeSize) input
      obtain ⟨halt, run, rfl⟩ := Option.map_eq_some_iff.mp (Except.ok.inj started)
      refine ⟨rfl, ⟨halt.steps, Nat.le_of_eq (Nat.zero_add _)⟩, _, mirrors_settle ?_ ?_ _⟩
      · exact ready_of_accepted accepted
      · exact marked.sound_run (tidy_of_readScript accepted) run

theorem Mirrors.safe_serve {session : Session} {checked : Checked.Session}
    (mirrors : session.Mirrors checked) (request : Session.Request) (fuel : Nat) (watch : Stopwatch)
    (watches : List Stopwatch) :
    Safe (TimesFit (session.plan.config.budget.getD 0) session.elapsed (watch :: watches))
      (Matches (session.serve request fuel watch)) (checked.serve request fuel watch) := by
  unfold Checked.Session.serve
  rw [serve_eq]
  cases mirrors with
  | ended noPoint noBookmark same =>
    rw [noBookmark, Session.machine, noPoint]
    exact .ok (.refused SessionError.terminated)
  | @paused plan elapsed store stack ready sound =>
    have stands : stack.Stands plan.block store.functions := sound.stands stack rfl
    have marked : Machine.Marked plan.block ⟨store, stack, false⟩ stack.marks :=
      .again stands sound.plain
    have offsets : plan.script.offsets request = request.breakpoints plan := by cases request <;> rfl
    rw [machine_settle stands]
    dsimp only [Plan.settleChecked, Outcome.ending, Checked.Ending.bookmark?]
    rw [offsets]
    refine (safe_proceed ready marked fuel watch elapsed (request.breakpoints plan) watches).bind ?_
    exact fun next mirrored => .ok (.served mirrored)

/-- A session never fails to find the place where it has paused. -/
theorem Mirrors.serve_error {session : Session} {checked : Checked.Session}
    (mirrors : session.Mirrors checked) {request : Session.Request} {fuel : Nat} {watch : Stopwatch}
    {error : SessionError} (refused : session.serve request fuel watch = .error error) :
    error = .terminated := by
  rw [serve_eq] at refused
  cases mirrors with
  | ended noPoint _ _ =>
    rw [Session.machine, noPoint] at refused
    cases refused
    rfl
  | paused _ sound =>
    rw [machine_settle (sound.stands _ rfl)] at refused
    cases refused

/-- What a run takes is added to what was spent before it. -/
theorem Mirrors.of_serve {session next : Session} {checked : Checked.Session}
    (mirrors : session.Mirrors checked) {request : Session.Request} {fuel : Nat} {watch : Stopwatch}
    (served : session.serve request fuel watch = .ok (some next)) :
    next.plan = session.plan ∧ (∃ question, next.elapsed = session.elapsed + watch question) ∧
      ∃ checked, next.Mirrors checked := by
  rw [serve_eq] at served
  cases mirrors with
  | ended noPoint _ _ =>
    rw [Session.machine, noPoint] at served
    cases served
  | @paused plan elapsed store stack ready sound =>
    have stands : stack.Stands plan.block store.functions := sound.stands stack rfl
    have marked : Machine.Marked plan.block ⟨store, stack, false⟩ stack.marks :=
      .again stands sound.plain
    rw [machine_settle stands] at served
    obtain ⟨halt, run, rfl⟩ := Option.map_eq_some_iff.mp (Except.ok.inj served)
    exact ⟨rfl, ⟨halt.steps, rfl⟩, _, mirrors_settle ready (marked.sound_run ready.tidy run) _⟩

theorem Mirrors.lostPosition_notMem {session : Session} {checked : Checked.Session}
    (mirrors : session.Mirrors checked) (calls : List Session.Call) :
    .error .lostPosition ∉ session.answers calls := by
  induction calls generalizing session checked with
  | nil => exact List.not_mem_nil
  | cons call calls ih =>
    unfold Session.answers
    cases served : session.serve call.request call.fuel call.watch with
    | error error =>
      obtain rfl := mirrors.serve_error served
      simpa using ih mirrors
    | ok next =>
      cases next with
      | none => exact List.not_mem_nil
      | some next =>
        obtain ⟨_, _, checked, onward⟩ := mirrors.of_serve served
        simpa using ih onward

/-- Calls are answered in the same way, one after the other. -/
theorem Mirrors.safe_answers {session : Session} {checked : Checked.Session}
    (mirrors : session.Mirrors checked) (calls : List Session.Call) :
    Safe (TimesFit (session.plan.config.budget.getD 0) session.elapsed (calls.map Call.watch))
      (· = session.answers calls) (checked.answers calls) := by
  induction calls generalizing session checked with
  | nil => exact .ok rfl
  | cons call calls ih =>
    unfold Checked.Session.answers Session.answers
    refine (mirrors.safe_serve call.request call.fuel call.watch _).bind ?_
    intro answer matched
    generalize served : session.serve call.request call.fuel call.watch = plain at matched ⊢
    cases matched with
    | refused error =>
      refine ((ih mirrors).when fun fit => fit.behind ⟨0, by omega⟩).bind ?_
      rintro answers rfl
      exact .ok rfl
    | served mirrored =>
      cases mirrored with
      | none => exact .ok rfl
      | some onward =>
        obtain ⟨same, ⟨question, spent⟩, _⟩ := mirrors.of_serve served
        refine ((ih onward).when fun fit => ?_).bind ?_
        · rw [same]
          exact fit.behind ⟨question, Nat.le_of_eq spent⟩
        · rintro answers rfl
          rw [onward.result_eq]
          exact .ok rfl

end Session

theorem safe_transcript (fuel : Nat) (watch : Stopwatch) (config : Config) (chunks : List Text)
    (input : Text) (calls : List Session.Call) :
    Safe (2 * config.tapeSize ≤ memoryLimit ∧
        TimesFit (config.budget.getD 0) 0 (watch :: calls.map Session.Call.watch))
      (· = transcript fuel watch config chunks input calls)
      (Checked.transcript fuel watch config chunks input calls) := by
  unfold Checked.transcript transcript
  refine (Session.safe_start fuel watch config chunks input _).bind ?_
  intro answer matched
  generalize started : Session.start fuel watch config chunks input = plain at matched ⊢
  cases matched with
  | refused error => exact .ok rfl
  | served mirrored =>
    cases mirrored with
    | none => exact .ok rfl
    | some mirrors =>
      obtain ⟨same, ⟨question, spent⟩, _⟩ := Session.mirrors_of_start started
      refine ((mirrors.safe_answers calls).when fun fit => ?_).bind ?_
      · rw [same]
        exact fit.2.behind ⟨question, by omega⟩
      · rintro answers rfl
        rw [mirrors.result_eq]
        exact .ok rfl

theorem lostPosition_notMem_transcript (fuel : Nat) (watch : Stopwatch) (config : Config)
    (chunks : List Text) (input : Text) (calls : List Session.Call)
    {answers : List (Except SessionError Result)}
    (seen : transcript fuel watch config chunks input calls = .ok answers) :
    .error .lostPosition ∉ answers := by
  unfold transcript at seen
  cases started : Session.start fuel watch config chunks input with
  | error error =>
    rw [started] at seen
    cases seen
  | ok session? =>
    rw [started] at seen
    cases session? with
    | none =>
      cases seen
      exact List.not_mem_nil
    | some session =>
      cases seen
      obtain ⟨_, _, checked, mirrors⟩ := Session.mirrors_of_start started
      simpa using mirrors.lostPosition_notMem calls

/-- Nothing that a caller can do makes a check fail. Run on the operators, with closing operators
searched for and every index, slice and assumption checked, each script gives what it gives on its
statements: once from a blank tape or from cells with a pointer among them, and in a session with
any calls, whatever the clock answers. Only two things break a run off, and neither while the cells
have room in memory and all times can be counted. For a single run that is so whenever the budget and
the readings of the clock can be counted themselves; what a session adds up must not go beyond it. No
session loses the place where it has paused. -/
theorem every_check_holds (fuel : Nat) (watch : Stopwatch) (config : Config) (input : Text) :
    (∀ source, Safe (2 * config.tapeSize ≤ memoryLimit ∧ TimesFit (config.budget.getD 0) 0 [watch])
      (· = run fuel watch config source input) (Checked.run fuel watch config source input)) ∧
    (∀ source strip, strip.position < strip.cells.length → ∃ tape, tape.strip = strip ∧
      Safe (TimesFit (config.budget.getD 0) 0 [watch])
        (· = runWithTape fuel watch config source input tape)
        (Checked.runWithTape fuel watch config source input strip)) ∧
    ∀ chunks calls,
      Safe (2 * config.tapeSize ≤ memoryLimit ∧
          TimesFit (config.budget.getD 0) 0 (watch :: calls.map Session.Call.watch))
        (· = transcript fuel watch config chunks input calls)
        (Checked.transcript fuel watch config chunks input calls) ∧
      ∀ answers, transcript fuel watch config chunks input calls = .ok answers →
        .error .lostPosition ∉ answers := by
  refine ⟨fun source => safe_run fuel watch config source input, ?_, ?_⟩
  · intro source strip inRange
    obtain ⟨tape, _, rfl⟩ := Checked.Strip.exists_tape inRange
    exact ⟨tape, rfl, safe_runWithTape fuel watch config source input tape⟩
  · intro chunks calls
    refine ⟨safe_transcript fuel watch config chunks input calls, ?_⟩
    intro answers seen
    exact lostPosition_notMem_transcript fuel watch config chunks input calls seen

/-- Two cells with the pointer on the second, and a session with a budget that is taken up inside a
loop and then called once more. -/
theorem every_check_holds_inside_a_loop :
    (1 < [3, 1].length ∧ ∃ tape, tape.strip = ⟨[3, 1], 1⟩ ∧
      Checked.runWithTape 20 (fun _ => 0) ⟨.byte, 2, some 9⟩ ['(', '-', ')', '<', '[', '-', ']'] []
          ⟨[3, 1], 1⟩ =
        .ok (runWithTape 20 (fun _ => 0) ⟨.byte, 2, some 9⟩ ['(', '-', ')', '<', '[', '-', ']'] [] tape)) ∧
    ∃ answers, Checked.transcript 20 (fun _ => 0) ⟨.byte, 2, some 9⟩ [['+', '['], ['-', ']']] []
        [⟨.resume, 20, fun _ => 0⟩, ⟨.complete, 20, fun _ => 0⟩] = .ok (.ok answers) ∧
      answers.length = 3 ∧ .error .lostPosition ∉ answers := by
  have holds := every_check_holds 20 (fun _ => 0) ⟨.byte, 2, some 9⟩ []
  have moment : ∀ question, (fun _ => 0 : Stopwatch) question ≤ 0 := fun _ => Nat.le_refl 0
  refine ⟨⟨by decide, ?_⟩, ?_⟩
  · obtain ⟨tape, same, safe⟩ := holds.2.1 ['(', '-', ')', '<', '[', '-', ']'] ⟨[3, 1], 1⟩ (by decide)
    obtain ⟨given, answered⟩ := safe.complete ⟨by decide, 0, moment, by decide, trivial⟩
    exact ⟨tape, same, answered.trans (congrArg _ (safe.faithful given answered))⟩
  · obtain ⟨safe, kept⟩ := holds.2.2 [['+', '['], ['-', ']']]
      [⟨.resume, 20, fun _ => 0⟩, ⟨.complete, 20, fun _ => 0⟩]
    have times : TimesFit 9 0 [fun _ => 0, fun _ => 0, fun _ => 0] :=
      ⟨by decide, 0, moment, by decide, by decide, 0, moment, by decide, by decide, 0, moment, by decide,
        trivial⟩
    obtain ⟨given, answered⟩ := safe.complete ⟨by decide, times⟩
    obtain rfl := safe.faithful given answered
    exact ⟨_, answered, rfl, kept _ rfl⟩

/-- A budget beyond all times is no budget for a run that is taken up again: the deadline is added up
from it. -/
example : Checked.transcript 9 (fun _ => 1) ⟨.byte, 1, some durationLimit⟩ [['+'], ['-']] []
    [⟨.resume, 9, fun _ => 0⟩] = .error .time := rfl

end TapeStepper
