import TapeStepper.Proofs.Attained
import TapeStepper.Proofs.Failures
import Mathlib.Data.List.Chain

namespace TapeStepper

/-- Every loop of the code is closed in it, and none that was opened before it. -/
structure Balanced (code : List Operator) : Prop where
  closed : code.count .loopEnd = code.count .loopStart
  ordered : ∀ part, part <+: code → part.count .loopEnd ≤ part.count .loopStart

/-- The code ends with the `]` of a loop whose `[` stands right before it. -/
structure ClosesLoop (code : List Operator) : Prop where
  closed : code.count .loopEnd = code.count .loopStart + 1
  ordered : ∀ part, part <+: code → part ≠ code → part.count .loopEnd ≤ part.count .loopStart

namespace Balanced

variable {first second : List Operator}

theorem nil : Balanced [] :=
  ⟨rfl, fun part front => by simp [List.prefix_nil.mp front]⟩

theorem single {operator : Operator} (opens : operator ≠ .loopStart) (closes : operator ≠ .loopEnd) :
    Balanced [operator] := by
  refine ⟨by simp [opens, closes], fun part front => ?_⟩
  obtain rfl | ⟨rest, rfl, nothing⟩ := List.prefix_cons_iff.mp front
  · exact Nat.le_refl _
  · simp [List.prefix_nil.mp nothing, opens, closes]

theorem append (balanced : Balanced first) (after : Balanced second) : Balanced (first ++ second) := by
  refine ⟨by simp only [List.count_append, balanced.closed, after.closed], fun part front => ?_⟩
  rcases List.prefix_or_prefix_of_prefix front (List.prefix_append first second) with
    within | ⟨rest, rfl⟩
  · exact balanced.ordered part within
  · have later := after.ordered rest ((List.prefix_append_right_inj first).mp front)
    simp only [List.count_append, balanced.closed]
    omega

/-- Behind balanced code a `]` closes what was opened before it. -/
theorem closesLoop (balanced : Balanced first) : ClosesLoop (first ++ [.loopEnd]) := by
  refine ⟨by simp [balanced.closed], fun part front proper => ?_⟩
  rcases List.prefix_concat_iff.mp front with whole | within
  · exact absurd whole proper
  · exact balanced.ordered part within

end Balanced

theorem ClosesLoop.balanced {code : List Operator} (closes : ClosesLoop code) :
    Balanced (.loopStart :: code) := by
  refine ⟨by simp [closes.closed], fun part front => ?_⟩
  obtain rfl | ⟨rest, rfl, within⟩ := List.prefix_cons_iff.mp front
  · exact Nat.le_refl _
  · by_cases whole : rest = code
    · simp [whole, closes.closed]
    · have bound := closes.ordered rest within whole
      simp
      omega

theorem Block.balanced (block : Block) : Balanced (operators block.tokens) := by
  induction block with
  | done => exact .nil
  | act offset action next ih =>
    have here : Balanced [.act action] := .single nofun nofun
    exact here.append ih
  | call offset next ih =>
    have here : Balanced [.call] := .single nofun nofun
    exact here.append ih
  | loop opens body closes next ihBody ihNext =>
    have closed := ihBody.closesLoop.balanced.append ihNext
    simpa [operators] using closed
  | define opens body closes next ihBody ihNext =>
    have opening : Balanced [.functionStart] := .single nofun nofun
    have closing : Balanced [.functionEnd] := .single nofun nofun
    simpa [operators] using opening.append (ihBody.append (closing.append ihNext))

/-- A body that was active when a run stopped, and what had been reached of it. -/
structure Scope where
  code : List Token
  reached : List Token

/-- The outer body has come to a loop, and the inner one is what follows up to the `]` of the loop;
or it has come to a call, and the inner one is the body of one of the functions. -/
inductive Scope.OpensIn (functions : List FunctionListing) (inner outer : Scope) : Prop
  | loop (opens : Nat) (rest : List Token) : outer.reached.getLast? = some ⟨opens, .loopStart⟩ →
      outer.code = outer.reached ++ (inner.code ++ rest) → ClosesLoop (operators inner.code) →
      OpensIn functions inner outer
  | call (offset : Nat) (listing : FunctionListing) :
      outer.reached.getLast? = some ⟨offset, .call⟩ → listing ∈ functions →
      listing.body = operators inner.code → OpensIn functions inner outer

/-- The frames of the trace are what had been reached of these bodies, the outermost of which is the
script. -/
structure Trace.Follows (source : List Token) (functions : List FunctionListing)
    (scopes : List Scope) (trace : Trace) : Prop where
  frames : trace.frames = scopes.map fun scope => operators scope.reached
  reached : ∀ scope ∈ scopes, scope.reached <+: scope.code
  drawn : ∀ scope ∈ scopes, scope.code <:+: source
  outermost : scopes.getLast?.map Scope.code = some source
  nested : scopes.IsChain (Scope.OpensIn functions)

namespace Level

variable {level : Level}

def scope (level : Level) : Scope :=
  ⟨level.tokens, level.reached⟩

theorem reached_prefix (place : level.InPlace) : level.reached <+: level.tokens := by
  rw [← passed_append_remaining place, reached_eq, List.prefix_append_right_inj, ← head?_remaining]
  cases level.remaining with
  | nil => exact List.prefix_refl _
  | cons token rest => exact ⟨rest, rfl⟩

theorem getLast?_reached {token : Token} (here : level.current? = some token) :
    level.reached.getLast? = some token := by
  rw [reached_eq, here, Option.toList_some, List.getLast?_concat]

theorem mem_tokens_of_current? (place : level.InPlace) {token : Token}
    (here : level.current? = some token) : token ∈ level.tokens := by
  have front := reached_prefix place
  exact front.subset (List.mem_of_getLast? (getLast?_reached here))

theorem tokens_of_loop {opens closes : Nat} {body next : Block} (place : level.InPlace)
    (here : level.rest = .loop opens body closes next) :
    level.tokens = level.reached ++
      (body.tokens ++ [⟨closes, .loopEnd⟩] ++ level.advance.remaining) := by
  have token : level.current? = some ⟨opens, .loopStart⟩ := current?_of_rest here rfl
  rw [← passed_append_remaining place, remaining_eq, here, reached_eq, token]
  simp [Block.takeTokens, Block.tokensOnto_eq]

theorem infix_of_define {opens closes : Nat} {body next : Block} (place : level.InPlace)
    (here : level.rest = .define opens body closes next) : body.tokens <:+: level.tokens := by
  refine ⟨level.passed ++ [⟨opens, .functionStart⟩],
    ⟨closes, .functionEnd⟩ :: level.advance.remaining, ?_⟩
  rw [← passed_append_remaining place, level.remaining_eq, here]
  simp [Block.takeTokens, Block.tokensOnto_eq]

end Level

theorem FunctionTable.mem_of_get? {Body : Type} {table : FunctionTable Body} {key : Nat} {body : Body}
    (bound : table.get? key = some body) : (key, body) ∈ table.entries := by
  obtain ⟨entries⟩ := table
  induction entries with
  | nil => cases bound
  | cons entry rest ih =>
    simp only [get?, bodyOf?] at bound ih ⊢
    split at bound
    · rename_i same
      cases bound
      rw [same]
      exact List.mem_cons_self ..
    · exact List.mem_cons_of_mem _ (ih bound)

/-- Every function is a piece of the script. -/
def FunctionTable.DrawnFrom (source : List Token) (functions : FunctionTable Block) : Prop :=
  ∀ key body, functions.get? key = some body → body.tokens <:+: source

namespace Stack

variable {block : Block} {functions : FunctionTable Block} {stack : Stack}

/-- Every level runs a piece of the script. -/
theorem Stands.infix (stands : stack.Stands block functions)
    (drawn : functions.DrawnFrom block.tokens) :
    ∀ level ∈ stack.levels, level.tokens <:+: block.tokens := by
  induction stands with
  | top place =>
    intro level listed
    obtain rfl := List.mem_singleton.mp listed
    simp [Level.tokens, Level.closing]
  | @inside around level outer opened place ih =>
    intro other listed
    rcases List.mem_cons.mp listed with rfl | further
    · obtain ⟨opens, body, closes, next, here, entered⟩ | ⟨offset, next, key, body, here, called, bound,
        entered⟩ := opened?_cases opened
      · have same : other.tokens = body.tokens ++ [⟨closes, .loopEnd⟩] :=
          congrArg Level.tokens entered
        have inner : around.inner.tokens <:+: block.tokens := ih _ (List.mem_cons_self ..)
        refine List.IsInfix.trans ⟨around.inner.reached, around.inner.advance.remaining, ?_⟩ inner
        rw [same, Level.tokens_of_loop outer.inPlace here, List.append_assoc]
      · have same : other.tokens = body.tokens ++ [] := congrArg Level.tokens entered
        rw [same, List.append_nil]
        exact drawn key body bound
    · exact ih other further

theorem Stands.current_mem (stands : stack.Stands block functions)
    (drawn : functions.DrawnFrom block.tokens) {token : Token}
    (here : stack.inner.current? = some token) : token ∈ block.tokens := by
  have inner := stands.infix drawn stack.inner (List.mem_cons_self ..)
  exact inner.subset (Level.mem_tokens_of_current? stands.inPlace here)

/-- A level is a body that the level around it has opened, whatever has been reached of it. -/
theorem Stands.nested (stands : stack.Stands block functions) (reached : List Token) :
    (⟨stack.inner.tokens, reached⟩ :: stack.outer.map Level.scope).IsChain
      (Scope.OpensIn functions.listing) := by
  induction stands generalizing reached with
  | top place => exact List.isChain_singleton _
  | @inside around level outer opened place ih =>
    -- What was reached of the new level does not matter, that of the level around it does.
    refine List.isChain_cons_cons.mpr ⟨?_, ih around.inner.reached⟩
    obtain ⟨opens, body, closes, next, here, entered⟩ | ⟨offset, next, key, body, here, called, bound,
      entered⟩ := opened?_cases opened
    · have same : level.tokens = body.tokens ++ [⟨closes, .loopEnd⟩] := congrArg Level.tokens entered
      refine .loop opens around.inner.advance.remaining ?_ ?_ ?_
      · exact Level.getLast?_reached (Level.current?_of_rest here rfl)
      · have split := Level.tokens_of_loop outer.inPlace here
        rwa [← same] at split
      · have closes := body.balanced.closesLoop
        simpa [push, same, operators] using closes
    · have same : level.tokens = body.tokens := by
        have spelled : level.tokens = body.tokens ++ [] := congrArg Level.tokens entered
        rwa [List.append_nil] at spelled
      refine .call offset (.ofBody key body) ?_ ?_ ?_
      · exact Level.getLast?_reached (Level.current?_of_rest here rfl)
      · exact List.mem_map_of_mem (FunctionTable.mem_of_get? bound)
      · exact congrArg operators same.symm

theorem Stands.outermost (stands : stack.Stands block functions) (reached : List Token) :
    (⟨stack.inner.tokens, reached⟩ :: stack.outer.map Level.scope).getLast?.map Scope.code =
      some block.tokens := by
  induction stands generalizing reached with
  | top place => simp [Level.tokens, Level.closing]
  | @inside around level outer opened place ih =>
    have further := ih around.inner.reached
    rw [← further]
    simp only [push, List.map_cons, List.getLast?_cons_cons]
    rfl

/-- The levels around the innermost one have come to an operator. -/
theorem Stands.reached_ne_nil (stands : stack.Stands block functions) :
    ∀ level ∈ stack.outer, level.reached ≠ [] := by
  induction stands with
  | top place => nofun
  | @inside around level outer opened place ih =>
    intro other listed
    rcases List.mem_cons.mp listed with rfl | further
    · obtain ⟨token, here⟩ := Level.exists_current? (isOver_of_opened opened)
      simp [Level.reached_eq, here]
    · exact ih other further

theorem Stands.scopes_ne_nil (stands : stack.Stands block functions) :
    ∀ scope ∈ stack.outer.map Level.scope, scope.reached ≠ [] := by
  intro scope listed
  obtain ⟨level, outer, rfl⟩ := List.mem_map.mp listed
  exact stands.reached_ne_nil level outer

theorem Stands.levels_inPlace (stands : stack.Stands block functions) :
    ∀ level ∈ stack.levels, level.InPlace := by
  induction stands with
  | top place =>
    intro level listed
    obtain rfl := List.mem_singleton.mp listed
    exact place
  | inside outer opened place ih =>
    intro other listed
    rcases List.mem_cons.mp listed with rfl | further
    · exact place
    · exact ih other further

/-- A trace of which the innermost frame is empty is about the operator that opened the level. -/
theorem Stands.offset_framesAbove (stands : stack.Stands block functions) :
    (Trace.ofFrames stack.framesAbove).offset =
      (((stack.outer.map Level.scope).head?.bind fun next => next.reached.getLast?).map
        Token.offset).getD 0 := by
  have around := stands.reached_ne_nil
  unfold framesAbove
  cases here : stack.outer with
  | nil => rfl
  | cons level outer =>
    rw [here] at around
    have last := List.getLast?_eq_some_getLast (around level (List.mem_cons_self ..))
    simp [Trace.ofFrames, Level.scope, List.findSome?, last]

/-- Frames of which the innermost shows a front part of its body follow the stack. -/
theorem Stands.follows (stands : stack.Stands block functions)
    (drawn : functions.DrawnFrom block.tokens) {reached : List Token}
    (front : reached <+: stack.inner.tokens) :
    (Trace.ofFrames (reached :: stack.outer.map Level.reached)).Follows block.tokens functions.listing
      (⟨stack.inner.tokens, reached⟩ :: stack.outer.map Level.scope) where
  frames := by simp [Trace.ofFrames, Level.scope]
  reached := by
    intro scope listed
    rcases List.mem_cons.mp listed with rfl | further
    · exact front
    · obtain ⟨level, outer, rfl⟩ := List.mem_map.mp further
      exact Level.reached_prefix (stands.levels_inPlace level (List.mem_cons_of_mem _ outer))
  drawn := by
    intro scope listed
    rcases List.mem_cons.mp listed with rfl | further
    · exact stands.infix drawn _ (List.mem_cons_self ..)
    · obtain ⟨level, outer, rfl⟩ := List.mem_map.mp further
      exact stands.infix drawn level (List.mem_cons_of_mem _ outer)
  outermost := stands.outermost reached
  nested := stands.nested reached

end Stack

/-- A run that has failed has failed at an operator, and not because the time was up. -/
def Progress.NamesFault : Progress → Prop
  | halted _ (.failed fault _) => fault ≠ .timeBudget
  | running _ | halted _ .finished | halted _ (.paused _) | halted _ (.overran _) => True

theorem Store.ne_timeBudget_of_perform {mode : CellMode} {store : Store} {action : Action}
    {fault : Fault} (failed : store.perform mode action = .error fault) : fault ≠ .timeBudget := by
  cases action with
  | next | back | plus | minus | print =>
    simp only [perform] at failed
    split at failed <;> cases failed
    rintro ⟨⟩
  | read =>
    simp only [perform] at failed
    split at failed
    · cases failed
      rintro ⟨⟩
    · split at failed <;> cases failed
      rintro ⟨⟩

theorem FunctionTable.ne_timeBudget_of_define {Body : Type} {table : FunctionTable Body} {key : Nat}
    {body : Body} {fault : Fault} (failed : table.define key body = .error fault) :
    fault ≠ .timeBudget := by
  unfold define at failed
  split at failed
  · cases failed
    rintro ⟨⟩
  · split at failed <;> cases failed
    rintro ⟨⟩

namespace Machine

variable {rules : Rules} {late : Bool} {machine : Machine} {progress : Progress} {block : Block}

theorem namesFault_arrive (store : Store) (stack : Stack) : (arrive late store stack).NamesFault := by
  cases late <;> trivial

theorem namesFault_leave (store : Store) (armed : Bool) : (machine.leave store armed).NamesFault := by
  unfold leave
  split <;> trivial

theorem Executes.namesFault (move : machine.Executes rules late progress) : progress.NamesFault := by
  cases move with
  | acts _ _ | skipsLoop _ _ | resetsCell _ _ _ | defines _ _ => trivial
  | entersLoop _ _ _ | calls _ _ _ | repeatsLoop _ _ => exact namesFault_arrive _ _
  | endsLoop _ _ => exact namesFault_leave _ _
  | actFails here failed => exact Store.ne_timeBudget_of_perform failed
  | defineFails here failed => exact FunctionTable.ne_timeBudget_of_define failed
  | callsNothing _ _ | callsTooDeep _ _ _ => rintro ⟨⟩

theorem namesFault_step (rules : Rules) (late : Bool) (machine : Machine) :
    (machine.step rules late).NamesFault := by
  obtain ⟨_, step⟩ | ⟨_, _, _, step⟩ | ⟨_, _, step⟩ := step_cases rules late machine
  · rw [step]
    exact namesFault_leave _ _
  · rw [step]
    trivial
  · rw [step]
    exact (executes rules late machine).namesFault

/-- A function that is defined is a piece of the body in which it is defined. -/
theorem Stores.drawn {after : Store} (stores : machine.Stores rules after)
    (stands : machine.stack.Stands block machine.store.functions)
    (drawn : machine.store.functions.DrawnFrom block.tokens) :
    after.functions.DrawnFrom block.tokens := by
  rcases stores.functions_cases with same | ⟨_, _, _, _, here, result⟩
  · rw [same]
    exact drawn
  · have inner := stands.infix drawn machine.stack.inner (List.mem_cons_self ..)
    exact FunctionTable.forall_define drawn
      ((Level.infix_of_define stands.inPlace here).trans inner) result

end Machine

namespace Attains

variable {mode : CellMode} {block : Block} {input : Text} {tape : Tape} {progress : Progress}

theorem namesFault (attained : Attains mode block input tape progress) : progress.NamesFault := by
  induction attained with
  | launch => trivial
  | enter late _ _ =>
    unfold Machine.enter
    split <;> trivial
  | step late _ _ _ => exact Machine.namesFault_step _ late _
  | again _ _ => trivial

theorem drawn (attained : Attains mode block input tape progress) (whole : block.Tidy) :
    progress.store.functions.DrawnFrom block.tokens := by
  have start : (Store.start tape input).functions.DrawnFrom block.tokens := nofun
  refine attained.store (motive := fun store => store.functions.DrawnFrom block.tokens) whole start ?_
  intro machine rules after _ stands stores drawn
  exact stores.drawn stands drawn

end Attains

theorem Fault.has_thresholdExceeded (fault : Fault) :
    fault.exitCode.has .thresholdExceeded = decide (fault = .timeBudget) := by
  cases fault <;> simp [exitCode, flag?, ExitCode.has_ofFlags]

theorem Outcome.has_thresholdExceeded (stack : Stack) (output : Text) :
    ((overran stack).exitCode.withOutput output).has .thresholdExceeded = true := by
  rw [ExitCode.has_withOutput _ _ (by decide) (by decide)]
  simp [exitCode, Fault.has_thresholdExceeded]

/-- What a result shows of the stack. A run that was stopped by the clock has reached nothing of its
innermost body; any other has reached the operator that the trace is about. -/
structure Result.ShowsStack (source : Text) (trace : Trace) (result : Result) (scope : Scope)
    (outer : List Scope) : Prop where
  script : result.source = operators (tokens source)
  follows : trace.Follows (tokens source) result.functions (scope :: outer)
  around : ∀ other ∈ outer, other.reached ≠ []
  stopped : result.exitCode.has .thresholdExceeded = false →
    ∃ token, scope.reached.getLast? = some token ∧ trace.offset = token.offset
  overran : result.exitCode.has .thresholdExceeded = true → scope.reached = [] ∧
    trace.offset = ((outer.head?.bind fun next => next.reached.getLast?).map Token.offset).getD 0

/-- A result of a pause or of a failure at run time has a trace with frames, and every such trace
shows the stack. -/
structure Result.TracesStack (source : Text) (result : Result) : Prop where
  carried : ∀ flag ∈ [Flag.breakpointReached, .exceptionThrown, .thresholdExceeded],
    result.exitCode.has flag = true → ∃ trace, result.trace = some trace ∧ trace.frames ≠ []
  shown : ∀ trace, result.trace = some trace → trace.frames ≠ [] →
    ∃ scope outer, result.ShowsStack source trace scope outer

namespace Attains

variable {mode : CellMode} {block : Block} {source input : Text} {tape : Tape} {store : Store}
  {stack : Stack} {outcome : Outcome}

/-- A run that has stopped at an operator shows how far every level has come. -/
theorem showsStack_of_stopped (attained : Attains mode block input tape (.halted store outcome))
    (accepted : readScript source = .ok block)
    (stopped : (Progress.halted store outcome).stoppedAt? = some stack)
    (stands : stack.Stands block store.functions)
    (unflagged : outcome.exitCode.has .thresholdExceeded = false) (elapsed : Nat) :
    (Result.ofOutcome block elapsed store outcome).ShowsStack source (.ofFrames stack.frames)
      stack.inner.scope (stack.outer.map Level.scope) := by
  have whole := tidy_of_readScript accepted
  have spelled : block.tokens = tokens source := (readScript_eq_ok_iff.mp accepted).2.2
  have within : (outcome.exitCode.withOutput store.output.chars).has .thresholdExceeded = false := by
    rw [ExitCode.has_withOutput _ _ (by decide) (by decide), unflagged]
  obtain ⟨token, here⟩ := Level.exists_current? ((attained.sound whole).inside stack stopped)
  refine ⟨congrArg operators spelled, ?_, ?_, fun _ => ?_, fun late => ?_⟩
  · rw [← spelled]
    exact stands.follows (attained.drawn whole) (Level.reached_prefix stands.inPlace)
  · exact stands.scopes_ne_nil
  · exact ⟨token, Level.getLast?_reached here, Stack.offset_ofFrames here⟩
  · cases within.symm.trans late

/-- A run that was stopped by the clock shows how far the levels around the innermost one have come. -/
theorem showsStack_of_overran (attained : Attains mode block input tape (.halted store (.overran stack)))
    (accepted : readScript source = .ok block) (elapsed : Nat) :
    (Result.ofOutcome block elapsed store (.overran stack)).ShowsStack source
      (.ofFrames stack.framesAbove) ⟨stack.inner.tokens, []⟩ (stack.outer.map Level.scope) := by
  have whole := tidy_of_readScript accepted
  have spelled : block.tokens = tokens source := (readScript_eq_ok_iff.mp accepted).2.2
  have stands := (attained.sound whole).stands stack rfl
  refine ⟨congrArg operators spelled, ?_, ?_, fun within => ?_, fun _ => ⟨rfl, ?_⟩⟩
  · rw [← spelled]
    exact stands.follows (attained.drawn whole) (List.nil_prefix)
  · exact stands.scopes_ne_nil
  · cases (Outcome.has_thresholdExceeded _ _).symm.trans within
  · exact stands.offset_framesAbove

theorem tracesStack (attained : Attains mode block input tape (.halted store outcome))
    (accepted : readScript source = .ok block) (elapsed : Nat) :
    (Result.ofOutcome block elapsed store outcome).TracesStack source := by
  have stands := (attained.sound (tidy_of_readScript accepted)).stands
  cases outcome with
  | finished =>
    refine ⟨fun flag listed raised => ?_, nofun⟩
    simp only [List.mem_cons, List.not_mem_nil, or_false] at listed
    rcases listed with rfl | rfl | rfl <;>
      simp [Result.ofOutcome, Outcome.exitCode, ExitCode.has_withOutput, ExitCode.has_ofFlags] at raised
  | paused stack =>
    have unflagged : (Outcome.paused stack).exitCode.has .thresholdExceeded = false := by
      simp [Outcome.exitCode, ExitCode.has_ofFlags]
    refine ⟨fun _ _ _ => ⟨_, rfl, List.cons_ne_nil _ _⟩, ?_⟩
    rintro trace ⟨⟩ _
    exact ⟨_, _, attained.showsStack_of_stopped accepted rfl (stands stack rfl) unflagged elapsed⟩
  | failed fault stack =>
    have named : fault ≠ .timeBudget := attained.namesFault
    have unflagged : (Outcome.failed fault stack).exitCode.has .thresholdExceeded = false := by
      simp [Outcome.exitCode, Fault.has_thresholdExceeded, named]
    refine ⟨fun _ _ _ => ⟨_, rfl, List.cons_ne_nil _ _⟩, ?_⟩
    rintro trace ⟨⟩ _
    exact ⟨_, _, attained.showsStack_of_stopped accepted rfl (stands stack rfl) unflagged elapsed⟩
  | overran stack =>
    refine ⟨fun _ _ _ => ⟨_, rfl, List.cons_ne_nil _ _⟩, ?_⟩
    rintro trace ⟨⟩ _
    exact ⟨_, _, attained.showsStack_of_overran accepted elapsed⟩

end Attains

theorem Rejection.tracesStack_result (rejection : Rejection) (source : Text) (tape : Tape) :
    (rejection.result source tape).TracesStack source where
  carried := by
    intro flag listed raised
    simp only [List.mem_cons, List.not_mem_nil, or_false] at listed
    rcases listed with rfl | rfl | rfl <;>
      cases raised.symm.trans (rejection.has_result (by decide))
  shown := by
    intro trace shown framed
    cases rejection with
    | noCode => cases shown
    | mismatched offset =>
      cases shown
      exact absurd rfl framed

section Runs

variable {config : Config} {input : Text}

theorem tracesStack_of_runOn {source : Text} {tape : Tape} {fuel : Nat} {watch : Stopwatch}
    {result : Result} (ran : runOn fuel watch config source input tape = some result) :
    result.TracesStack source := by
  cases accepted : readScript source with
  | error rejection =>
    simp only [runOn, accepted, Option.some.injEq] at ran
    exact ran ▸ rejection.tracesStack_result source tape
  | ok block =>
    obtain ⟨elapsed, store, outcome, rfl, attained⟩ := runOn_attains accepted ran
    exact attained.tracesStack accepted elapsed

theorem Session.Reached.tracesStack {chunks : List Text} {requests : List Session.Request}
    {session : Session} (reached : Reached config chunks input requests session) :
    session.result.TracesStack chunks.flatten := by
  cases accepted : readScript chunks.flatten with
  | error rejection =>
    rw [(reached.of_rejected reached.valid accepted).2.2]
    exact rejection.tracesStack_result _ _
  | ok block =>
    obtain ⟨elapsed, store, outcome, rfl, attained⟩ := reached.attains accepted
    exact attained.tracesStack accepted elapsed

end Runs

/-- Whatever stops a run or a session, under any clock and after any number of requests, the trace of
the result is the stack of the script that was run. -/
theorem trace_is_the_stack (config : Config) (input : Text) :
    (∀ source fuel watch result, run fuel watch config source input = .ok (some result) →
      result.TracesStack source) ∧
    (∀ source tape fuel watch result,
      runWithTape fuel watch config source input tape = .ok (some result) →
      result.TracesStack source) ∧
    ∀ chunks requests session, Session.Reached config chunks input requests session →
      session.result.TracesStack chunks.flatten := by
  refine ⟨?_, ?_, ?_⟩
  · intro source fuel watch result ran
    exact tracesStack_of_runOn (runOn_of_run ran).2
  · intro source tape fuel watch result ran
    exact tracesStack_of_runOn (runOn_of_runWithTape ran)
  · intro chunks requests session reached
    exact reached.tracesStack

/-- A function that walks over the edge of the tape when it is called in a loop, at once and after a
pause inside the loop; and the same script when the time is up as the loop is entered. -/
theorem trace_is_the_stack_of_call_in_loop :
    (∃ result, run 9 (fun _ => 0) ⟨.short, 1, none⟩ ['+', '(', '<', ')', '[', ':', ']'] [] =
        .ok (some result) ∧
      result.trace.map Trace.offset = some 2 ∧ result.trace.map (List.length ∘ Trace.frames) = some 3 ∧
      result.TracesStack ['+', '(', '<', ')', '[', ':', ']']) ∧
    (∃ session, Session.Reached ⟨.short, 1, none⟩ [['+', '(', '<', ')', '['], [':', ']']] [] [.resume]
        session ∧ session.result.exitCode.has .exceptionThrown = true ∧
      session.result.TracesStack ['+', '(', '<', ')', '[', ':', ']']) ∧
    ∃ result, runWithTape 9 id ⟨.short, 1, some 1⟩ ['+', '(', '<', ')', '[', ':', ']'] [] ⟨[], 0, []⟩ =
        .ok (some result) ∧
      result.exitCode.has .thresholdExceeded = true ∧
      result.TracesStack ['+', '(', '<', ')', '[', ':', ']'] := by
  obtain ⟨atOnce, _, inSession⟩ := trace_is_the_stack ⟨.short, 1, none⟩ []
  have first := @Session.Reached.start ⟨.short, 1, none⟩ [['+', '(', '<', ')', '['], [':', ']']] []
    9 (fun _ => 0) _ rfl
  have second := @Session.Reached.serve _ _ _ _ .resume 9 (fun _ => 0) _ _ first rfl
  refine ⟨⟨_, rfl, rfl, rfl, atOnce _ 9 (fun _ => 0) _ rfl⟩,
    ⟨_, second, rfl, inSession _ _ _ second⟩, ?_⟩
  exact ⟨_, rfl, rfl, (trace_is_the_stack ⟨.short, 1, some 1⟩ []).2.1 _ ⟨[], 0, []⟩ 9 id _ rfl⟩

end TapeStepper
