import TapeStepper.Proofs.Cumulative
import TapeStepper.Proofs.Recording

namespace TapeStepper

/-- All that a store has counted or bound. -/
def Store.extent (store : Store) : Nat :=
  store.operations + store.functions.entries.length

theorem Store.Extends.extent_le {before after : Store} (grown : before.Extends after) :
    before.extent ≤ after.extent :=
  Nat.add_le_add grown.operations grown.functions.length_le

namespace Machine

variable {rules : Rules} {machine : Machine} {progress : Progress}

/-- An operator that does not fail is counted, or it binds a function. -/
theorem Executes.extent_lt {late : Bool} (move : machine.Executes rules late progress) :
    machine.store.extent < progress.store.extent ∨
      ∃ fault, progress = .halted machine.store (.failed fault machine.stack) := by
  have bound := move.stores.grows.functions.length_le
  obtain more | ⟨opens, body, closes, next, here⟩ | failed := move.counted
  · exact .inl (Nat.add_lt_add_of_lt_of_le more bound)
  · rw [← move.execute_eq, execute, here]
    cases defined : machine.store.functions.define machine.store.value body with
    | error fault => exact .inr ⟨fault, by simp only [defined]; rfl⟩
    | ok functions =>
      obtain ⟨_, _, rfl⟩ := FunctionTable.define_ok_iff.mp defined
      have longer := FunctionTable.length_insertEntry machine.store.value body
        machine.store.functions.entries
      refine .inl ?_
      simp only [defined]
      simp only [Store.extent, proceed, Progress.store, longer]
      omega
  · exact .inr failed

/-- A machine that is taken up and comes to a breakpoint has run an operator. -/
theorem extent_lt_of_paused {late : Nat → Bool} {fuel : Nat} {halt : Halt} {stack : Stack}
    (unarmed : machine.armed = false) (inside : machine.stack.inner.isOver = false)
    (run : machine.run rules late fuel = some halt) (paused : halt.outcome = .paused stack) :
    machine.store.extent < halt.store.extent := by
  unfold Machine.run enter at run
  split at run
  · cases fuel <;> cases run <;> cases paused
  · cases fuel with
    | zero => cases run
    | succ fuel =>
      rw [Progress.finish, step_of_execute inside (by simp [unarmed])] at run
      obtain more | ⟨fault, failed⟩ := (executes rules (late machine.stack.depth) machine).extent_lt
      · exact Nat.lt_of_lt_of_le more (extends_finish run).extent_le
      · rw [failed] at run
        cases fuel <;> cases run <;> cases paused

end Machine

section Sessions

variable {config : Config} {chunks : List Text} {input : Text} {requests : List Session.Request}
  {session : Session}

/-- A session is never the same after a request that was served. -/
theorem Session.Reached.ne_of_served (reached : Reached config chunks input requests session)
    {request : Session.Request} {fuel : Nat} {watch : Stopwatch} {next : Session}
    (served : session.serve request fuel watch = .ok (some next)) : next ≠ session := by
  have continues := canContinue_of_serve served
  cases accepted : readScript chunks.flatten with
  | error rejection =>
    rw [(reached.of_rejected reached.valid accepted).2.1] at continues
    cases continues
  | ok block =>
    obtain ⟨elapsed, store, stack, rfl, taken, attained⟩ := reached.machine accepted continues
    have sound := attained.sound (tidy_of_readScript accepted)
    rw [serve_eq, taken] at served
    obtain ⟨halt, run, rfl⟩ := Option.map_eq_some_iff.mp (Except.ok.inj served)
    intro same
    have stores : halt.store = store := congrArg Session.store same
    have points : halt.outcome.resumePoint? = some stack.resumePoint := congrArg Session.point same
    cases outcome : halt.outcome with
    | paused last =>
      have more := Machine.extent_lt_of_paused rfl (sound.inside stack rfl) run outcome
      rw [stores] at more
      exact Nat.lt_irrefl _ more
    | finished | failed _ _ | overran _ =>
      rw [outcome] at points
      cases points

theorem Session.Reached.exists_produces (reached : Reached config chunks input requests session) :
    ∃ results, Produces config chunks input results session := by
  induction reached with
  | start started => exact ⟨_, .start started⟩
  | serve _ served ih =>
    obtain ⟨results, produces⟩ := ih
    exact ⟨_, produces.serve served⟩

end Sessions

namespace Debugger

/-- What can be shown while the session stays where it is: the history and, once recording is over,
the latest result behind it. -/
def viewable (debugger : Debugger) : List Result :=
  debugger.history.results ++ if debugger.recording then [] else [debugger.session.result]

/-- The results that are shown one after the other, at once and after each of the steps forward, and
what becomes of the debugger. Fuel and clock of each step are given. -/
def tour : List (Nat × Stopwatch) → Debugger → Option (List Result × Debugger)
  | [], debugger => some ([debugger.current], debugger)
  | (fuel, watch) :: steps, debugger => do
    let next ← debugger.stepForward fuel watch
    let (results, last) ← next.tour steps
    return (debugger.current :: results, last)

section Positions

variable {debugger : Debugger}

theorem length_viewable_le (debugger : Debugger) :
    debugger.viewable.length ≤ debugger.lastPosition + 1 := by
  unfold viewable lastPosition History.length
  cases debugger.recording with
  | true =>
    simp only [if_true, List.append_nil]
    omega
  | false => simp

theorem viewable_position (inside : debugger.position < debugger.viewable.length) :
    debugger.viewable[debugger.position]? = some debugger.current := by
  unfold viewable current History.get? at *
  by_cases held : debugger.position < debugger.history.results.length
  · rw [List.getElem?_append_left held, List.getElem?_eq_getElem held, Option.getD_some]
  · -- Behind the history there is one more place, and only when recording is over.
    cases recording : debugger.recording with
    | true => simp [recording, held] at inside
    | false =>
      have behind : debugger.position = debugger.history.results.length := by
        simp [recording] at inside
        omega
      simp [behind]

/-- Steps forward that stay inside show one result after the other and do nothing else. -/
theorem tour_of_lt {steps : List (Nat × Stopwatch)}
    (inside : debugger.position + steps.length < debugger.viewable.length) :
    ∃ last, debugger.tour steps =
        some ((debugger.viewable.drop debugger.position).take (steps.length + 1), last) ∧
      Alike { debugger with position := debugger.position + steps.length } last := by
  induction steps generalizing debugger with
  | nil =>
    have shown := viewable_position inside
    obtain ⟨here, same⟩ := List.getElem?_eq_some_iff.mp shown
    refine ⟨debugger, ?_, ⟨rfl, rfl, rfl, rfl⟩⟩
    rw [List.drop_eq_getElem_cons here, same]
    rfl
  | cons step steps ih =>
    obtain ⟨fuel, watch⟩ := step
    rw [List.length_cons] at inside
    have bound := debugger.length_viewable_le
    have room : debugger.position < debugger.lastPosition := by omega
    obtain ⟨here, same⟩ := List.getElem?_eq_some_iff.mp
      (viewable_position (by omega : debugger.position < debugger.viewable.length))
    obtain ⟨last, toured, alike⟩ := @ih
      (showOutputEnd { debugger with position := debugger.position + 1, status := "Stepped forward" })
      (by
        change debugger.position + 1 + steps.length < debugger.viewable.length
        omega)
    refine ⟨last, ?_, alike.session, alike.history, alike.recording, ?_⟩
    · rw [tour, stepForward_of_lt room, Option.bind_eq_bind, Option.bind_some, toured,
        List.drop_eq_getElem_cons here, same, List.length_cons]
      rfl
    · calc last.position = debugger.position + 1 + steps.length := alike.position
        _ = debugger.position + (steps.length + 1) := by omega

theorem stepForward_of_atEnd (ended : debugger.atEnd = true) (fuel : Nat) (watch : Stopwatch) :
    debugger.stepForward fuel watch = some (showOutputEnd (debugger.say "Execution finished")) := by
  simp only [atEnd, Bool.and_eq_true, decide_eq_true_eq, Bool.not_eq_true'] at ended
  rw [stepForward, if_neg (Nat.not_lt.mpr ended.1), ended.2]
  rfl

end Positions

/-- The laws of going forward and back. The last one is about a script that is run without a budget. -/
structure Navigable (config : Config) (chunks : List Text) (input : Text) (debugger : Debugger) :
    Prop where
  returns : 0 < debugger.position → ∀ fuel watch, ∃ after,
    debugger.stepBackward.stepForward fuel watch = some after ∧ debugger.Alike after
  stays : ∀ fuel watch after, debugger.stepForward fuel watch = some after →
    (debugger.Alike after ↔ debugger.atEnd = true)
  rests : debugger.atEnd = true → ∀ fuel watch, ∃ after, debugger.stepForward fuel watch = some after
  spans : debugger.viewable.length = debugger.lastPosition + 1
  tours : ∀ steps, steps.length ≤ debugger.lastPosition → ∃ last,
    debugger.jumpToStart.tour steps = some (debugger.viewable.take (steps.length + 1), last) ∧
      Alike { debugger with position := steps.length } last
  ends : debugger.atEnd = true → config.budget = none → ∀ watch,
    (∃ fuel result, run fuel watch config chunks.flatten input = .ok (some result)) ∧
    ∀ fuel result, run fuel watch config chunks.flatten input = .ok (some result) →
      result.Agrees debugger.current

section Laws

variable {config : Config} {chunks : List Text} {input : Text} {requests : List Session.Request}
  {limit : Nat} {log : List Result} {debugger : Debugger}

/-- There is a position for each result that can be shown. -/
theorem Recorded.length_viewable (recorded : debugger.Recorded limit log) :
    debugger.viewable.length = debugger.lastPosition + 1 := by
  cases recording : debugger.recording with
  | true =>
    have filled : debugger.position < debugger.history.results.length :=
      (recorded.faithful.recording recording).2
    simp only [viewable, lastPosition, History.length, recording, if_true, List.append_nil]
    omega
  | false => simp [viewable, lastPosition, History.length, recording]

theorem Recorded.forward_backward (recorded : debugger.Recorded limit log)
    (behind : 0 < debugger.position) (fuel : Nat) (watch : Stopwatch) :
    ∃ after, debugger.stepBackward.stepForward fuel watch = some after ∧ debugger.Alike after := by
  have within := recorded.within
  have room : debugger.stepBackward.position < debugger.stepBackward.lastPosition := by
    rw [stepBackward, if_pos behind]
    change debugger.position - 1 < debugger.lastPosition
    omega
  refine ⟨_, stepForward_of_lt room fuel watch, ?_⟩
  rw [stepBackward, if_pos behind]
  refine ⟨rfl, rfl, rfl, ?_⟩
  change debugger.position - 1 + 1 = debugger.position
  omega

theorem Recorded.tour_from_start (recorded : debugger.Recorded limit log)
    {steps : List (Nat × Stopwatch)} (bound : steps.length ≤ debugger.lastPosition) :
    ∃ last, debugger.jumpToStart.tour steps =
        some (debugger.viewable.take (steps.length + 1), last) ∧
      Alike { debugger with position := steps.length } last := by
  have inside : debugger.jumpToStart.position + steps.length < debugger.jumpToStart.viewable.length := by
    change 0 + steps.length < debugger.viewable.length
    rw [recorded.length_viewable]
    omega
  obtain ⟨last, toured, alike⟩ := tour_of_lt inside
  refine ⟨last, toured, alike.session, alike.history, alike.recording, ?_⟩
  exact alike.position.trans (Nat.zero_add _)

/-- A step forward before the end shows another result, or the session has gone on. -/
theorem not_alike_of_stepForward (reached : Session.Reached config chunks input requests debugger.session)
    (going : debugger.atEnd = false) {fuel : Nat} {watch : Stopwatch} {after : Debugger}
    (stepped : debugger.stepForward fuel watch = some after) : ¬ debugger.Alike after := by
  intro alike
  by_cases room : debugger.position < debugger.lastPosition
  · obtain rfl := Option.some.inj ((stepForward_of_lt room fuel watch).symm.trans stepped)
    have place : debugger.position + 1 = debugger.position := alike.position
    omega
  · have continues : debugger.session.canContinue = true := by
      simpa [atEnd, Nat.le_of_not_lt room] using going
    have asking : debugger.asks? (.move .forward) = some .resume := by
      simp [asks?, move?, request?, room, continues]
    obtain ⟨next?, served⟩ := reached.exists_serve continues .resume fuel watch
    obtain ⟨_, nothing⟩ | ⟨other, rfl, handled, _⟩ := handle_of_asking asking served
    · cases nothing.symm.trans stepped
    · obtain rfl := Option.some.inj (handled.symm.trans stepped)
      exact reached.ne_of_served served alike.session

theorem Recorded.agrees_at_end (recorded : debugger.Recorded limit log)
    (reached : Session.Reached config chunks input requests debugger.session)
    (ended : debugger.atEnd = true) (unbounded : config.budget = none) (watch : Stopwatch) :
    (∃ fuel result, run fuel watch config chunks.flatten input = .ok (some result)) ∧
      ∀ fuel result, run fuel watch config chunks.flatten input = .ok (some result) →
        result.Agrees debugger.current := by
  simp only [atEnd, Bool.and_eq_true, decide_eq_true_eq, Bool.not_eq_true'] at ended
  rw [recorded.current_of_last ended.1]
  exact reached.agrees (Config.tapeSize_pos reached.valid) unbounded ended.2 watch

theorem Recorded.navigable (recorded : debugger.Recorded limit log)
    (reached : Session.Reached config chunks input requests debugger.session) :
    debugger.Navigable config chunks input where
  returns behind := recorded.forward_backward behind
  stays := by
    intro fuel watch after stepped
    cases ended : debugger.atEnd with
    | true =>
      obtain rfl := Option.some.inj ((stepForward_of_atEnd ended fuel watch).symm.trans stepped)
      exact iff_of_true ⟨rfl, rfl, rfl, rfl⟩ rfl
    | false => exact iff_of_false (not_alike_of_stepForward reached ended stepped) Bool.false_ne_true
  rests ended fuel watch := ⟨_, stepForward_of_atEnd ended fuel watch⟩
  spans := recorded.length_viewable
  tours _ bound := recorded.tour_from_start bound
  ends := recorded.agrees_at_end reached

end Laws

/-- Whatever happens to a debugger, its history and its session belong together. -/
theorem exists_recorded {config : Config} {chunks : List Text} {input source : Text} {limit : Nat}
    {requests : List Session.Request} {session : Session} {debugger : Debugger}
    (begun : Session.Reached config chunks input requests session)
    (events : Relation.ReflTransGen Steps (.start session source limit) debugger) :
    (∃ log, debugger.Recorded limit log) ∧
      ∃ requests, Session.Reached config chunks input requests debugger.session := by
  induction events with
  | refl =>
    have same : (start session source limit).session = session := by
      unfold start
      split
      rfl
    exact ⟨⟨_, recorded_start session source limit⟩, requests, same ▸ begun⟩
  | tail _ step ih =>
    obtain ⟨⟨log, recorded⟩, requests, reached⟩ := ih
    obtain ⟨fuel, watch, event, handled⟩ := step
    obtain ⟨results, produces⟩ := reached.exists_produces
    obtain ⟨turns, further⟩ := turns_of_handle produces handled
    exact ⟨⟨_, recorded.turn turns⟩, further.reached⟩

end Debugger

/-- A debugger is set up for a session at any stage, and then anything may happen to it. A step back is
undone by a step forward; a step forward changes nothing exactly at the end; from the start, steps forward
show the recorded results in their order and behind them, once recording is over, the latest one, and the
session does not go on for it; and what is shown at the end is what the whole script comes to. -/
theorem navigation_is_reversible (config : Config) (chunks : List Text) (input source : Text) (limit : Nat)
    (requests : List Session.Request) (session : Session)
    (begun : Session.Reached config chunks input requests session) (debugger : Debugger)
    (events : Relation.ReflTransGen Debugger.Steps (.start session source limit) debugger) :
    debugger.Navigable config chunks input := by
  obtain ⟨⟨log, recorded⟩, requests, reached⟩ := Debugger.exists_recorded begun events
  exact recorded.navigable reached

/-- Three results, of which two fit into the history: seen from its middle, and at the end. -/
theorem navigation_is_reversible_behind_a_full_history :
    ∃ session middle last, Session.Reached ⟨.short, 1, none⟩ [['+'], ['+'], ['+']] [] [] session ∧
      Relation.ReflTransGen Debugger.Steps (.start session ['+', '+', '+'] 400) middle ∧
      middle.position = 1 ∧ middle.recording = false ∧ middle.viewable.length = 3 ∧
      middle.Navigable ⟨.short, 1, none⟩ [['+'], ['+'], ['+']] [] ∧
      Relation.ReflTransGen Debugger.Steps (.start session ['+', '+', '+'] 400) last ∧
      last.atEnd = true ∧ last.Navigable ⟨.short, 1, none⟩ [['+'], ['+'], ['+']] [] := by
  have begun := @Session.Reached.start ⟨.short, 1, none⟩ [['+'], ['+'], ['+']] [] 9 (fun _ => 0) _ rfl
  have setUp {config chunks input session} (_ : Session.Reached config chunks input [] session) :
      Relation.ReflTransGen Debugger.Steps (.start session ['+', '+', '+'] 400) _ := .refl
  have first := (setUp begun).tail ⟨9, fun _ => 0, .key .right, rfl⟩
  have ended := first.tail ⟨9, fun _ => 0, .key .enter, rfl⟩
  have middle := ended.tail ⟨9, fun _ => 0, .key .left, rfl⟩
  exact ⟨_, _, _, begun, middle, rfl, rfl, rfl, navigation_is_reversible _ _ _ _ _ _ _ begun _ middle,
    ended, rfl, navigation_is_reversible _ _ _ _ _ _ _ begun _ ended⟩

end TapeStepper
