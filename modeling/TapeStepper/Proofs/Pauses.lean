import TapeStepper.Proofs.Sessions
import Mathlib.Data.Nat.Count

namespace TapeStepper

namespace Progress

/-- The operator that a run is about to execute. -/
def upcoming? : Progress → Option Token
  | running machine => machine.stack.inner.current?
  | halted _ _ => none

/-- Whether a run is about to execute an operator at one of these offsets. -/
def hits (offsets : List Nat) (progress : Progress) : Bool :=
  progress.upcoming?.any fun token => offsets.contains token.offset

theorem hits_running_iff {offsets : List Nat} {machine : Machine} :
    (running machine).hits offsets = true ↔ machine.Meets (.ofList offsets) := by
  unfold hits upcoming? Machine.Meets
  rw [Level.isOver_eq, Breakpoints.has_ofList]
  cases here : machine.stack.inner.current? with
  | none => simp [here]
  | some token => simp [here, Level.offset_of_current? here]

theorem stops_of_hits {offsets : List Nat} {progress : Progress}
    (hit : progress.hits offsets = true) : progress.Stops (.ofList offsets) := by
  cases progress with
  | running machine => exact hits_running_iff.mp hit
  | halted store outcome => trivial

end Progress

def hitsBefore (offsets : List Nat) (moments : Nat → Progress) (place : Nat) : Nat :=
  Nat.count (fun earlier => (moments earlier).hits offsets = true) place

theorem hitsBefore_succ_of_hit {offsets : List Nat} {moments : Nat → Progress} {place : Nat}
    (hit : (moments place).hits offsets = true) :
    hitsBefore offsets moments (place + 1) = hitsBefore offsets moments place + 1 := by
  rw [hitsBefore, Nat.count_succ, if_pos hit, hitsBefore]

theorem hitsBefore_succ_of_miss {offsets : List Nat} {moments : Nat → Progress} {place : Nat}
    (miss : ¬ (moments place).hits offsets = true) :
    hitsBefore offsets moments (place + 1) = hitsBefore offsets moments place := by
  rw [hitsBefore, Nat.count_succ, if_neg miss, Nat.add_zero, hitsBefore]

/-- Step `place` of the run is the hit number `index`, counted from zero. -/
def IsHit (offsets : List Nat) (moments : Nat → Progress) (index place : Nat) : Prop :=
  (moments place).hits offsets = true ∧ hitsBefore offsets moments place = index

namespace IsHit

variable {offsets : List Nat} {moments : Nat → Progress} {index place other : Nat}

theorem unique (hit : IsHit offsets moments index place) (again : IsHit offsets moments index other) :
    other = place :=
  Nat.count_injective again.1 hit.1 (again.2.trans hit.2.symm)

theorem lt_hitsBefore (hit : IsHit offsets moments index place) (later : place < other) :
    index < hitsBefore offsets moments other := by
  rw [← hit.2]
  exact Nat.count_strict_mono hit.1 later

theorem exists_of_hitsBefore (counted : hitsBefore offsets moments place = index + 1) :
    ∃ earlier, IsHit offsets moments index earlier := by
  induction place with
  | zero => simp [hitsBefore] at counted
  | succ place ih =>
    by_cases hit : (moments place).hits offsets = true
    · rw [hitsBefore_succ_of_hit hit] at counted
      exact ⟨place, hit, Nat.succ.inj counted⟩
    · rw [hitsBefore_succ_of_miss hit] at counted
      exact ih counted

end IsHit

/-- The result of a pause in this state of the plain run. -/
def Result.ShowsPause (progress : Progress) (result : Result) : Prop :=
  ∃ machine token, progress = .running machine ∧ progress.upcoming? = some token ∧
    result.breakpoint = some token.offset ∧ result.tape = machine.store.tape ∧
    result.output = machine.store.output.chars ∧ result.operations = machine.store.operations ∧
    result.functions = machine.store.functions.listing

section Hits

variable {plan : Plan} {input : Text} {offsets : List Nat} {start stop : Nat}

/-- There is no hit on the way to a stop. -/
theorem count_hits_of_stopsFirst
    (first : Progress.StopsFirst (plan.rules offsets) (plan.origin input) start stop) :
    hitsBefore offsets (plan.plainRun input) stop = hitsBefore offsets (plan.plainRun input) start := by
  refine Nat.le_antisymm ?_ (Nat.count_monotone _ first.ordered)
  by_contra more
  obtain ⟨between, ⟨after, before⟩, hit⟩ := Nat.exists_of_count_lt_count (Nat.lt_of_not_le more)
  exact first.first between after before (Progress.stops_of_hits hit)

/-- A hit is a moment of the run and not behind its end. -/
theorem hit_lt_end {place last : Nat} {store : Store} {outcome : Outcome}
    (hit : (plan.plainRun input place).hits offsets = true)
    (ended : plan.plainRun input last = .halted store outcome) : place < last := by
  cases stands : plan.plainRun input place with
  | running machine => exact Progress.lt_of_running stands ended
  | halted store outcome =>
    rw [stands] at hit
    cases hit

theorem Session.StandsAt.showsPause {session : Session} {place : Nat}
    (stopped : session.StandsAt plan input place) (continues : session.canContinue = true) :
    session.result.ShowsPause (plan.plainRun input place) := by
  obtain @⟨elapsed, store, outcome, stands, inside⟩ := stopped
  cases outcome with
  | paused stack =>
    have current := inside stack rfl
    rw [Level.isOver_eq, Option.isNone_eq_false_iff] at current
    obtain ⟨token, here⟩ := Option.isSome_iff_exists.mp current
    refine ⟨⟨store, stack, true⟩, token, stands, ?_, ?_, rfl, rfl, rfl, rfl⟩
    · rw [stands]
      exact here
    · rw [← Level.offset_of_current? here]
      rfl
  | finished | failed _ _ | overran _ =>
    simp [canContinue, Plan.settle, Outcome.resumePoint?] at continues

end Hits

section Accepted

variable {config : Config} {chunks : List Text} {input : Text} {block : Block}

/-- After so many requests to resume, the session has stopped at the hit of that
number, or at the end of a run that has only so many hits. -/
theorem Session.Reached.count_hits (size : 0 < config.tapeSize) (unbounded : config.budget = none)
    (accepted : readScript chunks.flatten = .ok block) {count : Nat} {session : Session}
    (reached : Reached config chunks input (List.replicate count .resume) session) :
    ∃ place, session.StandsAt (chunkPlan config chunks block) input place ∧
      ((chunkPlan config chunks block).plainRun input place).Stops
        (.ofList (chunkBreakpoints chunks)) ∧
      hitsBefore (chunkBreakpoints chunks) ((chunkPlan config chunks block).plainRun input) place =
        count := by
  induction count generalizing session with
  | zero =>
    cases reached with
    | start started =>
      obtain ⟨place, first, stopped⟩ := start_standsAt size unbounded accepted started
      exact ⟨place, stopped, first.stops, (count_hits_of_stopsFirst first).trans (Nat.count_zero _)⟩
  | succ count ih =>
    rw [List.replicate_succ] at reached
    cases reached with
    | serve previous served =>
      obtain ⟨place, stopped, stops, counted⟩ := ih previous
      obtain ⟨machine, _, stands, _⟩ := stopped.machine (canContinue_of_serve served)
      obtain ⟨stop, first, standsAt⟩ := stopped.serve unbounded served
      refine ⟨stop, standsAt, first.stops, ?_⟩
      have hit : ((chunkPlan config chunks block).plainRun input place).hits
          (chunkBreakpoints chunks) = true := by
        rw [stands] at stops ⊢
        exact Progress.hits_running_iff.mpr stops
      rw [← counted, ← hitsBefore_succ_of_hit hit]
      exact count_hits_of_stopsFirst first

/-- A session that has resumed so often can continue exactly if there is a hit of
that number, and shows the run at that hit. -/
theorem Session.Reached.continues_iff_hit (size : 0 < config.tapeSize)
    (unbounded : config.budget = none) (accepted : readScript chunks.flatten = .ok block)
    {count : Nat} {session : Session}
    (reached : Reached config chunks input (List.replicate count .resume) session) :
    (session.canContinue = true ↔ ∃ place, IsHit (chunkBreakpoints chunks)
      ((chunkPlan config chunks block).plainRun input) count place) ∧
    ∀ place, IsHit (chunkBreakpoints chunks) ((chunkPlan config chunks block).plainRun input)
      count place → session.result.ShowsPause ((chunkPlan config chunks block).plainRun input place) := by
  obtain ⟨place, stopped, stops, counted⟩ := reached.count_hits size unbounded accepted
  have continues_of_hit : ∀ other, IsHit (chunkBreakpoints chunks)
      ((chunkPlan config chunks block).plainRun input) count other →
      session.canContinue = true := by
    intro other hit
    by_contra stuck
    obtain ⟨store, outcome, ended, _⟩ := stopped.ended (eq_false_of_ne_true stuck)
    have more := hit.lt_hitsBefore (hit_lt_end hit.1 ended)
    omega
  have hit_of_continues : session.canContinue = true →
      ((chunkPlan config chunks block).plainRun input place).hits (chunkBreakpoints chunks) = true := by
    intro continues
    obtain ⟨machine, _, stands, _⟩ := stopped.machine continues
    rw [stands] at stops ⊢
    exact Progress.hits_running_iff.mpr stops
  refine ⟨⟨?_, ?_⟩, ?_⟩
  · exact fun continues => ⟨place, hit_of_continues continues, counted⟩
  · rintro ⟨other, hit⟩
    exact continues_of_hit other hit
  · intro other hit
    have continues := continues_of_hit other hit
    rw [hit.unique ⟨hit_of_continues continues, counted⟩] at stopped
    exact stopped.showsPause continues

/-- Every hit is come to by resuming as often as there are hits before it. -/
theorem exists_reached_of_hit (size : 0 < config.tapeSize) (unbounded : config.budget = none)
    (accepted : readScript chunks.flatten = .ok block) {count place : Nat}
    (hit : IsHit (chunkBreakpoints chunks) ((chunkPlan config chunks block).plainRun input)
      count place) :
    ∃ session, Session.Reached config chunks input (List.replicate count .resume) session := by
  induction count generalizing place with
  | zero =>
    obtain ⟨stop, _, first⟩ := Progress.exists_stopsFirst
      ((chunkPlan config chunks block).rules (chunkBreakpoints chunks)) (Nat.zero_le place)
      (Progress.stops_of_hits hit.1)
    obtain ⟨fuel, session, started⟩ := exists_start size unbounded accepted first fun _ => 0
    exact ⟨session, .start started⟩
  | succ count ih =>
    -- The session has paused at the hit before this one, so there is a stop ahead.
    obtain ⟨earlier, previous⟩ := IsHit.exists_of_hitsBefore hit.2
    obtain ⟨session, reached⟩ := ih previous
    have continues := (reached.continues_iff_hit size unbounded accepted).1.mpr ⟨earlier, previous⟩
    obtain ⟨paused, stopped, _, counted⟩ := reached.count_hits size unbounded accepted
    have ahead : paused < place := by
      refine Nat.lt_of_count_lt_count (lt_of_eq_of_lt counted ?_)
      exact lt_of_lt_of_eq (Nat.lt_succ_self count) hit.2.symm
    obtain ⟨stop, _, first⟩ := Progress.exists_stopsFirst
      ((chunkPlan config chunks block).rules (chunkBreakpoints chunks)) ahead
      (Progress.stops_of_hits hit.1)
    obtain ⟨fuel, next, served⟩ := stopped.exists_serve .resume unbounded continues first
      fun _ => 0
    exact ⟨next, .serve reached served⟩

end Accepted

/-- The pauses of a session that is resumed again and again are the moments, in order,
at which the plain run is about to execute an operator at a breakpoint: the session
can continue exactly if there is a hit of its number, each hit is come to, and a
pause shows what the plain run has at that moment. -/
theorem session_pauses_at_hits (config : Config) (chunks : List Text) (input : Text) (block : Block)
    (size : 0 < config.tapeSize) (unbounded : config.budget = none)
    (accepted : readScript chunks.flatten = .ok block) (count : Nat) :
    (∀ session, Session.Reached config chunks input (List.replicate count .resume) session →
      session.breakpoints = chunkBreakpoints chunks ∧
      (session.canContinue = true ↔ ∃ place, IsHit session.breakpoints
        (plainRun config.mode block input (.blank config.tapeSize)) count place) ∧
      ∀ place, IsHit session.breakpoints
        (plainRun config.mode block input (.blank config.tapeSize)) count place →
          session.result.ShowsPause (plainRun config.mode block input (.blank config.tapeSize) place)) ∧
    (∀ place, IsHit (chunkBreakpoints chunks)
      (plainRun config.mode block input (.blank config.tapeSize)) count place →
        ∃ session, Session.Reached config chunks input (List.replicate count .resume) session) := by
  refine ⟨?_, fun place hit => exists_reached_of_hit size unbounded accepted hit⟩
  intro session reached
  obtain ⟨_, stopped, _, _⟩ := reached.count_hits size unbounded accepted
  have offsets : session.breakpoints = chunkBreakpoints chunks := by
    rw [Session.breakpoints, stopped.plan_eq]
    rfl
  rw [offsets]
  exact ⟨rfl, reached.continues_iff_hit size unbounded accepted⟩

/-- The `-` of a loop `[-]` is a breakpoint. Resuming once leads to its second hit,
which is step 5 of the plain run. -/
theorem session_pauses_at_hits_countdown :
    ∃ session, Session.Reached ⟨.short, 1, none⟩ [['+', '+', '['], ['-', ']']] [] [.resume] session ∧
      session.canContinue = true ∧ session.result.ShowsPause (plainRun .short
        (.act 0 .plus (.act 1 .plus (.loop 2 (.act 3 .minus .done) 4 .done))) [] (.blank 1) 5) := by
  have hit : IsHit [3] (plainRun .short
      (.act 0 .plus (.act 1 .plus (.loop 2 (.act 3 .minus .done) 4 .done))) [] (.blank 1)) 1 5 :=
    ⟨by decide, by decide⟩
  have pauses := session_pauses_at_hits ⟨.short, 1, none⟩ [['+', '+', '['], ['-', ']']] []
    (.act 0 .plus (.act 1 .plus (.loop 2 (.act 3 .minus .done) 4 .done))) (by decide) rfl rfl 1
  obtain ⟨session, reached⟩ := pauses.2 5 hit
  obtain ⟨offsets, continues, shows⟩ := pauses.1 session reached
  rw [offsets] at continues shows
  exact ⟨session, reached, continues.mpr ⟨5, hit⟩, shows 5 hit⟩

end TapeStepper
