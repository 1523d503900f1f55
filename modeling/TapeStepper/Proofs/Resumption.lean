import TapeStepper.Proofs.Sessions

namespace TapeStepper

section Accepted

variable {config : Config} {chunks : List Text} {input : Text} {block : Block}
  {requests : List Session.Request} {session : Session}

/-- Every session has stopped somewhere on the plain run, one step further at
least with each request, and never behind its end. -/
theorem Session.Reached.standsAt (size : 0 < config.tapeSize) (unbounded : config.budget = none)
    (accepted : readScript chunks.flatten = .ok block)
    (reached : Reached config chunks input requests session) :
    ∃ place, session.StandsAt (chunkPlan config chunks block) input place ∧
      requests.length ≤ place ∧
      ∀ last store outcome, (chunkPlan config chunks block).plainRun input last =
        .halted store outcome → place ≤ last := by
  induction reached with
  | start started =>
    obtain ⟨place, first, stopped⟩ := start_standsAt size unbounded accepted started
    refine ⟨place, stopped, Nat.zero_le place, ?_⟩
    intro last store outcome ended
    exact first.le_of_stops (Nat.zero_le last) (Progress.stops_of_halted _ ended)
  | @serve requests request fuel watch before after previous served ih =>
    obtain ⟨place, stopped, count, bound⟩ := ih
    obtain ⟨stop, first, standsAt⟩ := stopped.serve unbounded served
    have onward := first.ordered
    refine ⟨stop, standsAt, by simp only [List.length_cons]; omega, ?_⟩
    intro last store outcome ended
    obtain ⟨machine, _, running, _⟩ := stopped.machine (canContinue_of_serve served)
    exact first.le_of_stops (Progress.lt_of_running running ended)
      (Progress.stops_of_halted _ ended)

end Accepted

section Rejected

variable {config : Config} {chunks : List Text} {input : Text} {rejection : Rejection}

theorem run_of_rejected (valid : config.validate = .ok ())
    (refused : readScript chunks.flatten = .error rejection) (fuel : Nat) (watch : Stopwatch) :
    run fuel watch config chunks.flatten input =
      .ok (some (rejection.result chunks.flatten (.blank config.tapeSize))) := by
  simp [run_eq_runOn valid, runOn, refused]

/-- No request is served when the script was refused. -/
theorem Session.Reached.of_rejected (valid : config.validate = .ok ())
    (refused : readScript chunks.flatten = .error rejection) {requests : List Session.Request}
    {session : Session} (reached : Reached config chunks input requests session) :
    requests = [] ∧ session.canContinue = false ∧
      session.result = rejection.result chunks.flatten (.blank config.tapeSize) := by
  induction reached with
  | start started =>
    rw [start_of_rejected valid refused] at started
    cases started
    exact ⟨rfl, rfl, rfl⟩
  | serve previous served ih =>
    have continues := canContinue_of_serve served
    rw [ih.2.1] at continues
    cases continues

end Rejected

theorem run_eq_ok_iff {config : Config} (valid : config.validate = .ok ()) {fuel : Nat}
    {watch : Stopwatch} {source input : Text} {result : Option Result} :
    run fuel watch config source input = .ok result ↔
      runOn fuel watch config source input (.blank config.tapeSize) = result := by
  rw [run_eq_runOn valid, Except.ok.injEq]

section Ends

variable {config : Config} {chunks : List Text} {input : Text} {requests : List Session.Request}
  {session : Session}

/-- A session that is over shows what the uninterrupted run shows. -/
theorem Session.Reached.agrees (size : 0 < config.tapeSize) (unbounded : config.budget = none)
    (reached : Reached config chunks input requests session) (stopsHere : session.canContinue = false)
    (watch : Stopwatch) :
    (∃ fuel result, run fuel watch config chunks.flatten input = .ok (some result)) ∧
      ∀ fuel result, run fuel watch config chunks.flatten input = .ok (some result) →
        result.Agrees session.result := by
  have valid := Config.validate_eq_ok size unbounded
  cases read : readScript chunks.flatten with
  | error rejection =>
    obtain ⟨_, _, same⟩ := reached.of_rejected valid read
    refine ⟨⟨0, _, run_of_rejected valid read 0 watch⟩, ?_⟩
    intro fuel result ran
    rw [run_of_rejected valid read] at ran
    cases ran
    rw [same]
    rfl
  | ok block =>
    obtain ⟨place, stopped, _, _⟩ := reached.standsAt size unbounded read
    obtain ⟨store, outcome, ended, shown⟩ := stopped.ended stopsHere
    simp only [run_eq_ok_iff valid]
    refine ⟨exists_runOn unbounded read ended watch, ?_⟩
    intro fuel result ran
    obtain ⟨last, elapsed, other, final, again, rfl⟩ := runOn_ended unbounded read ran
    obtain ⟨rfl, rfl⟩ := plainRun_end_unique ended again
    rw [shown]
    exact Result.agrees_ofOutcome _ _ _ _ _

/-- If the uninterrupted run ends, so does the way to the first breakpoint. -/
theorem exists_start_of_run (size : 0 < config.tapeSize) (unbounded : config.budget = none)
    {fuel : Nat} {clock : Stopwatch} {result : Result}
    (ran : run fuel clock config chunks.flatten input = .ok (some result)) (watch : Stopwatch) :
    ∃ fuel session, Session.start fuel watch config chunks input = .ok (some session) := by
  have valid := Config.validate_eq_ok size unbounded
  cases read : readScript chunks.flatten with
  | error rejection => exact ⟨0, _, start_of_rejected valid read 0 watch⟩
  | ok block =>
    obtain ⟨last, _, store, outcome, ended, _⟩ :=
      runOn_ended unbounded read ((run_eq_ok_iff valid).mp ran)
    obtain ⟨stop, _, first⟩ := Progress.exists_stopsFirst
      ((chunkPlan config chunks block).rules (chunkBreakpoints chunks)) (Nat.zero_le last)
      (Progress.stops_of_halted _ ended)
    exact exists_start size unbounded read first watch

/-- If the uninterrupted run ends, so does every request to a session that can
continue. -/
theorem Session.Reached.exists_serve_of_run (size : 0 < config.tapeSize)
    (unbounded : config.budget = none) {fuel : Nat} {clock : Stopwatch} {result : Result}
    (ran : run fuel clock config chunks.flatten input = .ok (some result))
    (reached : Reached config chunks input requests session) (continues : session.canContinue = true)
    (request : Session.Request) (watch : Stopwatch) :
    ∃ fuel next, session.serve request fuel watch = .ok (some next) := by
  have valid := Config.validate_eq_ok size unbounded
  cases read : readScript chunks.flatten with
  | error rejection =>
    rw [(reached.of_rejected valid read).2.1] at continues
    cases continues
  | ok block =>
    obtain ⟨last, _, store, outcome, ended, _⟩ :=
      runOn_ended unbounded read ((run_eq_ok_iff valid).mp ran)
    obtain ⟨place, stopped, _, _⟩ := reached.standsAt size unbounded read
    obtain ⟨machine, _, running, _⟩ := stopped.machine continues
    obtain ⟨stop, _, first⟩ := Progress.exists_stopsFirst
      ((chunkPlan config chunks block).rules (request.breakpoints (chunkPlan config chunks block)))
      (Progress.lt_of_running running ended) (Progress.stops_of_halted _ ended)
    exact stopped.exists_serve request unbounded continues first watch

/-- The steps of the plain run bound the requests, since each request takes one of
them at least. -/
theorem exists_requests_bound (size : 0 < config.tapeSize) (unbounded : config.budget = none)
    {fuel : Nat} {clock : Stopwatch} {result : Result}
    (ran : run fuel clock config chunks.flatten input = .ok (some result)) :
    ∃ bound, ∀ requests session, Session.Reached config chunks input requests session →
      requests.length ≤ bound := by
  have valid := Config.validate_eq_ok size unbounded
  cases read : readScript chunks.flatten with
  | error rejection =>
    refine ⟨0, ?_⟩
    intro requests session reached
    rw [(reached.of_rejected valid read).1]
    exact Nat.le_refl 0
  | ok block =>
    obtain ⟨last, _, store, outcome, ended, _⟩ :=
      runOn_ended unbounded read ((run_eq_ok_iff valid).mp ran)
    refine ⟨last, ?_⟩
    intro requests session reached
    obtain ⟨place, _, count, bound⟩ := reached.standsAt size unbounded read
    exact Nat.le_trans count (bound last store outcome ended)

end Ends

/-- However a script is cut into chunks and taken up again, the session ends with the
result of the uninterrupted run, the time apart. If that run ends, so does every
step of the session, and only so many requests can be made. -/
theorem session_end_agrees_with_run (config : Config) (chunks : List Text) (input : Text)
    (size : 0 < config.tapeSize) (unbounded : config.budget = none) :
    (∀ requests session, Session.Reached config chunks input requests session →
      session.canContinue = false → ∀ watch,
        (∃ fuel result, run fuel watch config chunks.flatten input = .ok (some result)) ∧
        ∀ fuel result, run fuel watch config chunks.flatten input = .ok (some result) →
          result.Agrees session.result) ∧
    ((∃ fuel watch result, run fuel watch config chunks.flatten input = .ok (some result)) →
      (∀ watch, ∃ fuel session, Session.start fuel watch config chunks input = .ok (some session)) ∧
      (∀ requests session, Session.Reached config chunks input requests session →
        session.canContinue = true → ∀ request watch, ∃ fuel next,
          session.serve request fuel watch = .ok (some next)) ∧
      ∃ bound, ∀ requests session, Session.Reached config chunks input requests session →
        requests.length ≤ bound) := by
  refine ⟨?_, ?_⟩
  · intro requests session reached stopsHere watch
    exact reached.agrees size unbounded stopsHere watch
  · rintro ⟨fuel, clock, result, ran⟩
    refine ⟨exists_start_of_run size unbounded ran, ?_, exists_requests_bound size unbounded ran⟩
    intro requests session reached continues request watch
    exact reached.exists_serve_of_run size unbounded ran continues request watch

/-- A script that is paused inside its loop `[-]`, twice, before it ends. -/
theorem session_end_agrees_with_run_countdown :
    ∃ session, Session.Reached ⟨.short, 1, none⟩ [['+', '+', '['], ['-', ']']] []
        [.resume, .resume] session ∧ session.canContinue = false ∧
      ∃ fuel result, run fuel (fun _ => 0) ⟨.short, 1, none⟩ ['+', '+', '[', '-', ']'] [] =
        .ok (some result) ∧ result.Agrees session.result := by
  have first := @Session.Reached.start ⟨.short, 1, none⟩ [['+', '+', '['], ['-', ']']] []
    9 (fun _ => 0) _ rfl
  have second := @Session.Reached.serve _ _ _ _ .resume 9 (fun _ => 0) _ _ first rfl
  have third := @Session.Reached.serve _ _ _ _ .resume 9 (fun _ => 0) _ _ second rfl
  obtain ⟨⟨fuel, result, ran⟩, agrees⟩ :=
    (session_end_agrees_with_run _ _ _ (by decide) rfl).1 _ _ third rfl (fun _ => 0)
  exact ⟨_, third, rfl, fuel, result, ran, agrees fuel result ran⟩

end TapeStepper
