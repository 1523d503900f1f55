import TapeStepper.Display
import TapeStepper.Proofs.Attained
import Mathlib.Logic.Relation

namespace TapeStepper

/-- The results that a session of the chunks has produced, in their order. -/
inductive Session.Produces (config : Config) (chunks : List Text) (input : Text) :
    List Result → Session → Prop
  | start {fuel watch session} : Session.start fuel watch config chunks input = .ok (some session) →
      Produces config chunks input [session.result] session
  | serve {results request fuel watch before after} : Produces config chunks input results before →
      before.serve request fuel watch = .ok (some after) →
      Produces config chunks input (results ++ [after.result]) after

theorem Session.Produces.reached {config : Config} {chunks : List Text} {input : Text}
    {results : List Result} {session : Session}
    (produces : Produces config chunks input results session) :
    ∃ requests, Reached config chunks input requests session := by
  induction produces with
  | start started => exact ⟨[], .start started⟩
  | @serve _ request _ _ _ _ _ served ih =>
    obtain ⟨requests, reached⟩ := ih
    exact ⟨request :: requests, reached.serve served⟩

theorem History.lt_of_push {history : History} {result : Result} {full : HistoryFull}
    (pushed : history.push result = .error full) :
    history.limit < history.used + result.estimatedSize := by
  unfold push at pushed
  split at pushed
  · cases pushed
  · rename_i large
    exact Nat.lt_of_not_le large

namespace Debugger

inductive Move
  | forward | backward | toEnd | toStart
  deriving DecidableEq

/-- What can happen to a debugger. A key that comes too soon after the last one may be passed over. -/
inductive Event
  | move (move : Move)
  | key (key : Key)
  | passedOver (key : Key)
  | tick
  | draw (width height : Nat)

def make (fuel : Nat) (watch : Stopwatch) (debugger : Debugger) : Move → Option Debugger
  | .forward => debugger.stepForward fuel watch
  | .backward => some debugger.stepBackward
  | .toEnd => debugger.jumpToEnd fuel watch
  | .toStart => some debugger.jumpToStart

def handle (fuel : Nat) (watch : Stopwatch) (debugger : Debugger) : Event → Option Debugger
  | .move move => debugger.make fuel watch move
  | .key key => debugger.press fuel watch key
  | .passedOver _ => some debugger
  | .tick => debugger.tick fuel watch
  | .draw width height => some (debugger.settle width height)

/-- The move that an event makes. -/
def move? (debugger : Debugger) : Event → Option Move
  | .move move => some move
  | .key .left => some .backward
  | .key .right | .key (.char 'n') => some .forward
  | .key .enter => some .toEnd
  | .key .backspace => some .toStart
  | .tick => if debugger.playing && !debugger.atEnd then some .forward else none
  | .key _ | .passedOver _ | .draw _ _ => none

/-- What a move asks of the session. A step forward asks only at the last position. -/
def request? (debugger : Debugger) : Move → Option Session.Request
  | .forward =>
    if debugger.position < debugger.lastPosition then none
    else if debugger.session.canContinue then some .resume else none
  | .toEnd => if debugger.session.canContinue then some .complete else none
  | .backward | .toStart => none

def asks? (debugger : Debugger) (event : Event) : Option Session.Request :=
  (debugger.move? event).bind debugger.request?

/-- The debuggers that the chunks lead to, each with the results that its session has produced. Fuel
and clock are free at every event. -/
inductive Reached (config : Config) (chunks : List Text) (input source : Text) (limit : Nat) :
    List Result → Debugger → Prop
  | start {fuel watch session} : Session.start fuel watch config chunks input = .ok (some session) →
      Reached config chunks input source limit [session.result] (.start session source limit)
  | handle {log before after} (fuel : Nat) (watch : Stopwatch) (event : Event) :
      Reached config chunks input source limit log before →
      before.handle fuel watch event = some after →
      Reached config chunks input source limit
        (log ++ ((before.asks? event).map fun _ => after.session.result).toList) after

/-- The same place in the same history is shown, for the same session. -/
structure Alike (debugger other : Debugger) : Prop where
  session : other.session = debugger.session
  history : other.history = debugger.history
  recording : other.recording = debugger.recording
  position : other.position = debugger.position

/-- What an event can do to the session, the history and the position: it shows another result, or
the session goes on and its new result is shown, from the history or, if that is full, behind it. -/
inductive Turns (before after : Debugger) : Option Session.Request → Prop
  | shows : after.session = before.session → after.history = before.history →
      after.recording = before.recording →
      after.position ≤ max before.position before.lastPosition → Turns before after none
  | records {request} : before.recording = true → after.recording = true →
      before.history.push after.session.result = .ok after.history →
      after.position = after.history.length - 1 → Turns before after (some request)
  | passes {request} : after.recording = false → after.history = before.history →
      (before.recording = true →
        before.history.limit < before.history.used + after.session.result.estimatedSize) →
      after.position = after.history.length → Turns before after (some request)

section Steps

variable {debugger before after : Debugger} {fuel : Nat} {watch : Stopwatch} {event : Event}
  {request : Session.Request}

theorem Alike.stopPlaying (debugger : Debugger) : debugger.Alike debugger.stopPlaying :=
  ⟨rfl, rfl, rfl, rfl⟩

theorem Alike.lastPosition {other : Debugger} (alike : debugger.Alike other) :
    other.lastPosition = debugger.lastPosition := by
  rw [Debugger.lastPosition, Debugger.lastPosition, alike.recording, alike.history]

theorem Alike.request? {other : Debugger} (alike : debugger.Alike other) :
    other.request? = debugger.request? := by
  funext move
  cases move with
  | forward => simp only [Debugger.request?, alike.lastPosition, alike.position, alike.session]
  | toEnd => simp only [Debugger.request?, alike.session]
  | backward | toStart => rfl

/-- An event that makes no move changes nothing that matters; any other does what its move does. -/
theorem handle_cases (fuel : Nat) (watch : Stopwatch) (debugger : Debugger) (event : Event) :
    (debugger.move? event = none ∧ ∃ after, debugger.handle fuel watch event = some after ∧
      debugger.Alike after) ∨
    ∃ move start, debugger.move? event = some move ∧ debugger.Alike start ∧
      debugger.handle fuel watch event = start.make fuel watch move := by
  have self : debugger.Alike debugger := ⟨rfl, rfl, rfl, rfl⟩
  cases event with
  | move move => exact .inr ⟨move, debugger, rfl, self, rfl⟩
  | passedOver key => exact .inl ⟨rfl, debugger, rfl, self⟩
  | draw width height => exact .inl ⟨rfl, _, rfl, ⟨rfl, rfl, rfl, rfl⟩⟩
  | tick =>
    by_cases playing : debugger.playing = true
    · by_cases behind : debugger.atEnd = true
      · refine .inl ⟨by simp [move?, behind], debugger.stopPlaying.say "Playback complete", ?_, ?_⟩
        · simp [handle, tick, playing, behind]
        · exact ⟨rfl, rfl, rfl, rfl⟩
      · refine .inr ⟨.forward, debugger, by simp [move?, playing, behind], self, ?_⟩
        simp [handle, tick, playing, behind, make]
    · exact .inl ⟨by simp [move?, playing], debugger, by simp [handle, tick, playing], self⟩
  | key key =>
    cases key with
    | left => exact .inr ⟨.backward, _, rfl, .stopPlaying debugger, rfl⟩
    | right => exact .inr ⟨.forward, _, rfl, .stopPlaying debugger, rfl⟩
    | enter => exact .inr ⟨.toEnd, _, rfl, .stopPlaying debugger, rfl⟩
    | backspace => exact .inr ⟨.toStart, _, rfl, .stopPlaying debugger, rfl⟩
    | tab | backtab | up | down | other => exact .inl ⟨rfl, _, rfl, ⟨rfl, rfl, rfl, rfl⟩⟩
    | char c =>
      by_cases next : c = 'n'
      · subst next
        exact .inr ⟨.forward, _, rfl, .stopPlaying debugger, rfl⟩
      · by_cases space : c = ' '
        · subst space
          exact .inl ⟨rfl, _, rfl, ⟨rfl, rfl, rfl, rfl⟩⟩
        · refine .inl ⟨?_, debugger, ?_, self⟩
          · simp [move?, next]
          · simp [handle, press]

/-- Before the last position a step forward shows the next result. -/
theorem stepForward_of_lt (room : debugger.position < debugger.lastPosition) (fuel : Nat)
    (watch : Stopwatch) : debugger.stepForward fuel watch = some (showOutputEnd
      { debugger with position := debugger.position + 1, status := "Stepped forward" }) := by
  rw [stepForward, if_pos room]
  rfl

/-- A move that asks nothing shows a result that is there. -/
theorem make_of_silent {move : Move} (silent : debugger.request? move = none) (fuel : Nat)
    (watch : Stopwatch) :
    ∃ after, debugger.make fuel watch move = some after ∧ debugger.Turns after none := by
  cases move with
  | forward =>
    simp only [request?] at silent
    by_cases room : debugger.position < debugger.lastPosition
    · have bound : debugger.position + 1 ≤ debugger.lastPosition := room
      exact ⟨_, stepForward_of_lt room fuel watch,
        .shows rfl rfl rfl (Nat.le_trans bound (Nat.le_max_right ..))⟩
    · rw [if_neg room] at silent
      have closed : debugger.session.canContinue = false := by simpa using silent
      have made : debugger.make fuel watch .forward =
          some (showOutputEnd (debugger.say "Execution finished")) := by
        simp [make, stepForward, room, closed]
      exact ⟨_, made, .shows rfl rfl rfl (Nat.le_max_left ..)⟩
  | backward =>
    refine ⟨_, rfl, ?_⟩
    unfold stepBackward
    split
    · exact .shows rfl rfl rfl (Nat.le_trans (Nat.sub_le ..) (Nat.le_max_left ..))
    · exact .shows rfl rfl rfl (Nat.le_max_left ..)
  | toEnd =>
    have closed : debugger.session.canContinue = false := by simpa [request?] using silent
    have made : debugger.make fuel watch .toEnd = some (showOutputEnd
        { debugger with position := debugger.lastPosition, status := "Jumped to end" }) := by
      simp [make, jumpToEnd, closed]
    exact ⟨_, made, .shows rfl rfl rfl (Nat.le_max_right ..)⟩
  | toStart => exact ⟨_, rfl, .shows rfl rfl rfl (Nat.zero_le _)⟩

/-- A move that asks something takes over what the session answers. -/
theorem make_of_asking {move : Move} (asking : debugger.request? move = some request) (fuel : Nat)
    (watch : Stopwatch) : debugger.session.canContinue = true ∧
      ∃ message, debugger.make fuel watch move =
        showOutputEnd <$> debugger.adopt message (debugger.session.serve request fuel watch) := by
  cases move with
  | forward =>
    simp only [request?] at asking
    split at asking
    · cases asking
    · rename_i last
      split at asking
      · rename_i continues
        cases asking
        refine ⟨continues, "Continued to next breakpoint", ?_⟩
        simp only [make, stepForward, if_neg last, if_pos continues]
        rfl
      · cases asking
  | toEnd =>
    simp only [request?] at asking
    split at asking
    · rename_i continues
      cases asking
      refine ⟨continues, "Ran to completion", ?_⟩
      simp only [make, jumpToEnd, if_pos continues]
      rfl
    · cases asking
  | backward | toStart => cases asking

theorem turns_record (request : Session.Request) (message : String) (debugger : Debugger)
    (session : Session) :
    debugger.Turns (showOutputEnd (record message { debugger with session })) (some request) := by
  unfold record
  split
  · rename_i recording
    split
    · rename_i history pushed
      exact .records recording recording pushed rfl
    · rename_i full pushed
      exact .passes rfl rfl (fun _ => History.lt_of_push pushed) rfl
  · rename_i stopped
    exact .passes (Bool.eq_false_iff.mpr stopped) rfl (fun recording => absurd recording stopped) rfl

theorem session_record (message : String) (debugger : Debugger) (session : Session) :
    (showOutputEnd (record message { debugger with session })).session = session := by
  unfold record
  split
  · split <;> rfl
  · rfl

theorem Alike.turns {start : Debugger} {request? : Option Session.Request}
    (alike : debugger.Alike start) (turns : start.Turns after request?) :
    debugger.Turns after request? := by
  cases turns with
  | shows session history recording position =>
    rw [alike.session] at session
    rw [alike.history] at history
    rw [alike.recording] at recording
    rw [alike.position, alike.lastPosition] at position
    exact .shows session history recording position
  | records recording recorded pushed position =>
    rw [alike.recording] at recording
    rw [alike.history] at pushed
    exact .records recording recorded pushed position
  | passes stopped history full position =>
    rw [alike.history] at history full
    rw [alike.recording] at full
    exact .passes stopped history full position

/-- An event that asks nothing of the session does not fail. -/
theorem handle_of_silent (silent : debugger.asks? event = none) (fuel : Nat) (watch : Stopwatch) :
    ∃ after, debugger.handle fuel watch event = some after ∧ debugger.Turns after none := by
  obtain ⟨_, after, handled, alike⟩ | ⟨move, start, moves, alike, handled⟩ :=
    handle_cases fuel watch debugger event
  · refine ⟨after, handled, .shows alike.session alike.history alike.recording ?_⟩
    rw [alike.position]
    exact Nat.le_max_left ..
  · rw [asks?, moves, Option.bind_some, ← alike.request?] at silent
    obtain ⟨after, made, turns⟩ := make_of_silent silent fuel watch
    exact ⟨after, handled.trans made, alike.turns turns⟩

/-- An event that asks something of the session ends if the session's run does, and shows what the
session has come to. -/
theorem handle_of_asking (asking : debugger.asks? event = some request) {next? : Option Session}
    (served : debugger.session.serve request fuel watch = .ok next?) :
    (next? = none ∧ debugger.handle fuel watch event = none) ∨
    ∃ after, next? = some after.session ∧ debugger.handle fuel watch event = some after ∧
      debugger.Turns after (some request) := by
  obtain ⟨silent, _⟩ | ⟨move, start, moves, alike, handled⟩ := handle_cases fuel watch debugger event
  · rw [asks?, silent] at asking
    cases asking
  · rw [asks?, moves, Option.bind_some, ← alike.request?] at asking
    obtain ⟨_, message, made⟩ := make_of_asking asking fuel watch
    rw [alike.session, served] at made
    rw [handled, made]
    cases next? with
    | none => exact .inl ⟨rfl, rfl⟩
    | some session =>
      refine .inr ⟨_, ?_, rfl, alike.turns (turns_record request message start session)⟩
      exact congrArg some (session_record message start session).symm

theorem canContinue_of_asking (asking : debugger.asks? event = some request) :
    debugger.session.canContinue = true := by
  obtain ⟨move, moves, asking⟩ := Option.bind_eq_some_iff.mp asking
  exact (make_of_asking asking 0 fun _ => 0).1

theorem asking_cases (asking : debugger.asks? event = some request) :
    (debugger.move? event = some .forward ∧ debugger.lastPosition ≤ debugger.position ∧
      request = .resume) ∨ debugger.move? event = some .toEnd ∧ request = .complete := by
  obtain ⟨move, moves, asking⟩ := Option.bind_eq_some_iff.mp asking
  cases move with
  | forward =>
    simp only [request?] at asking
    split at asking
    · cases asking
    · rename_i last
      split at asking <;> cases asking
      exact .inl ⟨moves, Nat.le_of_not_lt last, rfl⟩
  | toEnd =>
    simp only [request?] at asking
    split at asking <;> cases asking
    exact .inr ⟨moves, rfl⟩
  | backward | toStart => cases asking

end Steps

/-- The history is what the session has produced, as long as it was recorded. -/
structure Recorded (limit : Nat) (log : List Result) (debugger : Debugger) : Prop where
  limit : debugger.history.limit = limit
  latest : log.getLast? = some debugger.session.result
  held : debugger.history.results <+: log
  whole : debugger.recording = true → debugger.history.results = log
  within : debugger.position ≤ debugger.lastPosition

section Invariant

variable {limit : Nat} {log : List Result} {debugger before after : Debugger}
  {request? : Option Session.Request}

theorem recorded_start (session : Session) (source : Text) (limit : Nat) :
    (start session source limit).Recorded limit [session.result] := by
  unfold start
  cases pushed : (History.empty limit).push session.result with
  | ok history =>
    obtain ⟨results, same⟩ := History.results_push pushed
    have all : history.results = [session.result] := results
    exact ⟨same, rfl, ⟨[], by rw [all, List.append_nil]⟩, fun _ => all, Nat.zero_le _⟩
  | error full => exact ⟨rfl, rfl, List.nil_prefix, nofun, Nat.zero_le _⟩

theorem Recorded.turn (recorded : before.Recorded limit log) (turns : before.Turns after request?) :
    after.Recorded limit (log ++ (request?.map fun _ => after.session.result).toList) := by
  cases turns with
  | shows session history recording position =>
    have last : after.lastPosition = before.lastPosition := by
      rw [lastPosition, lastPosition, recording, history]
    rw [Nat.max_eq_right recorded.within] at position
    rw [Option.map_none, Option.toList_none, List.append_nil]
    refine ⟨?_, ?_, ?_, ?_, last ▸ position⟩
    · rw [history, recorded.limit]
    · rw [session, recorded.latest]
    · rw [history]
      exact recorded.held
    · rw [recording, history]
      exact recorded.whole
  | records recording still pushed position =>
    -- All earlier results are held, so the new one stands in its own place.
    obtain ⟨results, same⟩ := History.results_push pushed
    rw [recorded.whole recording] at results
    rw [Option.map_some, Option.toList_some]
    refine ⟨same.trans recorded.limit, List.getLast?_concat .., ?_, fun _ => results, ?_⟩
    · exact ⟨[], by rw [results, List.append_nil]⟩
    · rw [lastPosition, if_pos still]
      exact Nat.le_of_eq position
  | passes stopped history full position =>
    rw [Option.map_some, Option.toList_some]
    refine ⟨?_, List.getLast?_concat .., ?_, ?_, ?_⟩
    · rw [history, recorded.limit]
    · rw [history]
      exact recorded.held.trans (List.prefix_append ..)
    · rw [stopped]
      nofun
    · rw [lastPosition, stopped]
      exact Nat.le_of_eq position

/-- At the last position the latest result is shown. -/
theorem Recorded.current_of_last (recorded : debugger.Recorded limit log)
    (last : debugger.lastPosition ≤ debugger.position) : debugger.current = debugger.session.result := by
  have here : debugger.position = debugger.lastPosition := Nat.le_antisymm recorded.within last
  unfold current History.get?
  rw [here]
  cases recording : debugger.recording with
  | true =>
    have latest := recorded.latest
    rw [← recorded.whole recording, List.getLast?_eq_getElem?] at latest
    have place : debugger.lastPosition = debugger.history.results.length - 1 := if_pos recording
    rw [place, latest, Option.getD_some]
  | false =>
    have place : debugger.lastPosition = debugger.history.results.length := by
      rw [lastPosition, recording]
      rfl
    rw [place, List.getElem?_eq_none (Nat.le_refl _), Option.getD_none]

theorem Turns.at_last {request : Session.Request} (turns : before.Turns after (some request)) :
    after.lastPosition ≤ after.position := by
  cases turns with
  | records recording recorded pushed position =>
    rw [lastPosition, if_pos recorded]
    exact Nat.le_of_eq position.symm
  | passes stopped history full position =>
    rw [lastPosition, stopped]
    exact Nat.le_of_eq position.symm

/-- A history that is not recorded any more stays as it is. -/
theorem Turns.of_stopped (turns : before.Turns after request?) (stopped : before.recording = false) :
    after.history = before.history ∧ after.recording = false := by
  cases turns with
  | shows session history recording position => exact ⟨history, recording.trans stopped⟩
  | records recording recorded pushed position => cases stopped.symm.trans recording
  | passes stopped history full position => exact ⟨history, stopped⟩

/-- Recording ends only with a result that does not fit. -/
theorem Turns.fills (turns : before.Turns after request?) (recording : before.recording = true)
    (stopped : after.recording = false) :
    before.history.limit < before.history.used + after.session.result.estimatedSize := by
  cases turns with
  | shows session history same position => cases (same.trans recording).symm.trans stopped
  | records _ still pushed position => cases still.symm.trans stopped
  | passes _ history full position => exact full recording

end Invariant

/-- What a debugger shows, and what it holds, of the results that its session has produced. -/
structure Faithful (limit : Nat) (log : List Result) (debugger : Debugger) : Prop where
  held : debugger.history.results <+: log
  recording : debugger.recording = true →
    debugger.history.results = log ∧ debugger.position < debugger.history.length
  stopped : debugger.recording = false → debugger.position ≤ debugger.history.length
  used : debugger.history.used = totalOf Result.estimatedSize debugger.history.results
  bounded : debugger.history.used ≤ limit
  shown : debugger.position < debugger.history.length → log[debugger.position]? = some debugger.current
  live : debugger.history.length ≤ debugger.position → debugger.current = debugger.session.result
  latest : log.getLast? = some debugger.session.result
  last : debugger.lastPosition ≤ debugger.position → debugger.current = debugger.session.result

theorem Recorded.faithful {limit : Nat} {log : List Result} {debugger : Debugger}
    (recorded : debugger.Recorded limit log) : debugger.Faithful limit log where
  held := recorded.held
  recording := by
    intro recording
    have whole := recorded.whole recording
    have within := recorded.within
    have some : debugger.history.length ≠ 0 := by
      intro empty
      have latest := recorded.latest
      rw [← whole, List.eq_nil_of_length_eq_zero empty] at latest
      cases latest
    rw [lastPosition, if_pos recording] at within
    exact ⟨whole, by omega⟩
  stopped := by
    intro stopped
    have within := recorded.within
    rwa [lastPosition, stopped] at within
  used := debugger.history.used_eq
  bounded := recorded.limit ▸ debugger.history.used_le
  shown := by
    intro inside
    obtain ⟨rest, all⟩ := recorded.held
    rw [← all, List.getElem?_append_left inside, current, History.get?, List.getElem?_eq_getElem inside,
      Option.getD_some]
  live := by
    intro behind
    rw [current, History.get?, List.getElem?_eq_none behind, Option.getD_none]
  latest := recorded.latest
  last := recorded.current_of_last

/-- What comes of an event. The session goes on only in a step forward at the last position, or on
the way to the end; its new result is shown then. -/
structure Answers (fuel : Nat) (watch : Stopwatch) (event : Event) (debugger : Debugger) : Prop where
  moves : ∀ move, debugger.move? event = some move →
    ∃ start, debugger.Alike start ∧ debugger.handle fuel watch event = start.make fuel watch move
  only : ∀ request, debugger.asks? event = some request →
    (debugger.move? event = some .forward ∧ debugger.lastPosition ≤ debugger.position ∧
      request = .resume) ∨ debugger.move? event = some .toEnd ∧ request = .complete
  silent : debugger.asks? event = none → ∃ after, debugger.handle fuel watch event = some after ∧
    after.session = debugger.session ∧ after.history = debugger.history ∧
    after.recording = debugger.recording
  asking : ∀ request, debugger.asks? event = some request →
    (debugger.session.serve request fuel watch = .ok none ∧ debugger.handle fuel watch event = none) ∨
    ∃ after, debugger.session.serve request fuel watch = .ok (some after.session) ∧
      debugger.handle fuel watch event = some after ∧ after.current = after.session.result
  fills : debugger.recording = true → ∀ after, debugger.handle fuel watch event = some after →
    after.recording = false →
    debugger.history.limit < debugger.history.used + after.session.result.estimatedSize

/-- One event leads from one debugger to the other. -/
def Steps (before after : Debugger) : Prop :=
  ∃ fuel watch event, before.handle fuel watch event = some after

section Runs

variable {config : Config} {chunks : List Text} {input source : Text} {limit : Nat}
  {log : List Result} {debugger before after : Debugger} {fuel : Nat} {watch : Stopwatch} {event : Event}

/-- Every event turns the debugger in a way that goes with what it asks of the session. -/
theorem turns_of_handle (produces : Session.Produces config chunks input log before.session)
    (handled : before.handle fuel watch event = some after) :
    before.Turns after (before.asks? event) ∧ Session.Produces config chunks input
      (log ++ ((before.asks? event).map fun _ => after.session.result).toList) after.session := by
  cases asking : before.asks? event with
  | none =>
    obtain ⟨other, same, turns⟩ := handle_of_silent asking fuel watch
    obtain rfl := Option.some.inj (same.symm.trans handled)
    refine ⟨turns, ?_⟩
    cases turns with
    | shows session history recording position => simpa [session] using produces
  | some request =>
    obtain ⟨requests, reached⟩ := produces.reached
    obtain ⟨next?, served⟩ := reached.exists_serve (canContinue_of_asking asking) request fuel watch
    obtain ⟨_, nothing⟩ | ⟨other, rfl, same, turns⟩ := handle_of_asking asking served
    · cases nothing.symm.trans handled
    · obtain rfl := Option.some.inj (same.symm.trans handled)
      exact ⟨turns, produces.serve served⟩

theorem Reached.recorded (reached : Reached config chunks input source limit log debugger) :
    debugger.Recorded limit log ∧ Session.Produces config chunks input log debugger.session := by
  induction reached with
  | @start _ _ session started =>
    exact ⟨recorded_start session source limit, Session.Produces.start started⟩
  | handle fuel watch event _ handled ih =>
    obtain ⟨turns, further⟩ := turns_of_handle ih.2 handled
    exact ⟨ih.1.turn turns, further⟩

theorem Reached.answers (reached : Reached config chunks input source limit log debugger) (fuel : Nat)
    (watch : Stopwatch) (event : Event) : debugger.Answers fuel watch event where
  moves := by
    intro move moves
    obtain ⟨silent, _⟩ | ⟨other, start, same, alike, handled⟩ := handle_cases fuel watch debugger event
    · cases silent.symm.trans moves
    · obtain rfl := Option.some.inj (same.symm.trans moves)
      exact ⟨start, alike, handled⟩
  only _ asking := asking_cases asking
  silent := by
    intro silent
    obtain ⟨after, handled, turns⟩ := handle_of_silent silent fuel watch
    cases turns with
    | shows session history recording position => exact ⟨after, handled, session, history, recording⟩
  asking := by
    intro request asking
    obtain ⟨recorded, produced⟩ := reached.recorded
    obtain ⟨requests, lead⟩ := produced.reached
    obtain ⟨next?, served⟩ := lead.exists_serve (canContinue_of_asking asking) request fuel watch
    obtain ⟨rfl, nothing⟩ | ⟨after, rfl, handled, turns⟩ := handle_of_asking asking served
    · exact .inl ⟨served, nothing⟩
    · exact .inr ⟨after, served, handled, (recorded.turn turns).current_of_last turns.at_last⟩
  fills := by
    intro recording after handled stopped
    obtain ⟨turns, _⟩ := turns_of_handle reached.recorded.2 handled
    exact turns.fills recording stopped

/-- Once recording is over the history never changes again, whatever happens. -/
theorem Reached.of_stopped (reached : Reached config chunks input source limit log debugger)
    (stopped : debugger.recording = false) {later : Debugger}
    (steps : Relation.ReflTransGen Steps debugger later) :
    later.history = debugger.history ∧ later.recording = false := by
  -- A later debugger must be known to be reached, or its session could be lost.
  have run : (∃ log, Reached config chunks input source limit log later) ∧
      later.history = debugger.history ∧ later.recording = false := by
    induction steps with
    | refl => exact ⟨⟨log, reached⟩, rfl, stopped⟩
    | tail _ step ih =>
      obtain ⟨⟨log, before⟩, history, stopped⟩ := ih
      obtain ⟨fuel, watch, event, handled⟩ := step
      obtain ⟨turns, _⟩ := turns_of_handle before.recorded.2 handled
      obtain ⟨kept, still⟩ := turns.of_stopped stopped
      exact ⟨⟨_, before.handle fuel watch event handled⟩, kept.trans history, still⟩
  exact run.2

end Runs

end Debugger

/-- Whatever happens to a debugger, and however little memory its history may take, the history is the
front part of what its session has produced, the memory is counted, and what is shown is the result
at the position or else the latest one. -/
theorem history_is_faithful (config : Config) (chunks : List Text) (input source : Text) (limit : Nat)
    {log : List Result} {debugger : Debugger}
    (reached : Debugger.Reached config chunks input source limit log debugger) :
    Session.Produces config chunks input log debugger.session ∧ debugger.Faithful limit log ∧
    (debugger.recording = false → ∀ later, Relation.ReflTransGen Debugger.Steps debugger later →
      later.history = debugger.history ∧ later.recording = false) ∧
    ∀ fuel watch event, debugger.Answers fuel watch event := by
  obtain ⟨recorded, produced⟩ := reached.recorded
  refine ⟨produced, recorded.faithful, ?_, reached.answers⟩
  intro stopped later steps
  exact reached.of_stopped stopped steps

/-- Three results, of which the last does not fit into the history: it is shown behind the history,
and a step back shows the second one. -/
theorem history_is_faithful_when_full :
    ∃ log debugger, Debugger.Reached ⟨.short, 1, none⟩ [['+'], ['+'], ['+']] [] ['+', '+', '+'] 400
        log debugger ∧ log.length = 3 ∧ debugger.recording = false ∧ debugger.history.length = 2 ∧
      debugger.position = 1 ∧ debugger.Faithful 400 log := by
  have first := @Debugger.Reached.start ⟨.short, 1, none⟩ [['+'], ['+'], ['+']] [] ['+', '+', '+'] 400
    9 (fun _ => 0) _ rfl
  have second := first.handle 9 (fun _ => 0) (.key .right) rfl
  have third := second.handle 9 (fun _ => 0) (.key .right) rfl
  have fourth := third.handle 9 (fun _ => 0) (.key .left) rfl
  exact ⟨_, _, fourth, rfl, rfl, rfl, rfl, (history_is_faithful _ _ _ _ _ fourth).2.1⟩

end TapeStepper
