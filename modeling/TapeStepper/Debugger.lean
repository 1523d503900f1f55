import TapeStepper.History
import TapeStepper.Session
import TapeStepper.Pane.Source
import TapeStepper.Pane.Tape

namespace TapeStepper

inductive PaneName
  | source | tape | output | functions
  deriving DecidableEq

namespace PaneName

def next : PaneName → PaneName
  | source => output
  | output => tape
  | tape => functions
  | functions => source

def previous : PaneName → PaneName
  | source => functions
  | output => source
  | tape => output
  | functions => tape

end PaneName

/-- The largest scroll offset, 2^64 - 1. It stands for the end of a pane, whatever
its length. -/
def lastOffset : Nat := 18446744073709551615

/-- How far each pane is scrolled. -/
structure Scrolls where
  source : Pane.SourceScroll
  tape : Pane.TapeScroll
  output : Nat
  functions : Nat

/-- A session with the results it has produced, one of which is shown. Once a
result does not fit into the history, recording is over, and the place behind
the history shows the latest result of the session. -/
structure Debugger where
  session : Session
  history : History
  recording : Bool
  position : Nat
  source : Text
  focus : PaneName
  scrolls : Scrolls
  status : String
  playing : Bool

namespace Debugger

def start (session : Session) (source : Text) (limit : Nat) : Debugger :=
  let (history, recording, status) := match (History.empty limit).push session.result with
    | .ok history => (history, true, "Ready!")
    | .error full => (History.empty limit, false, "Not recording: " ++ full.message)
  { session, history, recording, source, status
    position := 0
    focus := .source
    scrolls := ⟨⟨0, none⟩, ⟨0, none⟩, 0, 0⟩
    playing := false }

/-- The result that is shown. -/
def current (debugger : Debugger) : Result :=
  (debugger.history.get? debugger.position).getD debugger.session.result

def lastPosition (debugger : Debugger) : Nat :=
  if debugger.recording then debugger.history.length - 1 else debugger.history.length

/-- Whether the last result is shown and none can follow it. -/
def atEnd (debugger : Debugger) : Bool :=
  decide (debugger.lastPosition ≤ debugger.position) && !debugger.session.canContinue

def say (status : String) (debugger : Debugger) : Debugger :=
  { debugger with status }

/-- Shows the end of the output, as every move to another result does. -/
def showOutputEnd (debugger : Debugger) : Debugger :=
  { debugger with scrolls := { debugger.scrolls with output := lastOffset } }

/-- Shows a result behind the history. -/
def showLive (message : String) (debugger : Debugger) : Debugger :=
  { debugger with
    position := debugger.history.length
    status := message ++ " (history full, not recorded)" }

/-- Takes the session's latest result into the history and shows it. -/
def record (message : String) (debugger : Debugger) : Debugger :=
  if debugger.recording then
    match debugger.history.push debugger.session.result with
    | .ok history => { debugger with history, position := history.length - 1, status := message }
    | .error _ => showLive message { debugger with recording := false, playing := false }
  else showLive message debugger

/-- Takes over a session that has gone on, or says why it cannot. -/
def adopt (message : String) (debugger : Debugger) :
    Except SessionError (Option Session) → Option Debugger
  | .ok session => session.map fun session => record message { debugger with session }
  | .error error => some (debugger.say ("Cannot continue: " ++ error.message))

/-- Shows the next result; behind the last one the session goes on. -/
def stepForward (fuel : Nat) (watch : Stopwatch) (debugger : Debugger) : Option Debugger :=
  showOutputEnd <$>
    if debugger.position < debugger.lastPosition then
      some { debugger with position := debugger.position + 1, status := "Stepped forward" }
    else if debugger.session.canContinue then
      debugger.adopt "Continued to next breakpoint" (debugger.session.resume fuel watch)
    else some (debugger.say "Execution finished")

/-- Shows the previous result. -/
def stepBackward (debugger : Debugger) : Debugger :=
  showOutputEnd <|
    if 0 < debugger.position then
      { debugger with position := debugger.position - 1, status := "Stepped backward" }
    else debugger.say "Already at the first step"

/-- Runs the session to its end and shows the last result. -/
def jumpToEnd (fuel : Nat) (watch : Stopwatch) (debugger : Debugger) : Option Debugger :=
  showOutputEnd <$>
    if debugger.session.canContinue then
      debugger.adopt "Ran to completion" (debugger.session.complete fuel watch)
    else some { debugger with position := debugger.lastPosition, status := "Jumped to end" }

def jumpToStart (debugger : Debugger) : Debugger :=
  showOutputEnd { debugger with position := 0, status := "Jumped to start" }

def stopPlaying (debugger : Debugger) : Debugger :=
  { debugger with playing := false }

def togglePlaying (debugger : Debugger) : Debugger :=
  { debugger with
    playing := !debugger.playing
    status := if debugger.playing then "Paused" else "Playing..." }

/-- What happens once a second: a playing debugger takes a step, or stops at the end. -/
def tick (fuel : Nat) (watch : Stopwatch) (debugger : Debugger) : Option Debugger :=
  if debugger.playing then
    if debugger.atEnd then some (debugger.stopPlaying.say "Playback complete")
    else debugger.stepForward fuel watch
  else some debugger

end Debugger

namespace Scrolls

/-- Scrolls a pane back. In the source pane the current line moves down instead. -/
def up (pane : PaneName) (scrolls : Scrolls) : Scrolls :=
  match pane with
  | .source =>
    { scrolls with source.row := scrolls.source.row.map fun row => min (row + 1) lastOffset }
  | .tape => { scrolls with tape.offset := scrolls.tape.offset - 1 }
  | .output => { scrolls with output := scrolls.output - 1 }
  | .functions => { scrolls with functions := scrolls.functions - 1 }

/-- Scrolls a pane on. In the source pane the current line moves up instead. -/
def down (pane : PaneName) (scrolls : Scrolls) : Scrolls :=
  match pane with
  | .source => { scrolls with source.row := scrolls.source.row.map fun row => row - 1 }
  | .tape => { scrolls with tape.offset := min (scrolls.tape.offset + 1) lastOffset }
  | .output => { scrolls with output := min (scrolls.output + 1) lastOffset }
  | .functions => { scrolls with functions := min (scrolls.functions + 1) lastOffset }

end Scrolls

/-- The keys that the debugger knows, and those it does not. -/
inductive Key
  | tab | backtab
  | left | right | up | down
  | enter | backspace
  | char (c : Char)
  | other
  deriving DecidableEq

namespace Key

def quits : Key → Bool
  | char c => c == 'q' || c == 'Q'
  | _ => false

/-- The key of a name; a single character names itself. -/
def ofName? : String → Option Key
  | "tab" => some tab
  | "backtab" => some backtab
  | "left" => some left
  | "right" => some right
  | "up" => some up
  | "down" => some down
  | "enter" => some enter
  | "backspace" => some backspace
  | "space" => some (char ' ')
  | "home" => some other
  | name =>
    match name.toList with
    | [c] => some (char c)
    | _ => none

end Key

namespace Debugger

/-- Handles one key that does not quit. -/
def press (fuel : Nat) (watch : Stopwatch) (debugger : Debugger) : Key → Option Debugger
  | .tab => some { debugger with focus := debugger.focus.next }
  | .backtab => some { debugger with focus := debugger.focus.previous }
  | .left => some debugger.stopPlaying.stepBackward
  | .right | .char 'n' => debugger.stopPlaying.stepForward fuel watch
  | .up => some { debugger with scrolls := debugger.scrolls.up debugger.focus }
  | .down => some { debugger with scrolls := debugger.scrolls.down debugger.focus }
  | .char ' ' => some debugger.togglePlaying
  | .enter => debugger.stopPlaying.jumpToEnd fuel watch
  | .backspace => some debugger.stopPlaying.jumpToStart
  | .char _ | .other => some debugger

end Debugger

end TapeStepper
