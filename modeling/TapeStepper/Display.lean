import TapeStepper.Debugger
import TapeStepper.Pane.Output
import TapeStepper.Pane.Functions
import TapeStepper.Pane.Status

namespace TapeStepper

/-- Where the panes of the debugger are. -/
structure Layout where
  source : Area
  output : Area
  tape : Area
  functions : Area
  status : Area

/-- The status bar takes the last row, the panes share the rest. -/
def Layout.ofSize (width height : Nat) : Layout :=
  let main : Area := ⟨0, 0, width, height - 1⟩
  let (left, right) := main.splitColumns 65
  let (source, output) := left.splitRows 70
  let (tape, functions) := right.splitRows 65
  { source, output, tape, functions
    status := ⟨0, height - 1, width, min height 1⟩ }

namespace Debugger

def sourceView (debugger : Debugger) : Pane.SourceView where
  source := debugger.source
  stop := debugger.current.trace.map Trace.offset
  isError := debugger.current.exitCode.isFailure
  breakpoints := debugger.session.breakpoints

def functionRows (debugger : Debugger) : List Pane.FunctionRow :=
  debugger.current.functions.map fun listing =>
    ⟨listing.key, listing.offset, Operator.text listing.body⟩

def statusView (debugger : Debugger) : Pane.StatusView where
  message := debugger.status.toList
  step := if debugger.position < debugger.history.length then some debugger.position else none
  total := debugger.history.length
  exitCode := debugger.current.exitCode
  operations := debugger.current.operations
  elapsed := debugger.current.elapsed
  atEnd := debugger.atEnd
  playing := debugger.playing
  used := debugger.history.used
  limit := debugger.history.limit

/-- The scroll states after the debugger is shown in this layout. -/
def scrolled (layout : Layout) (debugger : Debugger) : Scrolls :=
  let shown := debugger.current
  let scrolls := debugger.scrolls
  { source := debugger.sourceView.scrolled (Pane.visibleRows layout.source) scrolls.source
    output := Pane.outputScrolled shown.output (Pane.visibleRows layout.output) scrolls.output
    tape := scrolls.tape.shown shown.tape.position shown.tape.size (Pane.visibleRows layout.tape)
    functions := Pane.functionsScrolled shown.functions.length
      (Pane.visibleRows layout.functions) scrolls.functions }

/-- The debugger after it is shown on a screen of the given size. -/
def settle (width height : Nat) (debugger : Debugger) : Debugger :=
  { debugger with scrolls := debugger.scrolled (.ofSize width height) }

/-- The picture of a debugger whose scroll states fit the screen. -/
def draw (width height : Nat) (debugger : Debugger) : Screen :=
  let layout := Layout.ofSize width height
  let shown := debugger.current
  let scrolls := debugger.scrolls
  let focused (pane : PaneName) : Bool := debugger.focus == pane
  let screen := Screen.blank width height
  let screen := debugger.sourceView.draw screen layout.source (focused .source) scrolls.source
  let screen := Pane.drawOutput shown.output screen layout.output (focused .output) scrolls.output
  let screen := Pane.drawTape shown.tape screen layout.tape (focused .tape) scrolls.tape
  let screen := Pane.drawFunctions debugger.functionRows screen layout.functions
    (focused .functions) scrolls.functions
  debugger.statusView.draw screen layout.status

end Debugger

end TapeStepper
