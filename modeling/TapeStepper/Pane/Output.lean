import TapeStepper.Pane.Border

namespace TapeStepper.Pane

/-- Control characters are shown as dots. -/
def printable (c : Char) : Char :=
  if isControl c then '·' else c

/-- The scroll offset after the output is shown; an empty output leaves it alone. -/
def outputScrolled (output : Text) (visible offset : Nat) : Nat :=
  if output.isEmpty then offset else clampScroll offset (textLines output).length visible

/-- Each row has its colour over the whole width of the pane. -/
def drawOutput (output : Text) (screen : Screen) (area : Area) (focused : Bool) (offset : Nat) :
    Screen :=
  if output.isEmpty then
    drawPlaceholder screen area focused " Output ".toList "(no output)".toList
  else
    let style := Style.color Theme.foreground
    let lines := ((textLines output).drop offset).take (visibleRows area)
    let inner := area.inside.indented
    let framed := drawBorder screen area focused " Output ".toList
    let tinted := framed.tint { inner with height := min inner.height lines.length } style
    tinted.drawLines inner (lines.map fun line => styled style (line.map printable))

end TapeStepper.Pane
