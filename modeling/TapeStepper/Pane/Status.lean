import TapeStepper.Decimal
import TapeStepper.ExitCode
import TapeStepper.Theme

namespace TapeStepper.Pane

/-- What the status bar tells. The step is missing when the live result is shown. -/
structure StatusView where
  message : Text
  step : Option Nat
  total : Nat
  exitCode : ExitCode
  operations : Nat
  elapsed : Nat
  atEnd : Bool
  playing : Bool
  used : Nat
  limit : Nat

namespace StatusView

def exitLabel (code : ExitCode) : Text :=
  (" | ".intercalate (code \ .ofFlags [.noOutput, .textOutput]).labels).toList

def stepLabel (view : StatusView) : Text :=
  match view.step with
  | some step =>
    " Step ".toList ++ Nat.toDigits 10 (step + 1) ++ '/' :: Nat.toDigits 10 view.total ++ [' ']
  | none => " Live ".toList

/-- How the shown run stands, as a colour. -/
def outcomeColor (view : StatusView) : Color :=
  if view.exitCode.isFailure then Theme.error
  else if view.exitCode.has .breakpointReached then Theme.secondary
  else Theme.success

def bar : Style :=
  Style.plain.on Theme.currentLine

def onBar (color : Color) : Style :=
  (Style.color color).on Theme.currentLine

def badge (background : Color) : Style :=
  ((Style.color .black).on background).strong

def figures (view : StatusView) : Text :=
  [' '] ++ Nat.toDigits 10 view.operations ++ " ops, ".toList ++ Decimal.duration view.elapsed ++
    ", history ".toList ++ Decimal.mebibytes 1 view.used ++ '/' ::
    Decimal.mebibytes 0 view.limit ++ " MiB ".toList

def divider : List Glyph :=
  styled (onBar Theme.comment) ['│']

def left (view : StatusView) : List Glyph :=
  styled (badge view.outcomeColor) view.stepLabel ++
    styled (onBar view.outcomeColor) (' ' :: exitLabel view.exitCode ++ [' ']) ++
    divider ++ styled (onBar Theme.foreground) view.figures ++
    divider ++ styled (onBar Theme.foreground) (' ' :: view.message ++ [' '])

def keyHelp (key use : String) : List Glyph :=
  styled ((Style.color .black).on Theme.comment) key.toList ++
    styled (onBar Theme.foreground) use.toList

def gap : List Glyph :=
  divider ++ styled (onBar Theme.foreground) [' ']

/-- Whether the run is playing, or stands at one of its ends. -/
def indicator (view : StatusView) : List Glyph :=
  if view.playing then divider ++ styled (badge Theme.secondary) " ▶ PLAYING ".toList
  else if view.atEnd then divider ++ styled (badge Theme.error) " END ".toList
  else if view.step = some 0 then divider ++ styled (badge Theme.success) " START ".toList
  else []

def right (view : StatusView) : List Glyph :=
  keyHelp " ←/→ " " step " ++ gap ++ keyHelp " ⎵ " " play " ++ gap ++
    keyHelp " ↵ / ⌫ " " end/start " ++ gap ++ keyHelp "q" " quit " ++ view.indicator

/-- Draws the two halves of the bar, the second one set to the right. -/
def draw (view : StatusView) (screen : Screen) (area : Area) : Screen :=
  let (first, second) := area.splitColumns 55
  let keys := view.right
  let indent := second.width - keys.length
  ((screen.tint area bar).drawLines first [view.left]).drawLines
    { second with x := second.x + indent, width := second.width - indent } [keys]

end StatusView

end TapeStepper.Pane
