import TapeStepper.Decimal
import TapeStepper.Pane.Border

namespace TapeStepper.Pane

/-- The line, counted from one, that the offset lies on. -/
def lineOfOffset (source : Text) (offset : Nat) : Nat :=
  (source.take offset).count '\n' + 1

/-- Each line with the offset of its first character. -/
def startedLines (start : Nat) : List Text → List (Nat × Text)
  | [] => []
  | line :: lines => (start, line) :: startedLines (start + line.length + 1) lines

def indexedLines (source : Text) : List (Nat × Text) :=
  startedLines 0 (textLines source)

/-- What the source pane shows of a script: where it has stopped, whether by an
error, and its breakpoints. -/
structure SourceView where
  source : Text
  stop : Option Nat
  isError : Bool
  breakpoints : List Nat

/-- The first line shown, and the row at which the current line is kept. -/
structure SourceScroll where
  offset : Nat
  row : Option Nat
  deriving DecidableEq

namespace SourceView

def currentLine? (view : SourceView) : Option Nat :=
  view.stop.map (lineOfOffset view.source)

/-- The scroll state after the view is shown with so many rows. -/
def scrolled (view : SourceView) (visible : Nat) (scroll : SourceScroll) : SourceScroll :=
  let row := min (scroll.row.getD (visible / 2)) (visible - 1)
  let offset := match view.currentLine? with
    | some line => line - 1 - row
    | none => scroll.offset
  ⟨clampScroll offset (textLines view.source).length visible, some row⟩

def operatorStyle (view : SourceView) (offset : Nat) (operator : Operator) : Style :=
  let base := (Style.color (Theme.operator operator)).strong
  let style := { base with underlined := view.breakpoints.contains offset }
  if view.stop = some offset then
    { style with
      foreground := some .black
      background := some (if view.isError then Theme.error else Theme.secondary) }
  else style

def highlightChar (view : SourceView) (offset : Nat) (c : Char) : Glyph :=
  match Operator.ofChar? c with
  | some operator => ⟨c, view.operatorStyle offset operator⟩
  | none => ⟨c, Style.color Theme.comment⟩

/-- A line without the carriage returns at its end. -/
def trimReturns (line : Text) : Text :=
  (line.reverse.dropWhile (· == '\r')).reverse

/-- The glyphs of a line that starts at the given offset. -/
def highlightLine (view : SourceView) (start : Nat) (line : Text) : List Glyph :=
  ((trimReturns line).zipIdx start).map fun (c, offset) => view.highlightChar offset c

/-- Whether a breakpoint lies on the line. -/
def hasBreakpoint (view : SourceView) (start : Nat) (line : Text) : Bool :=
  view.breakpoints.any fun offset => start ≤ offset && offset < start + line.length

/-- The background of the current line, under glyphs that have none of their own. -/
def onCurrentLine (glyph : Glyph) : Glyph :=
  { glyph with style := glyph.style.onto (Style.plain.on Theme.currentLine) }

/-- A line with its number and the mark of a breakpoint. -/
def row (view : SourceView) (number start : Nat) (line : Text) : List Glyph :=
  let isCurrent := view.currentLine? == some number
  let marker := if view.hasBreakpoint start line then '●' else ' '
  let numberStyle :=
    if isCurrent then (Style.color Theme.secondary).strong else Style.color Theme.comment
  let content := view.highlightLine start line
  ⟨marker, Style.color Theme.error⟩ ::
    styled numberStyle (Decimal.rightAligned 4 number ++ [' ']) ++
      (if isCurrent then content.map onCurrentLine else content)

def rows (view : SourceView) (visible : Nat) (scroll : SourceScroll) : List (List Glyph) :=
  ((((indexedLines view.source).zipIdx 1).drop scroll.offset).take visible).map
    fun ((start, line), number) => view.row number start line

def draw (view : SourceView) (screen : Screen) (area : Area) (focused : Bool)
    (scroll : SourceScroll) : Screen :=
  drawBox screen area focused " Source ".toList (view.rows (visibleRows area) scroll)

end SourceView

end TapeStepper.Pane
