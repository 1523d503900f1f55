import TapeStepper.Theme

namespace TapeStepper.Pane

/-- The rows that a pane of this area shows; a pane without room counts as one row. -/
def visibleRows (area : Area) : Nat :=
  max (area.height - 2) 1

/-- The nearest offset that leaves no row empty below the last line. -/
def clampScroll (offset total visible : Nat) : Nat :=
  if visible < total then min offset (total - visible) else 0

def isControl (c : Char) : Bool :=
  c.toNat < 0x20 || (0x7f ≤ c.toNat && c.toNat ≤ 0x9f)

def borderStyle (focused : Bool) : Style :=
  if focused then (Style.color Theme.focusedBorder).strong else Style.color Theme.border

/-- The border character at a point of an area, if the point is on the border. -/
def borderChar? (area : Area) (x y : Nat) : Option Char :=
  let left := x == area.x
  let right := x + 1 == area.x + area.width
  let top := y == area.y
  let bottom := y + 1 == area.y + area.height
  if left && top then some '┌'
  else if left && bottom then some '└'
  else if right && top then some '┐'
  else if right && bottom then some '┘'
  else if top || bottom then some '─'
  else if left || right then some '│'
  else none

/-- Draws a border with a title in its top row around the part of an area that is
on the screen. -/
def drawBorder (screen : Screen) (area : Area) (focused : Bool) (title : Text) : Screen :=
  let area := area.within screen.width screen.height
  let style := borderStyle focused
  let framed := area.points.foldl
    (fun screen (x, y) =>
      match borderChar? area x y with
      | some c => screen.draw x y ⟨c, style⟩
      | none => screen)
    screen
  framed.drawLines ⟨area.x + 1, area.y, area.width - 2, min area.height 1⟩ [styled style title]

/-- A border with lines of text inside. The lines have the room of the whole area,
so where the area leaves the screen they go over the border. -/
def drawBox (screen : Screen) (area : Area) (focused : Bool) (title : Text)
    (lines : List (List Glyph)) : Screen :=
  (drawBorder screen area focused title).drawLines area.inside lines

/-- A pane with nothing to show but a remark. Its colour lies under the border and
over all the room inside. -/
def drawPlaceholder (screen : Screen) (area : Area) (focused : Bool) (title remark : Text) :
    Screen :=
  let style := Style.color Theme.comment
  let framed := drawBorder (screen.tint area style) area focused title
  (framed.tint area.inside style).drawLines area.inside [styled style remark]

end TapeStepper.Pane
