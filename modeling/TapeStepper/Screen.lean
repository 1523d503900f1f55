import TapeStepper.Text

namespace TapeStepper

inductive Color
  | black
  | rgb (red green blue : Nat)
  deriving DecidableEq

/-- Colours that are not given are those of the terminal. -/
structure Style where
  foreground : Option Color
  background : Option Color
  bold : Bool
  underlined : Bool
  deriving DecidableEq

namespace Style

def plain : Style :=
  ⟨none, none, false, false⟩

def color (color : Color) : Style :=
  { plain with foreground := some color }

def on (style : Style) (background : Color) : Style :=
  { style with background := some background }

def strong (style : Style) : Style :=
  { style with bold := true }

/-- What `style` gives, and what lies beneath where it gives nothing. -/
def onto (style beneath : Style) : Style where
  foreground := style.foreground.or beneath.foreground
  background := style.background.or beneath.background
  bold := style.bold || beneath.bold
  underlined := style.underlined || beneath.underlined

end Style

/-- A character as it is drawn. -/
structure Glyph where
  char : Char
  style : Style
  deriving DecidableEq

def styled (style : Style) (text : Text) : List Glyph :=
  text.map fun c => ⟨c, style⟩

/-- A rectangle of a screen. -/
structure Area where
  x : Nat
  y : Nat
  width : Nat
  height : Nat

namespace Area

/-- The whole part of `length` nearest to `percent` hundredths of it. -/
def portion (length percent : Nat) : Nat :=
  (length * percent + 50) / 100

/-- A left part of so many hundredths, and the rest. -/
def splitColumns (area : Area) (percent : Nat) : Area × Area :=
  let left := portion area.width percent
  ({ area with width := left },
    { area with x := area.x + left, width := area.width - left })

/-- An upper part of so many hundredths, and the rest. -/
def splitRows (area : Area) (percent : Nat) : Area × Area :=
  let upper := portion area.height percent
  ({ area with height := upper },
    { area with y := area.y + upper, height := area.height - upper })

/-- What is left inside a border. -/
def inside (area : Area) : Area :=
  ⟨area.x + 1, area.y + 1, area.width - 2, area.height - 2⟩

/-- The area without its first column. -/
def indented (area : Area) : Area :=
  { area with x := area.x + 1, width := area.width - 1 }

/-- The part of the area on a screen of the given size. -/
def within (width height : Nat) (area : Area) : Area :=
  { area with
    width := min area.width (width - area.x)
    height := min area.height (height - area.y) }

/-- The columns and rows of the area, row by row. -/
def points (area : Area) : List (Nat × Nat) :=
  (List.range' area.y area.height).flatMap fun y =>
    (List.range' area.x area.width).map fun x => (x, y)

end Area

/-- A grid of glyphs, row after row. -/
structure Screen where
  width : Nat
  height : Nat
  glyphs : Array Glyph

namespace Screen

def blank (width height : Nat) : Screen :=
  ⟨width, height, Array.replicate (width * height) ⟨' ', .plain⟩⟩

def area (screen : Screen) : Area :=
  ⟨0, 0, screen.width, screen.height⟩

/-- Changes one glyph; points off the screen are left out. -/
def modify (screen : Screen) (x y : Nat) (change : Glyph → Glyph) : Screen :=
  if x < screen.width ∧ y < screen.height then
    { screen with glyphs := screen.glyphs.modify (y * screen.width + x) change }
  else screen

/-- Draws a glyph; its style lies over the style that was there. -/
def draw (screen : Screen) (x y : Nat) (glyph : Glyph) : Screen :=
  screen.modify x y fun beneath => ⟨glyph.char, glyph.style.onto beneath.style⟩

/-- Lays a style over every glyph of an area. -/
def tint (screen : Screen) (area : Area) (style : Style) : Screen :=
  (area.within screen.width screen.height).points.foldl
    (fun screen (x, y) => screen.modify x y fun glyph => ⟨glyph.char, style.onto glyph.style⟩)
    screen

/-- Draws glyphs side by side from the given point. -/
def drawLine (screen : Screen) (x y : Nat) : List Glyph → Screen
  | [] => screen
  | glyph :: rest => (screen.draw x y glyph).drawLine (x + 1) y rest

/-- Draws one line per row of the area, cutting what does not fit. -/
def drawLines (screen : Screen) (area : Area) (lines : List (List Glyph)) : Screen :=
  ((lines.take area.height).zipIdx).foldl
    (fun screen (line, row) => screen.drawLine area.x (area.y + row) (line.take area.width))
    screen

def rows (screen : Screen) : List (List Glyph) :=
  (List.range screen.height).map fun y =>
    (screen.glyphs.extract (y * screen.width) ((y + 1) * screen.width)).toList

end Screen

end TapeStepper
