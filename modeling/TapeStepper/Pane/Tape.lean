import TapeStepper.Decimal
import TapeStepper.Tape
import TapeStepper.Pane.Border

namespace TapeStepper.Pane

/-- The first cell shown, and where the pointer was when the tape was last shown. -/
structure TapeScroll where
  offset : Nat
  last : Option Nat
  deriving DecidableEq

namespace TapeScroll

/-- The scroll state after a tape with this pointer is shown. The pane follows
the pointer when it has moved out of sight. -/
def shown (scroll : TapeScroll) (position size visible : Nat) : TapeScroll :=
  let hidden := position < scroll.offset ∨ scroll.offset + visible ≤ position
  let offset :=
    if scroll.last ≠ some position ∧ hidden then position - visible / 2 else scroll.offset
  ⟨clampScroll offset size visible, some position⟩

end TapeScroll

/-- The character of a cell in quotes, or blanks when it cannot be shown. -/
def cellText (value : Nat) : Text :=
  if value.isValidChar && !isControl (Char.ofNat value) then ['\'', Char.ofNat value, '\'']
  else [' ', ' ', ' ']

def cellRow (position index value : Nat) : List Glyph :=
  let style :=
    if index = position then ((Style.color Theme.secondary).on Theme.currentLine).strong
    else Style.color (if value = 0 then Theme.comment else Theme.foreground)
  ⟨if index = position then '▶' else ' ', style⟩ ::
    styled (Style.color Theme.comment) (Decimal.rightAligned 4 index ++ " │ ".toList) ++
      styled style (Decimal.rightAligned 5 value ++ [' ']) ++
        styled (Style.color Theme.inputOutput) (cellText value)

def tapeTitle (tape : Tape) : Text :=
  " Tape [".toList ++ Nat.toDigits 10 tape.position ++ '/' :: Nat.toDigits 10 tape.size ++
    "] ".toList

def drawTape (tape : Tape) (screen : Screen) (area : Area) (focused : Bool)
    (scroll : TapeScroll) : Screen :=
  drawBox screen area focused (tapeTitle tape)
    (((tape.cells.zipIdx.drop scroll.offset).take (visibleRows area)).map
      fun (value, index) => cellRow tape.position index value)

end TapeStepper.Pane
