import TapeStepper.Decimal
import TapeStepper.Pane.Border

namespace TapeStepper.Pane

/-- A function as the pane lists it. -/
structure FunctionRow where
  key : Nat
  offset : Nat
  body : Text

def FunctionRow.glyphs (row : FunctionRow) : List Glyph :=
  styled (Style.color Theme.function) (Decimal.rightAligned 5 row.key ++ [' ']) ++
    styled (Style.color Theme.comment) ('@' :: Decimal.leftAligned 5 row.offset ++ [' ']) ++
      styled (Style.color Theme.foreground) row.body

/-- The scroll offset after the list is shown; an empty list leaves it alone. -/
def functionsScrolled (total visible offset : Nat) : Nat :=
  if total = 0 then offset else clampScroll offset total visible

def drawFunctions (rows : List FunctionRow) (screen : Screen) (area : Area) (focused : Bool)
    (offset : Nat) : Screen :=
  if rows.isEmpty then
    drawPlaceholder screen area focused " Functions ".toList "(none defined)".toList
  else
    drawBox screen area focused " Functions ".toList
      (((rows.drop offset).take (visibleRows area)).map FunctionRow.glyphs)

end TapeStepper.Pane
