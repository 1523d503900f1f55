import TapeStepper.Operator
import TapeStepper.Screen

namespace TapeStepper.Theme

def foreground : Color := .rgb 205 214 244
def secondary : Color := .rgb 250 179 135
def comment : Color := .rgb 108 112 134
def success : Color := .rgb 166 227 161
def error : Color := .rgb 243 139 168
def focusedBorder : Color := .rgb 249 226 175
def border : Color := .rgb 108 112 134
def currentLine : Color := .rgb 50 50 70
def pointer : Color := .rgb 148 226 213
def arithmetic : Color := .rgb 205 214 244
def inputOutput : Color := .rgb 245 194 231
def bracket : Color := .rgb 137 180 250
def function : Color := .rgb 249 226 175

/-- Operators of one kind have one colour. -/
def operator : Operator → Color
  | .act .next | .act .back => pointer
  | .act .plus | .act .minus => arithmetic
  | .act .print | .act .read => inputOutput
  | .loopStart | .loopEnd => bracket
  | .functionStart | .functionEnd | .call => function

end TapeStepper.Theme
