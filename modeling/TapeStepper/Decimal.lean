import TapeStepper.Text

namespace TapeStepper.Decimal

/-- The integer nearest to a quotient; a half goes to the even neighbour. -/
def roundDiv (numerator denominator : Nat) : Nat :=
  let quotient := numerator / denominator
  let twice := 2 * (numerator % denominator)
  if denominator < twice ∨ (twice = denominator ∧ quotient % 2 = 1) then quotient + 1
  else quotient

/-- A quotient with so many places after the point, and no point without places. -/
def fixed (places numerator denominator : Nat) : Text :=
  let unit := Nat.pow 10 places
  let scaled := roundDiv (numerator * unit) denominator
  let whole := Nat.toDigits 10 (scaled / unit)
  if places = 0 then whole
  else whole ++ '.' :: (Nat.toDigits 10 (scaled % unit)).leftpad places '0'

/-- The nearest number with at most 53 significant binary digits. -/
def toSignificand (number : Nat) : Nat :=
  let unit := Nat.pow 2 (number.log2 - 52)
  roundDiv number unit * unit

/-- A time in nanoseconds, with two places in the largest unit that it fills. -/
def duration (nanoseconds : Nat) : Text :=
  if 1000000000 ≤ nanoseconds then fixed 2 nanoseconds 1000000000 ++ ['s']
  else if 1000000 ≤ nanoseconds then fixed 2 nanoseconds 1000000 ++ ['m', 's']
  else if 1000 ≤ nanoseconds then fixed 2 nanoseconds 1000 ++ ['µ', 's']
  else fixed 2 nanoseconds 1 ++ ['n', 's']

/-- A number of bytes in units of 2^20 bytes. -/
def mebibytes (places bytes : Nat) : Text :=
  fixed places (toSignificand bytes) 1048576

/-- A number set to the right of a column. -/
def rightAligned (width number : Nat) : Text :=
  (Nat.toDigits 10 number).leftpad width ' '

/-- A number set to the left of a column. -/
def leftAligned (width number : Nat) : Text :=
  (Nat.toDigits 10 number).rightpad width ' '

end TapeStepper.Decimal
