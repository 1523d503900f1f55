namespace TapeStepper

/-- Why a running script stops. -/
inductive Fault
  | upperBound
  | lowerBound
  | maxValue
  | negativeValue
  | outputLimit
  | inputExhausted
  | duplicateFunction (key : Nat)
  | functionLimit
  | undefinedFunction (key : Nat)
  | depthLimit
  | timeBudget
  deriving DecidableEq

namespace Fault

def message : Fault → String
  | upperBound => "pointer moved past the last cell"
  | lowerBound => "pointer moved before the first cell"
  | maxValue => "cell value exceeded the maximum"
  | negativeValue => "cell value would become negative or is out of range"
  | outputLimit => "stdout buffer limit exceeded"
  | inputExhausted => "stdin buffer exhausted"
  | duplicateFunction key => s!"function {key} is already defined"
  | functionLimit => "too many function definitions"
  | undefinedFunction key => s!"function {key} is not defined"
  | depthLimit => "function calls nested too deeply"
  | timeBudget => "time budget exceeded"

end Fault

end TapeStepper
