import TapeStepper.Text

namespace TapeStepper

/-- What an operator outside loops and functions does. -/
inductive Action
  | next | back | plus | minus | print | read
  deriving DecidableEq

inductive Operator
  | act (action : Action)
  | loopStart | loopEnd | functionStart | functionEnd | call
  deriving DecidableEq

namespace Action

def symbol : Action → Char
  | next => '>'
  | back => '<'
  | plus => '+'
  | minus => '-'
  | print => '.'
  | read => ','

end Action

namespace Operator

/-- The operators in the order in which they are numbered. -/
def all : List Operator :=
  [act .next, act .back, act .plus, act .minus, act .print, act .read,
    loopStart, loopEnd, functionStart, functionEnd, call]

def symbol : Operator → Char
  | act action => action.symbol
  | loopStart => '['
  | loopEnd => ']'
  | functionStart => '('
  | functionEnd => ')'
  | call => ':'

/-- Every character that is no operator is a comment. -/
def ofChar? : Char → Option Operator
  | '>' => some (act .next)
  | '<' => some (act .back)
  | '+' => some (act .plus)
  | '-' => some (act .minus)
  | '.' => some (act .print)
  | ',' => some (act .read)
  | '[' => some loopStart
  | ']' => some loopEnd
  | '(' => some functionStart
  | ')' => some functionEnd
  | ':' => some call
  | _ => none

def isBracket : Operator → Bool
  | loopStart | loopEnd | functionStart | functionEnd => true
  | act _ | call => false

/-- The written form of a sequence of operators. -/
def text (operators : List Operator) : Text :=
  operators.map symbol

theorem ofChar?_symbol (operator : Operator) : ofChar? operator.symbol = some operator := by
  rcases operator with action | _ | _ | _ | _ | _
  · cases action <;> rfl
  all_goals rfl

theorem symbol_of_ofChar? {c : Char} {operator : Operator} (read : ofChar? c = some operator) :
    operator.symbol = c := by
  unfold ofChar? at read
  split at read <;> cases read <;> rfl

end Operator

end TapeStepper
