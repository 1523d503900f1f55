import TapeStepper.Store

namespace TapeStepper

/-- How scripts are run. The budget is in nanoseconds. -/
structure Config where
  mode : CellMode
  tapeSize : Nat
  budget : Option Nat

inductive ConfigError
  | emptyTape
  | zeroBudget
  deriving DecidableEq

namespace ConfigError

def message : ConfigError → String
  | emptyTape => "tape size must be positive"
  | zeroBudget => "time budget must be positive"

end ConfigError

namespace Config

def fault? (config : Config) : Option ConfigError :=
  if config.tapeSize = 0 then some .emptyTape
  else if config.budget = some 0 then some .zeroBudget
  else none

def validate (config : Config) : Except ConfigError Unit :=
  match config.fault? with
  | some fault => .error fault
  | none => .ok ()

end Config

/-- Nanoseconds on the clock at each question of a run. -/
abbrev Stopwatch := Nat → Nat

/-- When the time of a run is up. What earlier runs of a session took is added to
the budget; how long a time can be counted is not asked here. -/
def Config.deadline? (config : Config) (carried : Nat) : Option Nat :=
  config.budget.map fun budget => budget + carried

/-- Whether the time is up at a question. -/
def isLate (deadline : Option Nat) (watch : Stopwatch) (question : Nat) : Bool :=
  match deadline with
  | some deadline => decide (deadline < watch question)
  | none => false

end TapeStepper
