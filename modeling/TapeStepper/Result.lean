import TapeStepper.ExitCode
import TapeStepper.Machine

namespace TapeStepper

/-- Where a run stopped: what each level had reached, innermost first, and the
offset of the operator. -/
structure Trace where
  frames : List (List Operator)
  offset : Nat
  deriving DecidableEq

/-- A function as a result shows it, with the offset of its first operator. -/
structure FunctionListing where
  key : Nat
  offset : Nat
  body : List Operator
  deriving DecidableEq

/-- What is known of a run when it stops. -/
structure Result where
  exitCode : ExitCode
  tape : Tape
  output : Text
  source : List Operator
  elapsed : Nat
  operations : Nat
  trace : Option Trace
  breakpoint : Option Nat
  functions : List FunctionListing
  deriving DecidableEq

/-- The offset is that of the last operator of the first frame that has one. -/
def Trace.ofFrames (frames : List (List Token)) : Trace where
  frames := frames.map operators
  offset := ((frames.findSome? List.getLast?).map Token.offset).getD 0

def FunctionListing.ofBody (key : Nat) (body : Block) : FunctionListing where
  key := key
  offset := (body.first?.map Token.offset).getD 0
  body := operators body.tokens

def FunctionTable.listing (table : FunctionTable Block) : List FunctionListing :=
  table.entries.map fun (key, body) => .ofBody key body

namespace Outcome

/-- The exit code without the flag for the output. -/
def exitCode : Outcome → ExitCode
  | finished => .ofFlags [.success]
  | paused _ => .ofFlags [.success, .breakpointReached]
  | failed fault _ => fault.exitCode
  | overran _ => Fault.timeBudget.exitCode

def trace? : Outcome → Option Trace
  | finished => none
  | paused stack | failed _ stack => some (.ofFrames stack.frames)
  | overran stack => some (.ofFrames stack.framesAbove)

def resumePoint? : Outcome → Option ResumePoint
  | paused stack => some stack.resumePoint
  | finished | failed _ _ | overran _ => none

end Outcome

namespace Result

def ofOutcome (block : Block) (elapsed : Nat) (store : Store) (outcome : Outcome) : Result where
  exitCode := outcome.exitCode.withOutput store.output.chars
  tape := store.tape
  output := store.output.chars
  source := operators block.tokens
  elapsed := elapsed
  operations := store.operations
  trace := outcome.trace?
  breakpoint := outcome.resumePoint?.map ResumePoint.offset
  functions := store.functions.listing

/-- The result of a script that is not run. -/
def notStarted (code : ExitCode) (tape : Tape) (source : List Operator) (trace : Option Trace) :
    Result where
  exitCode := code.withOutput []
  tape := tape
  output := []
  source := source
  elapsed := 0
  operations := 0
  trace := trace
  breakpoint := none
  functions := []

end Result

end TapeStepper
