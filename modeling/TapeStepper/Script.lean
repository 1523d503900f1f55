import TapeStepper.Brackets
import TapeStepper.Result

namespace TapeStepper

/-- Why a script is not run at all. -/
inductive Rejection
  | noCode
  | mismatched (offset : Nat)
  deriving DecidableEq

/-- The statements of a script. Its brackets are checked first, so that the error
is the offset at which they go wrong. -/
def parse (source : Text) : Except Nat Block :=
  match bracketFault? (tokens source) with
  | some offset => .error offset
  | none =>
    match Block.ofTokens? (tokens source) with
    | some block => .ok block
    | none => .error 0

/-- The statements of a script that is to be run. -/
def readScript (source : Text) : Except Rejection Block :=
  if hasCode source then
    match parse source with
    | .ok block => .ok block
    | .error offset => .error (.mismatched offset)
  else .error .noCode

/-- The result that stands for a rejected script. -/
def Rejection.result (source : Text) (tape : Tape) : Rejection → Result
  | noCode => .notStarted (.ofFlags [.failure, .noCodeInterpreted]) tape [] none
  | mismatched offset =>
    .notStarted (.ofFlags [.failure, .mismatchedParentheses]) tape
      (operators (tokens source)) (some ⟨[], offset⟩)

/-- A rejected script raises no other flags. -/
theorem Rejection.has_result (rejection : Rejection) {source : Text} {tape : Tape} {flag : Flag}
    (other : flag ∉ [Flag.failure, .noOutput, .textOutput, .noCodeInterpreted, .mismatchedParentheses]) :
    (rejection.result source tape).exitCode.has flag = false := by
  simp only [List.mem_cons, List.not_mem_nil, or_false, not_or] at other
  cases rejection <;>
    simp [result, Result.notStarted, ExitCode.has_withOutput, ExitCode.has_ofFlags, other]

end TapeStepper
