import TapeStepper.Fault

namespace TapeStepper

/-- One bit of an exit code, in the order of the bits. -/
inductive Flag
  | success | failure
  | noOutput | textOutput
  | breakpointReached
  | exceptionThrown
  | thresholdExceeded
  | mismatchedParentheses
  | noCodeInterpreted
  | upperBoundExceeded
  | lowerBoundExceeded
  | maxValueExceeded
  | negativeValue
  | stdoutBufferLimitExceeded
  | stdinBufferExhausted
  | duplicateFunctionDefinition
  | functionsLimitExceeded
  | undefinedFunctionCalled
  | callDepthExceeded
  deriving DecidableEq

namespace Flag

def all : List Flag :=
  [success, failure, noOutput, textOutput, breakpointReached, exceptionThrown, thresholdExceeded,
    mismatchedParentheses, noCodeInterpreted, upperBoundExceeded, lowerBoundExceeded,
    maxValueExceeded, negativeValue, stdoutBufferLimitExceeded, stdinBufferExhausted,
    duplicateFunctionDefinition, functionsLimitExceeded, undefinedFunctionCalled,
    callDepthExceeded]

def label : Flag → String
  | success => "SUCCESS"
  | failure => "FAILURE"
  | noOutput => "NO_OUTPUT"
  | textOutput => "TEXT_OUTPUT"
  | breakpointReached => "BREAKPOINT_REACHED"
  | exceptionThrown => "EXCEPTION_THROWN"
  | thresholdExceeded => "THRESHOLD_EXCEEDED"
  | mismatchedParentheses => "MISMATCHED_PARENTHESES"
  | noCodeInterpreted => "NO_CODE_INTERPRETED"
  | upperBoundExceeded => "UPPER_BOUND_EXCEEDED"
  | lowerBoundExceeded => "LOWER_BOUND_EXCEEDED"
  | maxValueExceeded => "MAX_VALUE_EXCEEDED"
  | negativeValue => "NEGATIVE_VALUE"
  | stdoutBufferLimitExceeded => "STDOUT_BUFFER_LIMIT_EXCEEDED"
  | stdinBufferExhausted => "STDIN_BUFFER_EXHAUSTED"
  | duplicateFunctionDefinition => "DUPLICATE_FUNCTION_DEFINITION"
  | functionsLimitExceeded => "FUNCTIONS_LIMIT_EXCEEDED"
  | undefinedFunctionCalled => "UNDEFINED_FUNCTION_CALLED"
  | callDepthExceeded => "CALL_DEPTH_EXCEEDED"

/-- The place of the flag's bit. -/
def index (flag : Flag) : Nat :=
  all.idxOf flag

end Flag

/-- A set of flags, one bit each. -/
structure ExitCode where
  bits : BitVec 19
  deriving DecidableEq

namespace ExitCode

instance : EmptyCollection ExitCode := ⟨⟨0#19⟩⟩
instance : Union ExitCode := ⟨fun code other => ⟨code.bits ||| other.bits⟩⟩
instance : Inter ExitCode := ⟨fun code other => ⟨code.bits &&& other.bits⟩⟩
instance : SDiff ExitCode := ⟨fun code other => ⟨code.bits &&& ~~~other.bits⟩⟩

def ofFlag (flag : Flag) : ExitCode :=
  ⟨1#19 <<< flag.index⟩

def ofFlags (flags : List Flag) : ExitCode :=
  flags.foldr (fun flag code => ofFlag flag ∪ code) ∅

/-- Keeps the bits that stand for flags. -/
def ofNat (bits : Nat) : ExitCode :=
  ⟨BitVec.ofNat 19 bits⟩

def toNat (code : ExitCode) : Nat :=
  code.bits.toNat

def has (code : ExitCode) (flag : Flag) : Bool :=
  code.bits.getLsbD flag.index

def flags (code : ExitCode) : List Flag :=
  Flag.all.filter code.has

def labels (code : ExitCode) : List String :=
  code.flags.map Flag.label

def isSuccess (code : ExitCode) : Bool :=
  code.has .success

def isFailure (code : ExitCode) : Bool :=
  code.has .failure

/-- Whether every flag of `other` is set. -/
def contains (code other : ExitCode) : Bool :=
  code ∩ other == other

def intersects (code other : ExitCode) : Bool :=
  code ∩ other != ∅

/-- Adds the flag that tells whether anything was printed. -/
def withOutput (code : ExitCode) (output : List Char) : ExitCode :=
  code ∪ ofFlag (if output.isEmpty then .noOutput else .textOutput)

@[simp]
theorem has_union (code other : ExitCode) (flag : Flag) :
    (code ∪ other).has flag = (code.has flag || other.has flag) := by
  simp [has, Union.union]

@[simp]
theorem has_ofFlag (flag other : Flag) : (ofFlag flag).has other = decide (flag = other) := by
  cases flag <;> cases other <;> rfl

@[simp]
theorem has_empty (flag : Flag) : (∅ : ExitCode).has flag = false := by
  cases flag <;> rfl

theorem has_ofFlags (flags : List Flag) (flag : Flag) :
    (ofFlags flags).has flag = decide (flag ∈ flags) := by
  induction flags with
  | nil => exact has_empty flag
  | cons first rest ih =>
    change (ofFlag first ∪ ofFlags rest).has flag = _
    rw [has_union, has_ofFlag, ih]
    by_cases same : flag = first
    · simp [same]
    · simp [same, Ne.symm same]

/-- Only two flags can come with the output. -/
theorem has_withOutput (code : ExitCode) (output : List Char) {flag : Flag}
    (printed : flag ≠ .textOutput) (silent : flag ≠ .noOutput) :
    (code.withOutput output).has flag = code.has flag := by
  rw [withOutput, has_union, has_ofFlag]
  split
  · simp [Ne.symm silent]
  · simp [Ne.symm printed]

end ExitCode

/-- The flag of the fault itself. A run out of time raised no exception and has none. -/
def Fault.flag? : Fault → Option Flag
  | upperBound => some .upperBoundExceeded
  | lowerBound => some .lowerBoundExceeded
  | maxValue => some .maxValueExceeded
  | negativeValue => some .negativeValue
  | outputLimit => some .stdoutBufferLimitExceeded
  | inputExhausted => some .stdinBufferExhausted
  | duplicateFunction _ => some .duplicateFunctionDefinition
  | functionLimit => some .functionsLimitExceeded
  | undefinedFunction _ => some .undefinedFunctionCalled
  | depthLimit => some .callDepthExceeded
  | timeBudget => none

def Fault.exitCode (fault : Fault) : ExitCode :=
  match fault.flag? with
  | some flag => .ofFlags [.failure, .exceptionThrown, flag]
  | none => .ofFlags [.failure, .thresholdExceeded]

end TapeStepper
