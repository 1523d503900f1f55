import TapeStepper.Result

namespace TapeStepper

namespace Result

/-- Bytes counted for a result before its parts of varying size. -/
def recordSize : Nat := 184

/-- An estimate of the memory that a result takes, in bytes. -/
def estimatedSize (result : Result) : Nat :=
  recordSize + 2 * result.tape.size + byteLength result.output +
    result.source.length +
    totalOf List.length ((result.trace.map Trace.frames).getD []) +
    totalOf (fun listing => listing.body.length + 16) result.functions

end Result

/-- Results in the order they came in, as long as there is memory for them. -/
structure History where
  limit : Nat
  results : List Result
  used : Nat
  used_eq : used = totalOf Result.estimatedSize results
  used_le : used ≤ limit

/-- A result that does not fit. -/
structure HistoryFull where
  used : Nat
  required : Nat
  limit : Nat

def HistoryFull.message (full : HistoryFull) : String :=
  let used := full.used
  let required := full.required
  let limit := full.limit
  s!"history memory limit exceeded: {used} + {required} > {limit}"

namespace History

def empty (limit : Nat) : History :=
  ⟨limit, [], 0, rfl, Nat.zero_le limit⟩

def length (history : History) : Nat :=
  history.results.length

def get? (history : History) (index : Nat) : Option Result :=
  history.results[index]?

def push (history : History) (result : Result) : Except HistoryFull History :=
  if fits : history.used + result.estimatedSize ≤ history.limit then
    .ok {
      limit := history.limit
      results := history.results ++ [result]
      used := history.used + result.estimatedSize
      used_eq := by simp [history.used_eq]
      used_le := fits }
  else .error ⟨history.used, result.estimatedSize, history.limit⟩

theorem results_push {history longer : History} {result : Result}
    (step : history.push result = .ok longer) :
    longer.results = history.results ++ [result] ∧ longer.limit = history.limit := by
  unfold push at step
  split at step
  · cases step
    exact ⟨rfl, rfl⟩
  · cases step

end History

end TapeStepper
