import TapeStepper.Text
import TapeStepper.Limits

namespace TapeStepper

/-- What a run has printed so far, never more than the limit. -/
structure Output where
  chars : Text
  bounded : chars.length ≤ outputLimit

namespace Output

def empty : Output :=
  ⟨[], Nat.zero_le _⟩

def canWrite (output : Output) : Bool :=
  decide (output.chars.length < outputLimit)

def write? (output : Output) (c : Char) : Option Output :=
  if room : output.chars.length < outputLimit then
    some ⟨output.chars ++ [c], by simp only [List.length_append, List.length_singleton]; omega⟩
  else
    none

/-- Writes as much of `text` as there is room for. -/
def writeAll (output : Output) : Text → Output
  | [] => output
  | c :: rest =>
    match output.write? c with
    | some written => written.writeAll rest
    | none => output

theorem chars_write? {output written : Output} {c : Char} (step : output.write? c = some written) :
    written.chars = output.chars ++ [c] := by
  unfold write? at step
  split at step
  · cases step
    rfl
  · cases step

theorem write?_eq_none_iff {output : Output} {c : Char} :
    output.write? c = none ↔ output.chars.length = outputLimit := by
  have bound := output.bounded
  unfold write?
  split
  · simp
    omega
  · simp
    omega

end Output

end TapeStepper
