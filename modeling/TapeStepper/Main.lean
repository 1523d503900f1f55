import TapeStepper.Display
import TapeStepper.Timing

namespace TapeStepper

/-- A stopwatch on the wall clock. -/
def wallTimer : Timer IO := do
  let begun ← IO.monoNanosNow
  return fun _ => do
    let now ← IO.monoNanosNow
    return now - begun

def write (output : Text) (messages : List String) : IO Unit := do
  IO.print (String.ofList output)
  messages.forM fun line => IO.eprintln line

/-- More steps than any run takes. -/
def patience : Nat := 1000000000000000000

def historyLimit : Nat := 256 * 1024 * 1024

/-- The debugger by lines: every line of input names a key, and an empty line
lets a second pass. -/
partial def debug (input : IO.FS.Stream) (debugger : Debugger) : IO UInt32 := do
  let shown := debugger.settle 80 24
  for row in (shown.draw 80 24).rows do
    IO.println (String.ofList (row.map Glyph.char))
  let line ← input.getLine
  let name := line.trimAscii.toString
  let fuel := patience
  let watch : Stopwatch := fun _ => 0
  if line.isEmpty then return 0
  else if name.isEmpty then debug input ((shown.tick fuel watch).getD shown)
  else
    let key := (Key.ofName? name).getD .other
    if key.quits then return 0
    else debug input ((shown.press fuel watch key).getD shown)

/-- What the system says about a file that cannot be read. Its codes are below
zero. -/
def describe : IO.Error → ReadError
  | .noFileOrDirectory _ _ _ => .missing
  | .inappropriateType _ code details => .system details (0 - code).toNat
  | .invalidArgument _ code details => .system details (0 - code).toNat
  | .permissionDenied _ code details => .system details (0 - code).toNat
  | .resourceExhausted _ code details => .system details (0 - code).toNat
  | .otherError code details => .system details (0 - code).toNat
  | error => .system (toString error) 5

def readFile (file : String) : IO (Except ReadError String) := do
  try
    let bytes ← IO.FS.readBinFile file
    match String.fromUTF8? bytes with
    | some source => return .ok source
    | none => return .error .notText
  catch error => return .error (describe error)

end TapeStepper

open TapeStepper in
def main (words : List String) : IO UInt32 := do
  if (Request.ofWords? words).isNone then
    IO.eprintln "usage: FILE [--mode short|byte] [--tape-size N] [--timeout-ms MS] [--input TEXT]"
  match ← carryOutWordsM patience wallTimer Decimal.duration write readFile words with
  | none => return 1
  | some (.inl status) => return status.toUInt32
  | some (.inr (session, source)) =>
    debug (← IO.getStdin) (Debugger.start session source historyLimit)
