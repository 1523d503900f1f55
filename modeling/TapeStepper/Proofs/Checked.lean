import TapeStepper.Debugger
import TapeStepper.Proofs.Sessions

namespace TapeStepper

/-- The most bytes that anything takes in memory, 2^63 - 1. A character takes one byte at least, a cell
takes two. -/
def memoryLimit : Nat := 9223372036854775807

/-- The longest time that is counted, in nanoseconds: 2^64 seconds less one nanosecond. -/
def durationLimit : Nat := 18446744073709551615999999999

namespace Checked

def add? (first second : Nat) : Option Nat :=
  if first + second ≤ lastOffset then some (first + second) else none

def sub? (first second : Nat) : Option Nat :=
  if second ≤ first then some (first - second) else none

theorem add?_of_le {first second : Nat} (bound : first + second ≤ lastOffset) :
    add? first second = some (first + second) :=
  if_pos bound

theorem sub?_of_le {first second : Nat} (bound : second ≤ first) :
    sub? first second = some (first - second) :=
  if_pos bound

/-- An offset at the far end of a pane leaves no room for rows. -/
example : add? lastOffset 1 = none := rfl

/-- What breaks off a program in the middle: a check that fails, cells for which no memory has room,
or a time that is too long to be counted. -/
inductive Abort
  | check
  | capacity
  | time
  deriving DecidableEq

/-- Goes on with the value, which is there unless a check has failed. -/
def demand {α : Type} : Option α → Except Abort α
  | some value => .ok value
  | none => .error .check

def addTime (first second : Nat) : Except Abort Nat :=
  if first + second ≤ durationLimit then .ok (first + second) else .error .time

def deadline (config : Config) (carried : Nat) : Except Abort (Option Nat) :=
  match config.budget with
  | some budget => (addTime budget carried).map some
  | none => .ok none

/-- A row of cells and the index of the current one. -/
structure Strip where
  cells : List Nat
  position : Nat

namespace Strip

def blank (size : Nat) : Except Abort Strip :=
  if size = 0 then .error .check
  else if memoryLimit < 2 * size then .error .capacity
  else .ok ⟨List.replicate size 0, 0⟩

def current? (strip : Strip) : Option Nat :=
  strip.cells[strip.position]?

def set? (value : Nat) (strip : Strip) : Option Strip :=
  if strip.position < strip.cells.length then
    some { strip with cells := strip.cells.set strip.position value }
  else none

def canNext (strip : Strip) : Bool :=
  decide (strip.position + 1 < strip.cells.length)

def canBack (strip : Strip) : Bool :=
  decide (0 < strip.position)

-- The next four may only be asked for when they are possible; nothing is clamped.

def next? (strip : Strip) : Option Strip :=
  if strip.canNext then some { strip with position := strip.position + 1 } else none

def back? (strip : Strip) : Option Strip :=
  if strip.canBack then some { strip with position := strip.position - 1 } else none

def increment? (strip : Strip) : Option Strip := do
  let value ← strip.current?
  if value < shortMax then strip.set? (value + 1) else none

def decrement? (strip : Strip) : Option Strip := do
  let value ← strip.current?
  if 0 < value then strip.set? (value - 1) else none

def wrapToBytes (strip : Strip) : Strip :=
  { strip with cells := strip.cells.map (· % 256) }

def adapt (mode : CellMode) (strip : Strip) : Strip :=
  match mode with
  | .short => strip
  | .byte => strip.wrapToBytes

def tape? (strip : Strip) : Option Tape :=
  (Tape.ofCells? strip.cells).bind (Tape.advance? strip.position)

end Strip

structure Memory where
  strip : Strip
  input : Text
  output : Output
  functions : FunctionTable (List Token)
  operations : Nat

namespace Memory

def start (strip : Strip) (input : Text) : Memory :=
  ⟨strip, input, .empty, .empty, 0⟩

def count (operations : Nat) (memory : Memory) : Memory :=
  { memory with operations := memory.operations + operations }

def withStrip (memory : Memory) (strip : Strip) : Memory :=
  { memory with strip }

/-- The strip is asked whether a change is possible, and then changed. -/
def perform? (mode : CellMode) (memory : Memory) : Action → Option (Except Fault Memory)
  | .next =>
    if memory.strip.canNext then do
      let strip ← memory.strip.next?
      return .ok (memory.withStrip strip)
    else some (.error .upperBound)
  | .back =>
    if memory.strip.canBack then do
      let strip ← memory.strip.back?
      return .ok (memory.withStrip strip)
    else some (.error .lowerBound)
  | .plus => do
    let value ← memory.strip.current?
    if mode = .byte ∧ value = byteMax then
      let strip ← memory.strip.set? 0
      return .ok (memory.withStrip strip)
    else if value < shortMax then
      let strip ← memory.strip.increment?
      return .ok (memory.withStrip strip)
    else return .error .maxValue
  | .minus => do
    let value ← memory.strip.current?
    if 0 < value then
      let strip ← memory.strip.decrement?
      return .ok (memory.withStrip strip)
    else if mode = .byte then
      let strip ← memory.strip.set? byteMax
      return .ok (memory.withStrip strip)
    else return .error .negativeValue
  | .print =>
    if memory.output.canWrite then do
      let value ← memory.strip.current?
      let output ← memory.output.write? (Tape.charOf value)
      return .ok { memory with output }
    else some (.error .outputLimit)
  | .read =>
    match memory.input with
    | [] => some (.error .inputExhausted)
    | c :: input =>
      match mode.encode? c with
      | some value => do
        let strip ← memory.strip.set? value
        return .ok { memory with strip, input }
      | none => some (.error .negativeValue)

/-- A body that is put into the table must not be empty. -/
def define? (memory : Memory) (key : Nat) (body : List Token) : Option (Except Fault Memory) :=
  match memory.functions.define key body with
  | .ok functions => if body.isEmpty then none else some (.ok { memory with functions })
  | .error fault => some (.error fault)

end Memory

/-- How many operators there are up to the `]` that closes a loop, when `height` more loops
were opened inside it. -/
def toLoopEnd? : Nat → List Token → Option Nat
  | _, [] => none
  | height, token :: rest =>
    match token.operator, height with
    | .loopStart, height => (toLoopEnd? (height + 1) rest).map (· + 1)
    | .loopEnd, 0 => some 1
    | .loopEnd, height + 1 => (toLoopEnd? height rest).map (· + 1)
    | _, height => (toLoopEnd? height rest).map (· + 1)

/-- The number of operators in the body of the loop opened at `start`, its `]` included. -/
def loopLength? (code : List Token) (start : Nat) : Option Nat := do
  let token ← code[start]?
  if token.operator = .loopStart then toLoopEnd? 0 (code.drop (start + 1)) else none

def toFunctionEnd? : List Token → Option (List Token)
  | [] => none
  | token :: rest =>
    if token.operator = .functionEnd then some []
    else (toFunctionEnd? rest).map (token :: ·)

def functionBody? (code : List Token) (start : Nat) : Option (List Token) := do
  let token ← code[start]?
  if token.operator = .functionStart then toFunctionEnd? (code.drop (start + 1)) else none

/-- The offsets of `-` and `]` when the loop opened at `start` is `[-]`. -/
def resetLoop? (code : List Token) (start : Nat) : Option (Nat × Nat) :=
  match code.drop (start + 1) with
  | ⟨minus, .act .minus⟩ :: ⟨closes, .loopEnd⟩ :: _ => some (minus, closes)
  | _ => none

def slice? (code : List Token) (start stop : Nat) : Option (List Token) :=
  if start ≤ stop ∧ stop ≤ code.length then some ((code.take stop).drop start) else none

/-- What a level had reached when the run stopped. -/
structure Frame where
  reached : List Token
  last? : Option Nat
  index : Nat
  key? : Option Nat

/-- Stands in for a level on which the time was up. -/
def Frame.empty : Frame :=
  ⟨[], none, 0, none⟩

/-- A body that is being run. It lies in `code` from `start` to `stop`, and `back` is where the
level around it goes on. -/
structure Span where
  code : List Token
  start : Nat
  stop : Nat
  index : Nat
  back : Nat
  key? : Option Nat

namespace Span

def top (code : List Token) : Span :=
  ⟨code, 0, code.length, 0, 0, none⟩

def call (body : List Token) (key back : Nat) : Span :=
  ⟨body, 0, body.length, 0, back, some key⟩

/-- The body of the loop that the level has come to. -/
def loop? (span : Span) : Option Span := do
  let length ← loopLength? span.code span.index
  let close := span.index + length
  return ⟨span.code, span.index + 1, close + 1, span.index + 1, close + 1, none⟩

def frame? (span : Span) (key? : Option Nat) : Option Frame := do
  let body ← slice? span.code span.start span.stop
  let index ← sub? span.index span.start
  let reached ← slice? body 0 (index + 1)
  let last ← body[index]?
  return ⟨reached, some last.offset, index, key?⟩

end Span

/-- The frames of the levels around the innermost one, with the keys they were left by. -/
def outerFrames? (inner : Span) : List Span → Option (List Frame)
  | [] => some []
  | around :: outer => do
    let frame ← around.frame? inner.key?
    let frames ← outerFrames? around outer
    return frame :: frames

inductive Ending
  | finished
  | paused (frames : List Frame)
  | failed (fault : Fault) (frames : List Frame)

structure Engine where
  memory : Memory
  inner : Span
  outer : List Span
  armed : Bool

inductive Flow
  | running (engine : Engine)
  | halted (memory : Memory) (ending : Ending)

namespace Engine

def frames? (engine : Engine) : Option (List Frame) := do
  let frame ← engine.inner.frame? none
  let frames ← outerFrames? engine.inner engine.outer
  return frame :: frames

def fail? (engine : Engine) (fault : Fault) : Option Flow := do
  let frames ← engine.frames?
  return .halted engine.memory (.failed fault frames)

/-- Goes on `count` operators later. -/
def moveBy (count : Nat) (engine : Engine) (memory : Memory) : Flow :=
  .running ⟨memory, { engine.inner with index := engine.inner.index + count }, engine.outer, true⟩

def arrive? (late : Bool) (memory : Memory) (inner : Span) (outer : List Span) : Option Flow :=
  if late then do
    let frames ← outerFrames? inner outer
    return .halted memory (.failed .timeBudget (.empty :: frames))
  else some (.running ⟨memory, inner, outer, true⟩)

def leave (engine : Engine) (memory : Memory) (armed : Bool) : Flow :=
  match engine.outer with
  | around :: outer => .running ⟨memory, { around with index := engine.inner.back }, outer, armed⟩
  | [] => .halted memory .finished

def skips (rules : Rules) (span : Span) : Bool :=
  match resetLoop? span.code span.index with
  | some (minus, closes) => rules.shortcut && !rules.pausesAt minus && !rules.pausesAt closes
  | none => false

def act? (rules : Rules) (engine : Engine) (action : Action) : Option Flow := do
  match ← engine.memory.perform? rules.mode action with
  | .ok memory => return engine.moveBy 1 (memory.count 1)
  | .error fault => engine.fail? fault

def openLoop? (rules : Rules) (late : Bool) (engine : Engine) : Option Flow := do
  let value ← engine.memory.strip.current?
  if value = 0 then
    let length ← loopLength? engine.inner.code engine.inner.index
    return engine.moveBy (length + 1) (engine.memory.count 1)
  else if skips rules engine.inner then
    let strip ← engine.memory.strip.set? 0
    return engine.moveBy 3 ((engine.memory.withStrip strip).count (2 * value + 1))
  else
    let body ← engine.inner.loop?
    arrive? late (engine.memory.count 1) body (engine.inner :: engine.outer)

def closeLoop? (late : Bool) (engine : Engine) : Option Flow := do
  let value ← engine.memory.strip.current?
  if value = 0 then return engine.leave (engine.memory.count 1) true
  else
    let again := { engine.inner with index := engine.inner.start }
    arrive? late (engine.memory.count 1) again engine.outer

def define? (engine : Engine) : Option Flow := do
  let body ← functionBody? engine.inner.code engine.inner.index
  let key ← engine.memory.strip.current?
  match ← engine.memory.define? key body with
  | .ok memory => return engine.moveBy (body.length + 2) memory
  | .error fault => engine.fail? fault

def call? (late : Bool) (engine : Engine) : Option Flow := do
  let key ← engine.memory.strip.current?
  match engine.memory.functions.get? key with
  | none => engine.fail? (.undefinedFunction key)
  | some body =>
    if engine.outer.length + 1 < depthLimit then
      let level := Span.call body key (engine.inner.index + 1)
      arrive? late (engine.memory.count 1) level (engine.inner :: engine.outer)
    else engine.fail? .depthLimit

/-- Runs one operator. A `)` on its own would be passed over. -/
def execute? (rules : Rules) (late : Bool) (engine : Engine) : Operator → Option Flow
  | .act action => engine.act? rules action
  | .loopStart => engine.openLoop? rules late
  | .loopEnd => engine.closeLoop? late
  | .functionStart => engine.define?
  | .functionEnd => some (engine.moveBy 1 engine.memory)
  | .call => engine.call? late

def step? (rules : Rules) (late : Bool) (engine : Engine) : Option Flow :=
  if engine.inner.index = engine.inner.stop then
    some (engine.leave engine.memory engine.armed)
  else do
    let token ← engine.inner.code[engine.inner.index]?
    if engine.armed && rules.pausesAt token.offset then
      let frames ← engine.frames?
      return .halted engine.memory (.paused frames)
    else engine.execute? rules late token.operator

/-- The level that the operator at the index opens. A path leads through nothing but loops and
functions that are defined. -/
def opened? (key? : Option Nat) (engine : Engine) : Option Span := do
  let token ← engine.inner.code[engine.inner.index]?
  match token.operator, key? with
  | .loopStart, _ => engine.inner.loop?
  | .call, some key => do
    let body ← engine.memory.functions.get? key
    return .call body key (engine.inner.index + 1)
  | _, _ => none

def moveTo (index : Nat) (engine : Engine) : Engine :=
  { engine with inner := { engine.inner with index := engine.inner.start + index } }

end Engine

/-- Where a level was left: an index in its body, and the key of the function that was called. -/
structure Mark where
  index : Nat
  key? : Option Nat

/-- Where a run has paused, innermost level first. -/
structure Bookmark where
  offset : Nat
  marks : List Mark

def Frame.mark (frame : Frame) : Mark :=
  ⟨frame.index, frame.key?⟩

/-- Where the run stopped; the offset is that of the innermost frame that has one. -/
def traceOf (frames : List Frame) : Trace where
  frames := frames.map fun frame => operators frame.reached
  offset := (frames.findSome? Frame.last?).getD 0

def Flow.onward? (next : Engine → Option Flow) : Flow → Option Flow
  | running engine => next engine
  | halted memory ending => some (.halted memory ending)

namespace Engine

/-- Enters the level that is opened at the mark and asks the clock. -/
def openMark? (late : Nat → Bool) (mark : Mark) (engine : Engine) : Option Flow := do
  let level ← (engine.moveTo mark.index).opened? mark.key?
  let outer := (engine.moveTo mark.index).inner :: engine.outer
  arrive? (late outer.length) engine.memory level outer

/-- Enters the levels along a path, outermost first. -/
def descend? (late : Nat → Bool) : List Mark → Engine → Option Flow
  | [], engine => some (.running engine)
  | mark :: path, engine => do
    let flow ← engine.openMark? late mark
    flow.onward? (descend? late path)

/-- Goes to the operator that the first mark names; it is run even if it is a breakpoint. -/
def revisit (engine : Engine) : List Mark → Engine
  | [] => engine
  | target :: _ => { engine.moveTo target.index with armed := false }

/-- Enters the operators, of which there must be one, and the levels that are marked. -/
def enter? (late : Nat → Bool) (tokens : List Token) (memory : Memory) (marks : List Mark) :
    Option Flow :=
  if tokens.isEmpty then none else do
    let top ← arrive? (late 0) memory (.top tokens) []
    let flow ← top.onward? (descend? late marks.tail.reverse)
    flow.onward? fun engine => some (.running (engine.revisit marks))

end Engine

structure Stop where
  steps : Nat
  memory : Memory
  ending : Ending

def Flow.finish? (rules : Rules) (late : Nat → Bool) :
    (fuel steps : Nat) → Flow → Option (Option Stop)
  | _, steps, .halted memory ending => some (some ⟨steps, memory, ending⟩)
  | 0, _, .running _ => some none
  | fuel + 1, steps, .running engine => do
    let flow ← engine.step? rules (late steps)
    finish? rules late fuel (steps + 1) flow

/-- Runs the operators from their start or from the marks. There is one question to the clock for
each level on the way in. -/
def Engine.run? (rules : Rules) (late : Nat → Bool) (fuel : Nat) (tokens : List Token)
    (memory : Memory) (marks : List Mark) : Option (Option Stop) := do
  let flow ← Engine.enter? late tokens memory marks
  flow.finish? rules late fuel (max marks.length 1)

namespace Ending

def exitCode : Ending → ExitCode
  | finished => .ofFlags [.success]
  | paused _ => .ofFlags [.success, .breakpointReached]
  | failed fault _ => fault.exitCode

def trace? : Ending → Option Trace
  | finished => none
  | paused frames | failed _ frames => some (traceOf frames)

def bookmark? : Ending → Option Bookmark
  | paused frames => some ⟨(traceOf frames).offset, frames.map Frame.mark⟩
  | finished | failed _ _ => none

end Ending

def listing (key : Nat) (body : List Token) : FunctionListing where
  key := key
  offset := (body.head?.map Token.offset).getD 0
  body := operators body

def result? (tokens : List Token) (elapsed : Nat) (memory : Memory) (ending : Ending) :
    Option Result := do
  let tape ← memory.strip.tape?
  return {
    exitCode := ending.exitCode.withOutput memory.output.chars
    tape := tape
    output := memory.output.chars
    source := operators tokens
    elapsed := elapsed
    operations := memory.operations
    trace := ending.trace?
    breakpoint := ending.bookmark?.map Bookmark.offset
    functions := memory.functions.entries.map fun (key, body) => listing key body }

/-- A run and its result, when `carried` has been spent before. -/
def execute (config : Config) (breakpoints : Breakpoints) (fuel : Nat) (watch : Stopwatch)
    (carried : Nat) (tokens : List Token) (memory : Memory) (marks : List Mark) :
    Except Abort (Option (Stop × Result)) := do
  let deadline ← deadline config carried
  let rules := ⟨config.mode, breakpoints, true⟩
  match ← demand (Engine.run? rules (isLate deadline watch) fuel tokens memory marks) with
  | none => return none
  | some stop =>
    let elapsed ← addTime carried (watch stop.steps)
    let result ← demand (result? tokens elapsed stop.memory stop.ending)
    return some (stop, result)

/-- The operators of a script that is to be run. -/
def accept (source : Text) : Except Rejection (List Token) :=
  if hasCode source then
    match bracketFault? (tokens source) with
    | some offset => .error (.mismatched offset)
    | none => .ok (tokens source)
  else .error .noCode

def runOn (fuel : Nat) (watch : Stopwatch) (config : Config) (source input : Text)
    (strip : Strip) : Except Abort (Option Result) :=
  match accept source with
  | .error rejection => do
    let tape ← demand strip.tape?
    return some (rejection.result source tape)
  | .ok tokens => do
    let report ← execute config .empty fuel watch 0 tokens (.start strip input) []
    return report.map Prod.snd

def run (fuel : Nat) (watch : Stopwatch) (config : Config) (source input : Text) :
    Except Abort (Except ConfigError (Option Result)) :=
  match config.validate with
  | .error error => .ok (.error error)
  | .ok () => do
    let strip ← Strip.blank config.tapeSize
    let result ← runOn fuel watch config source input strip
    return .ok result

def runWithTape (fuel : Nat) (watch : Stopwatch) (config : Config) (source input : Text)
    (strip : Strip) : Except Abort (Except ConfigError (Option Result)) :=
  match config.validate with
  | .error error => .ok (.error error)
  | .ok () => do
    let result ← runOn fuel watch config source input (strip.adapt config.mode)
    return .ok result

structure Script where
  config : Config
  tokens : List Token
  breakpoints : List Nat

/-- The breakpoints that are left when a request is served. -/
def Script.offsets (script : Script) : TapeStepper.Session.Request → List Nat
  | .resume => script.breakpoints
  | .complete => []

structure Session where
  script : Script
  memory : Memory
  elapsed : Nat
  bookmark? : Option Bookmark
  result : Result

def Script.proceed (script : Script) (fuel : Nat) (watch : Stopwatch) (carried : Nat)
    (breakpoints : List Nat) (memory : Memory) (marks : List Mark) :
    Except Abort (Option Session) := do
  let report ← execute script.config (.ofList breakpoints) fuel watch carried script.tokens memory marks
  return report.map fun (stop, result) =>
    ⟨script, stop.memory, result.elapsed, stop.ending.bookmark?, result⟩

namespace Session

def start (fuel : Nat) (watch : Stopwatch) (config : Config) (chunks : List Text) (input : Text) :
    Except Abort (Except ConfigError (Option Session)) :=
  match config.validate with
  | .error error => .ok (.error error)
  | .ok () => do
    let strip ← Strip.blank config.tapeSize
    let memory := Memory.start strip input
    match accept chunks.flatten with
    | .error rejection =>
      let tape ← demand strip.tape?
      return .ok (some ⟨⟨config, [], []⟩, memory, 0, none, rejection.result chunks.flatten tape⟩)
    | .ok tokens =>
      let script : Script := ⟨config, tokens, chunkBreakpoints chunks⟩
      let session ← script.proceed fuel watch 0 script.breakpoints memory []
      return .ok session

def serve (request : TapeStepper.Session.Request) (fuel : Nat) (watch : Stopwatch)
    (session : Session) : Except Abort (Except SessionError (Option Session)) :=
  match session.bookmark? with
  | none => .ok (.error .terminated)
  | some bookmark => do
    let next ← session.script.proceed fuel watch session.elapsed (session.script.offsets request)
      session.memory bookmark.marks
    return .ok next

def answers (session : Session) :
    List TapeStepper.Session.Call → Except Abort (List (Except SessionError Result))
  | [] => .ok []
  | call :: calls => do
    match ← session.serve call.request call.fuel call.watch with
    | .error error =>
      let answers ← session.answers calls
      return .error error :: answers
    | .ok none => return []
    | .ok (some next) =>
      let answers ← next.answers calls
      return .ok next.result :: answers

end Session

def transcript (fuel : Nat) (watch : Stopwatch) (config : Config) (chunks : List Text)
    (input : Text) (calls : List TapeStepper.Session.Call) :
    Except Abort (Except ConfigError (List (Except SessionError Result))) := do
  match ← Session.start fuel watch config chunks input with
  | .error error => return .error error
  | .ok none => return .ok []
  | .ok (some session) =>
    let answers ← session.answers calls
    return .ok (.ok session.result :: answers)

end Checked

end TapeStepper
