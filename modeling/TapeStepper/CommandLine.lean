import TapeStepper.Compile
import TapeStepper.Decimal
import TapeStepper.Session

namespace TapeStepper

/-- What the command line asks for. -/
structure Request where
  file : String
  config : Config
  input : Text
  breakLines : List Nat
  headless : Bool
  emitC : Bool

/-- The options that take a value. -/
inductive OptionName
  | mode | tapeSize | timeout | input | breakAt
  deriving DecidableEq

inductive FlagName
  | headless | emitC
  deriving DecidableEq

namespace OptionName

def ofString? : String → Option OptionName
  | "--mode" => some mode
  | "--tape-size" => some tapeSize
  | "--timeout-ms" => some timeout
  | "--input" => some input
  | "--break-at" => some breakAt
  | _ => none

/-- Whether the option may be given more than once. -/
def repeats : OptionName → Bool
  | breakAt => true
  | mode | tapeSize | timeout | input => false

end OptionName

def FlagName.ofString? : String → Option FlagName
  | "--headless" => some headless
  | "--emit-c" => some emitC
  | _ => none

/-- One part of the command line. -/
inductive Argument
  | option (name : OptionName) (value : String)
  | flag (name : FlagName)
  | file (name : String)
  deriving DecidableEq

namespace Argument

/-- A word that stands for itself: no option, or a lone dash. -/
def isValue (word : String) : Bool :=
  !word.startsWith "-" || word == "-"

/-- An option with its value attached, as in `--mode=byte`. -/
def ofAttached? (word : String) : Option Argument :=
  match word.splitOn "=" with
  | name :: rest@(_ :: _) =>
    (OptionName.ofString? name).map fun option => .option option ("=".intercalate rest)
  | _ => none

/-- Reads the words one by one. Behind `--` every word is a file; a value that
starts with a dash has to be attached to its option. -/
def readAll? : List String → Option (List Argument)
  | [] => some []
  | "--" :: words => some (words.map file)
  | word :: words =>
    if isValue word then (file word :: ·) <$> readAll? words
    else
      match FlagName.ofString? word, OptionName.ofString? word, words with
      | some name, _, words => (flag name :: ·) <$> readAll? words
      | none, some name, value :: words =>
        if isValue value then (option name value :: ·) <$> readAll? words else none
      | none, some _, [] => none
      | none, none, words => do
        let argument ← ofAttached? word
        let arguments ← readAll? words
        return argument :: arguments

end Argument

/-- A number below 2^64 in decimal digits, perhaps after a plus sign. -/
def parseNumber? (text : String) : Option Nat :=
  let digits := match text.toList with
    | '+' :: rest => rest
    | rest => rest
  if digits.isEmpty || !digits.all Char.isDigit then none
  else
    let number := digits.foldl (fun number c => 10 * number + (c.toNat - '0'.toNat)) 0
    if number < 18446744073709551616 then some number else none

def CellMode.ofString? : String → Option CellMode
  | "short" => some .short
  | "byte" => some .byte
  | _ => none

namespace Request

/-- The request without any option. -/
def ofFile (file : String) : Request :=
  ⟨file, ⟨.short, defaultTapeSize, none⟩, [], [], false, false⟩

def withArgument? (request : Request) : Argument → Option Request
  | .option .mode value => do
    let mode ← CellMode.ofString? value
    return { request with config.mode := mode }
  | .option .tapeSize value => do
    let size ← parseNumber? value
    return { request with config.tapeSize := size }
  | .option .timeout value => do
    let milliseconds ← parseNumber? value
    return { request with config.budget := some (milliseconds * 1000000) }
  | .option .input value => some { request with input := value.toList }
  | .option .breakAt value => do
    let line ← parseNumber? value
    return { request with breakLines := request.breakLines ++ [line] }
  | .flag .headless => some { request with headless := true }
  | .flag .emitC => some { request with emitC := true }
  | .file _ => some request

/-- Whether the argument may not be given a second time. -/
def isSingle : Argument → Bool
  | .option name _ => !name.repeats
  | .flag _ => true
  | .file _ => false

/-- What an argument is about, apart from its value. -/
def sameSubject : Argument → Argument → Bool
  | .option name _, .option other _ => name == other
  | .flag name, .flag other => name == other
  | _, _ => false

def hasRepeats : List Argument → Bool
  | [] => false
  | argument :: rest => (isSingle argument && rest.any (sameSubject argument)) || hasRepeats rest

def file? : Argument → Option String
  | .file name => some name
  | .option _ _ | .flag _ => none

/-- Reads a command line: one file, and options in any order. -/
def ofWords? (words : List String) : Option Request := do
  let arguments ← Argument.readAll? words
  match arguments.filterMap file? with
  | [file] =>
    if hasRepeats arguments || file.isEmpty then none
    else arguments.foldlM withArgument? (ofFile file)
  | _ => none

end Request

/-- Cuts a text behind each line end whose next line is asked for. The text
starts on the given line. -/
def splitLinesFrom (line : Nat) (asked : List Nat) : Text → List Text
  | [] => [[]]
  | c :: rest =>
    if c = '\n' then
      let chunks := splitLinesFrom (line + 1) asked rest
      if line + 1 ∈ asked then [c] :: chunks else consFirst c chunks
    else consFirst c (splitLinesFrom line asked rest)

/-- Cuts a script before each of the given lines, counted from one. -/
def splitAtLines (source : Text) (asked : List Nat) : List Text :=
  splitLinesFrom 1 asked source

theorem flatten_splitLinesFrom (line : Nat) (asked : List Nat) (source : Text) :
    (splitLinesFrom line asked source).flatten = source := by
  induction source generalizing line with
  | nil => rfl
  | cons c rest ih =>
    unfold splitLinesFrom
    split
    · simp only
      split <;> simp [ih]
    · simp [ih]

theorem flatten_splitAtLines (source : Text) (asked : List Nat) :
    (splitAtLines source asked).flatten = source :=
  flatten_splitLinesFrom 1 asked source

/-- What a finished command has written, and its exit status. -/
structure Report where
  status : Nat
  output : Text
  messages : List String

/-- Why a script cannot be read: it is no text, or the system says why. -/
inductive ReadError
  | notText
  | system (description : String) (code : Nat)

namespace ReadError

def missing : ReadError :=
  system "No such file or directory" 2

def message : ReadError → String
  | notText => "stream did not contain valid UTF-8"
  | system description code => s!"{description} (os error {code})"

end ReadError

namespace Report

def failed (message : String) : Report :=
  ⟨1, [], ["Error: " ++ message]⟩

/-- The command line was not understood; nothing is run. -/
def misused : Report :=
  ⟨2, [], []⟩

def unreadable (file : String) (error : ReadError) : Report :=
  failed ("cannot read '" ++ file ++ "': " ++ error.message)

end Report

/-- The lines that tell how a run stands. -/
def Result.summary (showTime : Nat → Text) (result : Result) : List String :=
  let flags := " | ".intercalate result.exitCode.labels
  let operations := result.operations
  let time := String.ofList (showTime result.elapsed)
  s!"[{flags}] {operations} operations in {time}" ::
    match result.trace with
    | none => []
    | some trace =>
      let offset := trace.offset
      s!"  at offset {offset}" ::
        trace.frames.map fun frame => "    " ++ String.ofList (Operator.text frame)

namespace Session

/-- Resumes a session again and again and tells how it stands each time. Of each
result only what is new in its output is written. -/
def report (fuel : Nat) (watch : Stopwatch) (showTime : Nat → Text) :
    (pauses printed : Nat) → Session → Option Report
  | pauses, printed, session => do
    let fresh := session.result.output.drop printed
    let messages := session.result.summary showTime
    if session.canContinue then
      match pauses with
      | 0 => none
      | pauses + 1 =>
        match session.resume fuel watch with
        | .error error => return ⟨1, fresh, messages ++ ["Error: " ++ error.message]⟩
        | .ok next =>
          let later ← (← next).report fuel watch showTime pauses session.result.output.length
          return { later with
            output := fresh ++ later.output
            messages := messages ++ later.messages }
    else return ⟨if session.result.exitCode.isSuccess then 0 else 1, fresh, messages⟩

end Session

/-- What a command comes to: it is finished, or a session is to be debugged. -/
inductive Command
  | finished (report : Report)
  | debug (session : Session) (source : Text)

namespace Request

def emit (request : Request) (source : Text) : Report :=
  match compile source request.config.tapeSize with
  | .ok program => ⟨0, program.text, []⟩
  | .error error => .failed error.message

/-- Carries out a request for a script that has been read. -/
def carryOut (fuel : Nat) (watch : Stopwatch) (showTime : Nat → Text) (request : Request)
    (source : Text) : Option Command :=
  if request.emitC then some (.finished (request.emit source))
  else
    match Session.start fuel watch request.config (splitAtLines source request.breakLines)
      request.input with
    | .error error => some (.finished (.failed error.message))
    | .ok none => none
    | .ok (some session) =>
      if request.headless then
        (session.report fuel watch showTime fuel 0).map .finished
      else some (.debug session source)

end Request

/-- Carries out a command line, with `read` to get at the script. -/
def carryOutWords (fuel : Nat) (watch : Stopwatch) (showTime : Nat → Text)
    (read : String → Except ReadError String) (words : List String) : Option Command :=
  match Request.ofWords? words with
  | none => some (.finished .misused)
  | some request =>
    match read request.file with
    | .error error => some (.finished (.unreadable request.file error))
    | .ok source => request.carryOut fuel watch showTime source.toList

end TapeStepper
