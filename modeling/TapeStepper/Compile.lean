import TapeStepper.CProgram
import TapeStepper.Script

namespace TapeStepper

/-- Why a script has no C program. -/
inductive CompileError
  | emptyArray
  | invalid (offset : Nat)
  deriving DecidableEq

def CompileError.message : CompileError → String
  | emptyArray => "array size must be positive"
  | invalid offset => s!"source is not valid (error at offset {offset})"

def Action.toC : Action → CStatement
  | next => .pointerUp
  | back => .pointerDown
  | plus => .cellUp
  | minus => .cellDown
  | print => .put
  | read => .get

/-- The C statements of a block, and the functions defined in it, numbered from
`first` in the order of the script. -/
def Block.toC (first : Nat) : Block → CBlock × List CBlock
  | done => (.done, [])
  | act _ action next =>
    let (statements, functions) := next.toC first
    (.line action.toC statements, functions)
  | call _ next =>
    let (statements, functions) := next.toC first
    (.line .dispatch statements, functions)
  | loop _ body _ next =>
    let (inside, within) := body.toC first
    let (statements, functions) := next.toC (first + within.length)
    (.whileCell inside statements, within ++ functions)
  | define _ body _ next =>
    let (inside, within) := body.toC first
    let number := first + within.length
    let (statements, functions) := next.toC (number + 1)
    (.line (.register number) statements, within ++ inside :: functions)

def Block.toProgram (size : Nat) (block : Block) : CProgram :=
  let (main, functions) := block.toC 0
  ⟨size, functions, main⟩

/-- The C program of a script with an array of `size` cells. A script without
operators has one too. -/
def compile (source : Text) (size : Nat) : Except CompileError CProgram :=
  if size = 0 then .error .emptyArray
  else
    match parse source with
    | .ok block => .ok (block.toProgram size)
    | .error offset => .error (.invalid offset)

end TapeStepper
