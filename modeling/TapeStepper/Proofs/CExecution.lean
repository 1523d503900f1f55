import TapeStepper.CProgram

namespace TapeStepper

/-- What a C program works on. -/
structure CState where
  array : List UInt8
  pointer : Nat
  table : UInt8 → Option Nat
  input : List UInt8
  output : List UInt8

/-- What `while ((*ptr = getchar()) == '\n') { }` leaves in the cell, and the input behind it. The end
of the input is read as 255, which is no newline. -/
def nextByte : List UInt8 → UInt8 × List UInt8
  | [] => (255, [])
  | byte :: rest => if byte = 10 then nextByte rest else (byte, rest)

namespace CState

/-- A program starts with zeros everywhere. -/
def start (size : Nat) (input : List UInt8) : CState :=
  ⟨List.replicate size 0, 0, fun _ => none, input, []⟩

/-- The cell that is pointed at. -/
def cell? (state : CState) : Option UInt8 :=
  state.array[state.pointer]?

def setCell (value : UInt8) (state : CState) : CState :=
  { state with array := state.array.set state.pointer value }

/-- Points at another cell. A pointer outside the array means nothing. -/
def pointTo? (pointer : Nat) (state : CState) : Option CState :=
  if pointer < state.array.length then some { state with pointer } else none

def register (key : UInt8) (function : Nat) (state : CState) : CState :=
  { state with table := fun other => if other = key then some function else state.table other }

end CState

namespace CStatement

/-- What a statement does itself. `none` if the pointer is or comes to be outside the array. -/
def perform? (state : CState) : CStatement → Option CState
  | pointerUp => state.pointTo? (state.pointer + 1)
  | pointerDown => if state.pointer = 0 then none else state.pointTo? (state.pointer - 1)
  | cellUp => do
    let value ← state.cell?
    return state.setCell (value + 1)
  | cellDown => do
    let value ← state.cell?
    return state.setCell (value - 1)
  | put => do
    let value ← state.cell?
    return { state with output := state.output ++ [value] }
  | get => do
    let _ ← state.cell?
    let (value, input) := nextByte state.input
    return { state.setCell value with input }
  | register function => do
    let value ← state.cell?
    return state.register value function
  | dispatch => do
    let _ ← state.cell?
    return state

/-- The function body that a statement calls: an empty one, unless the table has a function for the
cell. -/
def called? (functions : List CBlock) (state : CState) : CStatement → Option CBlock
  | dispatch =>
    match state.cell?.bind state.table with
    | some function => functions[function]?
    | none => some .done
  | pointerUp | pointerDown | cellUp | cellDown | put | get | register _ => some .done

end CStatement

namespace CBlock

/-- Runs the statements. There is no result when the fuel does not last or the pointer leaves the
array. -/
def run? (functions : List CBlock) : Nat → CBlock → CState → Option CState
  | 0, _, _ => none
  | _ + 1, done, state => some state
  | fuel + 1, line statement next, state => do
    let state ← statement.perform? state
    let body ← statement.called? functions state
    let state ← run? functions fuel body state
    run? functions fuel next state
  | fuel + 1, whileCell body next, state => do
    let value ← state.cell?
    if value = 0 then run? functions fuel next state
    else
      let state ← run? functions fuel body state
      run? functions fuel (whileCell body next) state

/-- The statements come to their end, with the pointer in the array all the way. -/
def Ends (functions : List CBlock) (block : CBlock) (state last : CState) : Prop :=
  ∃ fuel, block.run? functions fuel state = some last

variable {functions : List CBlock}

theorem run?_mono {fuel more : Nat} {block : CBlock} {state last : CState} (bound : fuel ≤ more)
    (ran : block.run? functions fuel state = some last) :
    block.run? functions more state = some last := by
  induction fuel generalizing more block state last with
  | zero => cases ran
  | succ fuel ih =>
    obtain ⟨more, rfl⟩ : ∃ less, more = less + 1 := ⟨more - 1, by omega⟩
    have less : fuel ≤ more := by omega
    cases block with
    | done => exact ran
    | line statement next =>
      obtain ⟨performed, perform, calls⟩ := Option.bind_eq_some_iff.mp ran
      obtain ⟨body, called, runs⟩ := Option.bind_eq_some_iff.mp calls
      obtain ⟨returned, inside, onward⟩ := Option.bind_eq_some_iff.mp runs
      refine Option.bind_eq_some_iff.mpr ⟨performed, perform, ?_⟩
      refine Option.bind_eq_some_iff.mpr ⟨body, called, ?_⟩
      exact Option.bind_eq_some_iff.mpr ⟨returned, ih less inside, ih less onward⟩
    | whileCell body next =>
      obtain ⟨value, read, rest⟩ := Option.bind_eq_some_iff.mp ran
      refine Option.bind_eq_some_iff.mpr ⟨value, read, ?_⟩
      split at rest
      · rename_i zero
        rw [if_pos zero]
        exact ih less rest
      · rename_i nonzero
        obtain ⟨round, inside, again⟩ := Option.bind_eq_some_iff.mp rest
        rw [if_neg nonzero]
        exact Option.bind_eq_some_iff.mpr ⟨round, ih less inside, ih less again⟩

namespace Ends

variable {body next : CBlock} {state last : CState}

theorem done : Ends functions .done state state :=
  ⟨1, rfl⟩

/-- A line with all that it calls, and then the lines behind it. -/
theorem line {statement : CStatement} {performed returned : CState}
    (perform : statement.perform? state = some performed)
    (called : statement.called? functions performed = some body)
    (inside : Ends functions body performed returned) (onward : Ends functions next returned last) :
    Ends functions (.line statement next) state last := by
  obtain ⟨fuel, ran⟩ := inside
  obtain ⟨more, ranOn⟩ := onward
  refine ⟨max fuel more + 1, ?_⟩
  have ranToo := run?_mono (Nat.le_max_left fuel more) ran
  have ranOnToo := run?_mono (Nat.le_max_right fuel more) ranOn
  simp [run?, perform, called, ranToo, ranOnToo]

theorem skip (read : state.cell? = some 0) (onward : Ends functions next state last) :
    Ends functions (.whileCell body next) state last := by
  obtain ⟨fuel, ran⟩ := onward
  refine ⟨fuel + 1, ?_⟩
  simp [run?, read, ran]

theorem round {value : UInt8} {after : CState} (read : state.cell? = some value)
    (nonzero : value ≠ 0) (inside : Ends functions body state after)
    (again : Ends functions (.whileCell body next) after last) :
    Ends functions (.whileCell body next) state last := by
  obtain ⟨fuel, ran⟩ := inside
  obtain ⟨more, ranOn⟩ := again
  refine ⟨max fuel more + 1, ?_⟩
  have ranToo := run?_mono (Nat.le_max_left fuel more) ran
  have ranOnToo := run?_mono (Nat.le_max_right fuel more) ranOn
  simp [run?, read, nonzero, ranToo, ranOnToo]

end Ends

end CBlock

/-- Runs `main` of a program on some input. -/
def CProgram.run? (program : CProgram) (fuel : Nat) (input : List UInt8) : Option CState :=
  program.main.run? program.functions fuel (.start program.size input)

end TapeStepper
