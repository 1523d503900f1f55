import TapeStepper.Limits

namespace TapeStepper

/-- A row of cells seen from the pointer: the cells before it, nearest first,
the cell under it, and the cells after it. There is always a current cell. -/
structure Tape where
  before : List Nat
  current : Nat
  after : List Nat
  deriving DecidableEq

namespace Tape

def cells (tape : Tape) : List Nat :=
  tape.before.reverse ++ tape.current :: tape.after

def size (tape : Tape) : Nat :=
  tape.before.length + tape.after.length + 1

def position (tape : Tape) : Nat :=
  tape.before.length

/-- A tape of `size` zero cells with the pointer on the first; the least tape has one cell. -/
def blank (size : Nat) : Tape :=
  ⟨[], 0, List.replicate (size - 1) 0⟩

/-- The tape with these cells and the pointer on the first. -/
def ofCells? : List Nat → Option Tape
  | [] => none
  | cell :: rest => some ⟨[], cell, rest⟩

def next? : Tape → Option Tape
  | ⟨before, current, cell :: after⟩ => some ⟨current :: before, cell, after⟩
  | ⟨_, _, []⟩ => none

def back? : Tape → Option Tape
  | ⟨cell :: before, current, after⟩ => some ⟨before, cell, current :: after⟩
  | ⟨[], _, _⟩ => none

def set (tape : Tape) (value : Nat) : Tape :=
  { tape with current := value }

def increment? (tape : Tape) : Option Tape :=
  if tape.current < shortMax then some (tape.set (tape.current + 1)) else none

def decrement? (tape : Tape) : Option Tape :=
  if 0 < tape.current then some (tape.set (tape.current - 1)) else none

/-- Moves the pointer `steps` cells on, if there are that many. -/
def advance? : Nat → Tape → Option Tape
  | 0, tape => some tape
  | steps + 1, tape => tape.next?.bind (advance? steps)

/-- Every cell reduced to a byte. -/
def wrapToBytes (tape : Tape) : Tape :=
  ⟨tape.before.map (· % 256), tape.current % 256, tape.after.map (· % 256)⟩

/-- The character with the code `value`; a value that is no character shows as U+FFFD. -/
def charOf (value : Nat) : Char :=
  if value.isValidChar then Char.ofNat value else '\ufffd'

def currentChar (tape : Tape) : Char :=
  charOf tape.current

@[simp]
theorem cells_length (tape : Tape) : tape.cells.length = tape.size := by
  simp only [cells, size, List.length_append, List.length_reverse, List.length_cons]
  omega

theorem position_lt_size (tape : Tape) : tape.position < tape.size := by
  simp only [position, size]
  omega

@[simp]
theorem cells_position (tape : Tape) : tape.cells[tape.position]? = some tape.current := by
  simp [cells, position]

theorem cells_blank {size : Nat} (positive : 0 < size) :
    (blank size).cells = List.replicate size 0 := by
  obtain ⟨less, rfl⟩ : ∃ less, size = less + 1 := ⟨size - 1, by omega⟩
  rfl

theorem cells_next? {tape moved : Tape} (step : tape.next? = some moved) :
    moved.cells = tape.cells ∧ moved.position = tape.position + 1 := by
  obtain ⟨before, current, after⟩ := tape
  cases after with
  | nil => simp [next?] at step
  | cons cell after =>
    simp only [next?, Option.some.injEq] at step
    subst step
    simp [cells, position]

theorem cells_back? {tape moved : Tape} (step : tape.back? = some moved) :
    moved.cells = tape.cells ∧ moved.position + 1 = tape.position := by
  obtain ⟨before, current, after⟩ := tape
  cases before with
  | nil => simp [back?] at step
  | cons cell before =>
    simp only [back?, Option.some.injEq] at step
    subst step
    simp [cells, position]

theorem cells_set (tape : Tape) (value : Nat) :
    (tape.set value).cells = tape.cells.set tape.position value := by
  simp [set, cells, position]

end Tape

end TapeStepper
