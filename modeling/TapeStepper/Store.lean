import TapeStepper.Tape
import TapeStepper.Output
import TapeStepper.FunctionTable
import TapeStepper.Block

namespace TapeStepper

/-- How cells behave at their bounds. -/
inductive CellMode
  | short | byte
  deriving DecidableEq

/-- All that a running script can change. -/
structure Store where
  tape : Tape
  input : Text
  output : Output
  functions : FunctionTable Block
  operations : Nat

namespace Store

def start (tape : Tape) (input : Text) : Store :=
  ⟨tape, input, .empty, .empty, 0⟩

def value (store : Store) : Nat :=
  store.tape.current

def count (operations : Nat) (store : Store) : Store :=
  { store with operations := store.operations + operations }

def withTape (store : Store) (tape : Tape) : Store :=
  { store with tape }

end Store

namespace CellMode

def increment? : CellMode → Tape → Option Tape
  | short, tape => tape.increment?
  | byte, tape => if tape.current = byteMax then some (tape.set 0) else tape.increment?

def decrement? : CellMode → Tape → Option Tape
  | short, tape => tape.decrement?
  | byte, tape => some (tape.decrement?.getD (tape.set byteMax))

/-- The cell value for an input character, if the cell can hold it. -/
def encode? : CellMode → Char → Option Nat
  | short, c => if c.toNat ≤ shortMax then some c.toNat else none
  | byte, c => some (c.toNat % 256)

theorem increment?_byte {tape : Tape} (small : tape.current < 256) :
    CellMode.byte.increment? tape = some (tape.set ((tape.current + 1) % 256)) := by
  simp only [increment?]
  by_cases full : tape.current = byteMax
  · rw [if_pos full, full]
    rfl
  · have below : tape.current < 255 := Nat.lt_of_le_of_ne (Nat.le_of_lt_succ small) full
    have room : tape.current < shortMax := Nat.lt_trans below (by decide)
    rw [if_neg full, Tape.increment?, if_pos room, Nat.mod_eq_of_lt (Nat.succ_lt_succ below)]

theorem decrement?_byte {tape : Tape} (small : tape.current < 256) :
    CellMode.byte.decrement? tape = some (tape.set ((tape.current + 255) % 256)) := by
  simp only [decrement?, Tape.decrement?]
  by_cases positive : 0 < tape.current
  · have less : tape.current - 1 = (tape.current + 255) % 256 := by omega
    rw [if_pos positive, Option.getD_some, less]
  · have zero : tape.current = 0 := by omega
    rw [if_neg positive, zero]
    rfl

end CellMode

namespace Store

/-- Performs one action; a fault changes nothing. -/
def perform (mode : CellMode) (store : Store) : Action → Except Fault Store
  | .next =>
    match store.tape.next? with
    | some tape => .ok (store.withTape tape)
    | none => .error .upperBound
  | .back =>
    match store.tape.back? with
    | some tape => .ok (store.withTape tape)
    | none => .error .lowerBound
  | .plus =>
    match mode.increment? store.tape with
    | some tape => .ok (store.withTape tape)
    | none => .error .maxValue
  | .minus =>
    match mode.decrement? store.tape with
    | some tape => .ok (store.withTape tape)
    | none => .error .negativeValue
  | .print =>
    match store.output.write? store.tape.currentChar with
    | some output => .ok { store with output }
    | none => .error .outputLimit
  | .read =>
    match store.input with
    | [] => .error .inputExhausted
    | c :: input =>
      match mode.encode? c with
      | some value => .ok { store with tape := store.tape.set value, input }
      | none => .error .negativeValue

end Store

end TapeStepper
