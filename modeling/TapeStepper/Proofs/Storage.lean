import TapeStepper.Proofs.Checked

namespace TapeStepper

def Tape.strip (tape : Tape) : Checked.Strip :=
  ⟨tape.cells, tape.position⟩

/-- The table with each body written out. -/
def FunctionTable.spelled (functions : FunctionTable Block) : FunctionTable (List Token) :=
  ⟨functions.entries.map fun entry => (entry.1, entry.2.tokens)⟩

def Store.memory (store : Store) : Checked.Memory :=
  ⟨store.tape.strip, store.input, store.output, store.functions.spelled, store.operations⟩

namespace Tape

@[simp]
theorem strip_current? (tape : Tape) : tape.strip.current? = some tape.current :=
  tape.cells_position

@[simp]
theorem strip_set? (tape : Tape) (value : Nat) :
    tape.strip.set? value = some (tape.set value).strip := by
  have bound : tape.strip.position < tape.strip.cells.length := by
    simp only [strip, cells_length]
    exact tape.position_lt_size
  rw [Checked.Strip.set?, if_pos bound]
  simp only [strip, cells_set]
  rfl

theorem strip_canNext (tape : Tape) : tape.strip.canNext = tape.next?.isSome := by
  obtain ⟨before, current, after⟩ := tape
  cases after <;> simp [strip, Checked.Strip.canNext, cells, position, next?]

theorem strip_canBack (tape : Tape) : tape.strip.canBack = tape.back?.isSome := by
  obtain ⟨before, current, after⟩ := tape
  cases before <;> simp [strip, Checked.Strip.canBack, position, back?]

theorem strip_next? {tape moved : Tape} (step : tape.next? = some moved) :
    tape.strip.next? = some moved.strip := by
  obtain ⟨cells, position⟩ := cells_next? step
  rw [Checked.Strip.next?, strip_canNext, step]
  simp [strip, cells, position]

theorem strip_back? {tape moved : Tape} (step : tape.back? = some moved) :
    tape.strip.back? = some moved.strip := by
  obtain ⟨cells, position⟩ := cells_back? step
  rw [Checked.Strip.back?, strip_canBack, step]
  simp [strip, cells, ← position]

theorem strip_increment? {tape : Tape} (room : tape.current < shortMax) :
    tape.strip.increment? = some (tape.set (tape.current + 1)).strip := by
  simp [Checked.Strip.increment?, room]

theorem strip_decrement? {tape : Tape} (positive : 0 < tape.current) :
    tape.strip.decrement? = some (tape.set (tape.current - 1)).strip := by
  simp [Checked.Strip.decrement?, positive]

theorem strip_blank {size : Nat} (positive : 0 < size) (fits : 2 * size ≤ memoryLimit) :
    Checked.Strip.blank size = .ok (blank size).strip := by
  rw [Checked.Strip.blank, if_neg (Nat.ne_of_gt positive), if_neg (Nat.not_lt.mpr fits), strip,
    cells_blank positive]
  rfl

theorem strip_wrapToBytes (tape : Tape) : tape.strip.wrapToBytes = tape.wrapToBytes.strip := by
  simp [Checked.Strip.wrapToBytes, wrapToBytes, strip, cells, position]

theorem strip_adapt (mode : CellMode) (tape : Tape) :
    tape.strip.adapt mode = (mode.adapt tape).strip := by
  cases mode with
  | short => rfl
  | byte => exact tape.strip_wrapToBytes

theorem strip_injective {first second : Tape} (same : first.strip = second.strip) :
    first = second := by
  obtain ⟨before, current, after⟩ := first
  obtain ⟨before', current', after'⟩ := second
  simp only [strip, cells, position, Checked.Strip.mk.injEq] at same
  obtain ⟨front, back⟩ := List.append_inj same.1 (by simp [same.2])
  cases List.reverse_inj.mp front
  cases back
  rfl

theorem exists_advance? (tape : Tape) (steps : Nat) (bound : tape.position + steps < tape.size) :
    ∃ moved, tape.advance? steps = some moved ∧ moved.cells = tape.cells ∧
      moved.position = tape.position + steps := by
  induction steps generalizing tape with
  | zero => exact ⟨tape, rfl, rfl, rfl⟩
  | succ steps ih =>
    cases step : tape.next? with
    | none =>
      have stuck : tape.strip.canNext = false := by rw [strip_canNext, step]; rfl
      simp only [Checked.Strip.canNext, strip, cells_length, decide_eq_false_iff_not] at stuck
      omega
    | some further =>
      obtain ⟨cells, position⟩ := cells_next? step
      have size : further.size = tape.size := by rw [← cells_length, cells, cells_length]
      obtain ⟨moved, advanced, cells', position'⟩ := ih further (by omega)
      refine ⟨moved, ?_, cells'.trans cells, by omega⟩
      rw [advance?, step, Option.bind_some, advanced]

end Tape

/-- Cells with a pointer among them are a tape. -/
theorem Checked.Strip.exists_tape {strip : Checked.Strip} (inRange : strip.position < strip.cells.length) :
    ∃ tape, strip.tape? = some tape ∧ tape.strip = strip := by
  obtain ⟨cells, position⟩ := strip
  match cells with
  | [] => simp at inRange
  | cell :: rest =>
    obtain ⟨tape, advanced, cells, position⟩ := Tape.exists_advance? ⟨[], cell, rest⟩
      position (by simpa [Tape.position, Tape.size] using inRange)
    refine ⟨tape, advanced, ?_⟩
    rw [Tape.strip, cells, position]
    simp [Tape.cells, Tape.position]

@[simp]
theorem Tape.strip_tape? (tape : Tape) : tape.strip.tape? = some tape := by
  have inRange : tape.strip.position < tape.strip.cells.length := by
    simp only [strip, cells_length]
    exact tape.position_lt_size
  obtain ⟨other, found, same⟩ := Checked.Strip.exists_tape inRange
  rw [found, strip_injective same]

namespace FunctionTable

variable {Body Other : Type}

/-- The table with each body changed. -/
def mapBodies (change : Body → Other) (table : FunctionTable Body) : FunctionTable Other :=
  ⟨table.entries.map fun entry => (entry.1, change entry.2)⟩

theorem get?_mapBodies (change : Body → Other) (table : FunctionTable Body) (key : Nat) :
    (table.mapBodies change).get? key = (table.get? key).map change := by
  obtain ⟨entries⟩ := table
  simp only [get?, mapBodies]
  induction entries with
  | nil => rfl
  | cons entry rest ih =>
    simp only [List.map_cons, bodyOf?]
    split
    · rfl
    · exact ih

theorem insertEntry_map (change : Body → Other) (key : Nat) (body : Body)
    (entries : List (Nat × Body)) :
    insertEntry key (change body) (entries.map fun entry => (entry.1, change entry.2)) =
      (insertEntry key body entries).map fun entry => (entry.1, change entry.2) := by
  induction entries with
  | nil => rfl
  | cons entry rest ih =>
    simp only [List.map_cons, insertEntry]
    split
    · rfl
    · rw [ih, List.map_cons]

/-- The table never looks inside a body. -/
theorem define_mapBodies (change : Body → Other) (table : FunctionTable Body) (key : Nat) (body : Body) :
    (table.mapBodies change).define key (change body) =
      (table.define key body).map (mapBodies change) := by
  unfold define contains
  rw [get?_mapBodies, Option.isSome_map,
    show (table.mapBodies change).entries.length = table.entries.length from List.length_map _]
  split
  · rfl
  · split
    · rw [mapBodies, insertEntry_map]
      rfl
    · rfl

theorem get?_spelled (functions : FunctionTable Block) (key : Nat) :
    functions.spelled.get? key = (functions.get? key).map Block.tokens :=
  get?_mapBodies Block.tokens functions key

theorem define_spelled (functions : FunctionTable Block) (key : Nat) (body : Block) :
    functions.spelled.define key body.tokens = (functions.define key body).map spelled :=
  define_mapBodies Block.tokens functions key body

end FunctionTable

namespace Store

theorem memory_perform? (mode : CellMode) (store : Store) (action : Action) :
    store.memory.perform? mode action = some ((store.perform mode action).map memory) := by
  cases action with
  | next =>
    cases step : store.tape.next? with
    | none => simp [Checked.Memory.perform?, perform, memory, Tape.strip_canNext, step, Except.map]
    | some tape =>
      simp [Checked.Memory.perform?, perform, memory, Tape.strip_canNext, step, Tape.strip_next? step,
        Except.map, withTape, Checked.Memory.withStrip]
  | back =>
    cases step : store.tape.back? with
    | none => simp [Checked.Memory.perform?, perform, memory, Tape.strip_canBack, step, Except.map]
    | some tape =>
      simp [Checked.Memory.perform?, perform, memory, Tape.strip_canBack, step, Tape.strip_back? step,
        Except.map, withTape, Checked.Memory.withStrip]
  | plus =>
    by_cases wraps : mode = .byte ∧ store.tape.current = byteMax
    · simp [Checked.Memory.perform?, perform, memory, wraps, CellMode.increment?, Except.map,
        withTape, Checked.Memory.withStrip]
    · have plain : mode.increment? store.tape = store.tape.increment? := by
        cases mode with
        | short => rfl
        | byte => exact if_neg fun full => wraps ⟨rfl, full⟩
      by_cases room : store.tape.current < shortMax
      · simp [Checked.Memory.perform?, perform, memory, wraps, plain, room, Tape.increment?,
          Tape.strip_increment? room, Except.map, withTape, Checked.Memory.withStrip]
      · simp [Checked.Memory.perform?, perform, memory, wraps, plain, room, Tape.increment?, Except.map]
  | minus =>
    by_cases positive : 0 < store.tape.current
    · have plain : mode.decrement? store.tape = store.tape.decrement? := by
        cases mode <;> simp [CellMode.decrement?, Tape.decrement?, positive]
      simp [Checked.Memory.perform?, perform, memory, plain, positive, Tape.decrement?,
        Tape.strip_decrement? positive, Except.map, withTape, Checked.Memory.withStrip]
    · cases mode <;> simp [Checked.Memory.perform?, perform, memory, positive, CellMode.decrement?,
        Tape.decrement?, Except.map, withTape, Checked.Memory.withStrip]
  | print =>
    by_cases room : store.output.chars.length < outputLimit
    · simp [Checked.Memory.perform?, perform, memory, Output.canWrite, Output.write?, room, Except.map,
        Tape.currentChar]
    · simp [Checked.Memory.perform?, perform, memory, Output.canWrite, Output.write?, room, Except.map]
  | read =>
    cases waiting : store.input with
    | nil => simp [Checked.Memory.perform?, perform, memory, waiting, Except.map]
    | cons c input =>
      cases held : mode.encode? c <;>
        simp [Checked.Memory.perform?, perform, memory, waiting, held, Except.map]

/-- A body that is not empty can be put into the table. -/
theorem memory_define? (store : Store) (key : Nat) {body : Block} (nonempty : body ≠ .done) :
    store.memory.define? key body.tokens =
      some ((store.functions.define key body).map fun functions => { store with functions }.memory) := by
  have written : body.tokens.isEmpty = false := by
    cases body with
    | done => exact absurd rfl nonempty
    | act _ _ _ | call _ _ | loop _ _ _ _ | define _ _ _ _ => simp
  rw [Checked.Memory.define?, show store.memory.functions = store.functions.spelled from rfl,
    FunctionTable.define_spelled]
  cases store.functions.define key body with
  | error fault => rfl
  | ok functions =>
    simp only [Except.map, written]
    rfl

end Store

end TapeStepper
