import TapeStepper.Proofs.Runs
import TapeStepper.Proofs.Tidy

namespace TapeStepper

/-- Every cell holds a byte. -/
def Tape.Bytes (tape : Tape) : Prop :=
  ∀ cell ∈ tape.cells, cell < 256

namespace Tape

variable {tape : Tape}

theorem Bytes.current (bytes : tape.Bytes) : tape.current < 256 :=
  bytes tape.current (List.mem_of_getElem? tape.cells_position)

theorem Bytes.set (bytes : tape.Bytes) {value : Nat} (small : value < 256) : (tape.set value).Bytes := by
  intro cell listed
  rw [cells_set] at listed
  rcases List.mem_or_eq_of_mem_set listed with old | rfl
  · exact bytes cell old
  · exact small

theorem Bytes.of_cells {moved : Tape} (bytes : tape.Bytes) (same : moved.cells = tape.cells) :
    moved.Bytes := by
  unfold Bytes
  rw [same]
  exact bytes

theorem bytes_blank {size : Nat} (positive : 0 < size) : (blank size).Bytes := by
  intro cell listed
  rw [cells_blank positive] at listed
  rw [List.eq_of_mem_replicate listed]
  decide

theorem bytes_wrapToBytes (tape : Tape) : tape.wrapToBytes.Bytes := by
  intro cell listed
  have reduced : tape.wrapToBytes.cells = tape.cells.map (· % 256) := by
    simp [wrapToBytes, cells]
  rw [reduced] at listed
  obtain ⟨value, _, rfl⟩ := List.mem_map.mp listed
  exact Nat.mod_lt value (by decide)

end Tape

theorem CellMode.bytes_adapt {mode : CellMode} (wraps : mode = .byte) (tape : Tape) :
    (mode.adapt tape).Bytes := by
  subst wraps
  exact tape.bytes_wrapToBytes

namespace Store

variable {mode : CellMode} {store changed : Store} {action : Action}

theorem bytes_perform (bytes : store.tape.Bytes) (result : store.perform .byte action = .ok changed) :
    changed.tape.Bytes := by
  cases action with
  | next =>
    simp only [perform] at result
    split at result <;> cases result
    rename_i tape next
    exact bytes.of_cells (Tape.cells_next? next).1
  | back =>
    simp only [perform] at result
    split at result <;> cases result
    rename_i tape back
    exact bytes.of_cells (Tape.cells_back? back).1
  | plus =>
    simp only [perform, CellMode.increment?_byte bytes.current] at result
    cases result
    exact bytes.set (Nat.mod_lt _ (by decide))
  | minus =>
    simp only [perform, CellMode.decrement?_byte bytes.current] at result
    cases result
    exact bytes.set (Nat.mod_lt _ (by decide))
  | print =>
    simp only [perform] at result
    split at result <;> cases result
    exact bytes
  | read =>
    simp only [perform] at result
    split at result <;> cases result
    exact bytes.set (Nat.mod_lt _ (by decide))

/-- Characters are only taken from the front of the input. -/
theorem input_perform (result : store.perform mode action = .ok changed) :
    changed.input <:+ store.input := by
  cases action with
  | next | back | plus | minus | print =>
    simp only [perform] at result
    split at result <;> cases result
    exact List.suffix_refl _
  | read =>
    simp only [perform] at result
    split at result
    · cases result
    · rename_i c input pending
      split at result <;> cases result
      rw [pending]
      exact List.suffix_cons c input

/-- What the stores of a run of `block` on `input` keep to. -/
structure Regular (mode : CellMode) (block : Block) (input : Text) (store : Store) : Prop where
  bytes : mode = .byte → store.tape.Bytes
  pending : store.input <:+ input
  few : store.functions.entries.length ≤ functionLimit
  drawn : ∀ key body, store.functions.get? key = some body → body.tokens ⊆ block.tokens

namespace Regular

variable {block body : Block} {input : Text}

theorem start {tape : Tape} (bytes : mode = .byte → tape.Bytes) (block : Block) (input : Text) :
    (Store.start tape input).Regular mode block input where
  bytes := bytes
  pending := List.suffix_refl input
  few := Nat.zero_le _
  drawn := by
    intro key body bound
    cases bound

theorem count (regular : store.Regular mode block input) (operations : Nat) :
    (store.count operations).Regular mode block input :=
  ⟨regular.bytes, regular.pending, regular.few, regular.drawn⟩

theorem perform (regular : store.Regular mode block input)
    (result : store.perform mode action = .ok changed) : changed.Regular mode block input where
  bytes := by
    rintro rfl
    exact bytes_perform (regular.bytes rfl) result
  pending := (input_perform result).trans regular.pending
  few := by
    rw [functions_perform result]
    exact regular.few
  drawn := by
    rw [functions_perform result]
    exact regular.drawn

theorem reset (regular : store.Regular mode block input) :
    (store.withTape (store.tape.set 0)).Regular mode block input :=
  ⟨fun wraps => (regular.bytes wraps).set (by decide), regular.pending, regular.few, regular.drawn⟩

theorem define (regular : store.Regular mode block input) {functions : FunctionTable Block}
    (result : store.functions.define store.value body = .ok functions)
    (inside : body.tokens ⊆ block.tokens) :
    Regular mode block input { store with functions } where
  bytes := regular.bytes
  pending := regular.pending
  few := by
    obtain ⟨_, room, rfl⟩ := FunctionTable.define_ok_iff.mp result
    rw [FunctionTable.length_insertEntry]
    exact room
  drawn := FunctionTable.forall_define regular.drawn inside result

end Regular

end Store

/-- All that is left to a level is part of the script. -/
theorem Stack.Stands.drawn {block : Block} {functions : FunctionTable Block} {stack : Stack}
    (stands : stack.Stands block functions)
    (drawn : ∀ key body, functions.get? key = some body → body.tokens ⊆ block.tokens) :
    stack.inner.rest.tokens ⊆ block.tokens := by
  refine (stands.part (fun part => part.tokens ⊆ block.tokens) ?_ drawn ?_ ?_).2
  · exact fun _ listed => listed
  · intro sequence inside token listed
    refine inside ?_
    cases sequence <;> simp_all [Block.tail]
  · intro opens body closes next inside token listed
    refine inside ?_
    simp [listed]

namespace Machine

variable {rules : Rules} {late : Bool} {machine : Machine} {progress : Progress} {block : Block}
  {input : Text}

theorem Executes.regular (move : machine.Executes rules late progress)
    (stands : machine.stack.Stands block machine.store.functions)
    (regular : machine.store.Regular rules.mode block input) :
    progress.store.Regular rules.mode block input := by
  cases move with
  | acts here result => exact (regular.perform result).count 1
  | skipsLoop _ _ => exact regular.count 1
  | resetsCell _ _ _ => exact regular.reset.count _
  | defines here result =>
    have part := stands.drawn regular.drawn
    rw [here] at part
    refine regular.define result fun token listed => part ?_
    simp [listed]
  | entersLoop _ _ _ | calls _ _ _ | repeatsLoop _ _ =>
    rw [store_arrive]
    exact regular.count 1
  | endsLoop _ _ =>
    rw [store_leave]
    exact regular.count 1
  | actFails _ _ | defineFails _ _ | callsNothing _ _ | callsTooDeep _ _ _ => exact regular

theorem regular_step (rules : Rules) (late : Bool)
    (stands : machine.stack.Stands block machine.store.functions)
    (regular : machine.store.Regular rules.mode block input) :
    (machine.step rules late).store.Regular rules.mode block input := by
  obtain ⟨_, step⟩ | ⟨_, _, _, step⟩ | ⟨_, _, step⟩ := step_cases rules late machine
  · rw [step, store_leave]
    exact regular
  · rw [step]
    exact regular
  · rw [step]
    exact (executes rules late machine).regular stands regular

end Machine

/-- The plain run of a script keeps its levels in order and its store within bounds. -/
theorem regular_plainRun {mode : CellMode} {tape : Tape} (bytes : mode = .byte → tape.Bytes)
    (block : Block) (input : Text) (count : Nat) :
    (plainRun mode block input tape count).Stands block ∧
      (plainRun mode block input tape count).store.Regular mode block input := by
  refine Progress.after_induction
    (motive := fun progress => progress.Stands block ∧ progress.store.Regular mode block input) ?_ ?_ count
  · exact ⟨Stack.stands_top _ _, .start bytes block input⟩
  · intro before held
    cases before with
    | running machine =>
      exact ⟨Machine.stands_step held.1, Machine.regular_step (.plain mode) false held.1 held.2⟩
    | halted store outcome => exact held

end TapeStepper
