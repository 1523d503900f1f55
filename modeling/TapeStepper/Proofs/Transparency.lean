import TapeStepper.Proofs.Reentry
import TapeStepper.Proofs.Runs

namespace TapeStepper

/-- The machine that a step begins with, at the start of the script or where an earlier step has
paused. -/
def Machine.takeUp? (block : Block) (store : Store) : Option ResumePoint → Option Machine
  | none => some (.launch block store)
  | some point => Machine.relaunch? block store point

/-- What earlier steps over a script can leave behind: a store, and the point where the next step
may be taken up. Their tape, input, rules and clock are free, and each may begin anew. -/
inductive Carried (block : Block) : Store → Option ResumePoint → Prop
  | start (tape : Tape) (input : Text) : Carried block (.start tape input) none
  | step {store point machine rules late fuel halt} : Carried block store point →
      Machine.takeUp? block store point = some machine → machine.run rules late fuel = some halt →
      Carried block halt.store halt.outcome.resumePoint?
  | anew {store point} : Carried block store point → Carried block store none

/-- The point leads to an operator of the script, by way of functions that the store has. -/
structure Resumable (block : Block) (store : Store) (point : Option ResumePoint) : Prop where
  plain : store.functions.Plain
  place : ∀ place, point = some place → ∃ stack : Stack, stack.resumePoint = place ∧
    stack.Stands block store.functions ∧ stack.inner.isOver = false

/-- A machine that does not pause at the operator it stands at does stand at one. -/
def Machine.Poised (machine : Machine) : Prop :=
  machine.armed = false → machine.stack.inner.isOver = false

section Carried

variable {block : Block} {store : Store} {point : Option ResumePoint}

theorem Resumable.exists_machine (resumable : Resumable block store point) :
    ∃ machine marks, Machine.takeUp? block store point = some machine ∧
      machine.Marked block marks ∧ machine.Poised := by
  cases point with
  | none => exact ⟨_, [], rfl, .start resumable.plain, fun unarmed => by cases unarmed⟩
  | some place =>
    obtain ⟨stack, rfl, stands, inside⟩ := resumable.place place rfl
    have rebuilt : Machine.takeUp? block store (some stack.resumePoint) =
        some ⟨store, stack, false⟩ := by
      rw [Machine.takeUp?, Machine.relaunch?, stands.rebuild]
      rfl
    exact ⟨_, stack.marks, rebuilt, .again stands resumable.plain, fun _ => inside⟩

theorem resumable_of_sound {outcome : Outcome} (sound : (Progress.halted store outcome).Sound block) :
    Resumable block store outcome.resumePoint? := by
  refine ⟨sound.plain, ?_⟩
  intro place paused
  cases outcome with
  | paused stack =>
    cases paused
    exact ⟨stack, rfl, sound.stands stack rfl, sound.inside stack rfl⟩
  | finished | failed _ _ | overran _ => cases paused

theorem Carried.resumable (whole : block.Tidy) (carried : Carried block store point) :
    Resumable block store point := by
  induction carried with
  | start tape input => exact ⟨nofun, nofun⟩
  | @step store point machine rules late fuel halt _ taken ran ih =>
    obtain ⟨begun, marks, takenToo, marked, _⟩ := ih.exists_machine
    have same : begun = machine := Option.some.inj (takenToo.symm.trans taken)
    subst same
    exact resumable_of_sound (marked.sound_run whole ran)
  | anew _ ih => exact ⟨ih.plain, nofun⟩

end Carried

theorem Outcome.progress_injective {store last : Store} {outcome result : Outcome}
    (same : outcome.progress store = result.progress last) : last = store ∧ result = outcome := by
  cases outcome with
  | paused stack =>
    cases result with
    | paused _ =>
      cases same
      exact ⟨rfl, rfl⟩
    | finished | failed _ _ | overran _ => cases same
  | finished | failed _ _ | overran _ => exact progress_eq_halted same.symm |>.imp Eq.symm Eq.symm

namespace Machine

variable {rules other : Rules} {machine : Machine} {store : Store} {outcome : Outcome}

/-- How many steps the machine goes before it looks for breakpoints. -/
def unwatched (machine : Machine) : Nat :=
  if machine.armed then 0 else 1

/-- A machine halts as the plain run stands at its first stop. -/
theorem halts_iff_stopsFirst (poised : machine.Poised) :
    (∃ fuel, (Progress.running machine).after rules fuel = .halted store outcome) ↔
      ∃ stop, Progress.StopsFirst rules (.running machine.arm) machine.unwatched stop ∧
        (Progress.running machine.arm).after (.plain rules.mode) stop = outcome.progress store := by
  cases armed : machine.armed with
  | true =>
    have here : (Progress.running machine.arm).after (.plain rules.mode) 0 = .running machine := by
      rw [Progress.after_zero, arm_eq armed]
    have watched : machine.unwatched = 0 := by simp [unwatched, armed]
    rw [watched]
    constructor
    · rintro ⟨fuel, halts⟩
      exact Progress.stop_of_halts rules _ here armed halts
    · rintro ⟨stop, first, value⟩
      obtain ⟨last, result, halts, valueToo⟩ := Progress.halts_of_stop first here armed
      obtain ⟨rfl, rfl⟩ := Outcome.progress_injective (value.symm.trans valueToo)
      exact ⟨_, halts⟩
  | false =>
    have inside := poised armed
    have watched : machine.unwatched = 0 + 1 := by simp [unwatched, armed]
    rw [watched]
    constructor
    · rintro ⟨fuel, halts⟩
      exact Progress.stop_of_halts_resumed rules _ Progress.after_zero inside armed halts
    · rintro ⟨stop, first, value⟩
      obtain ⟨fuel, last, result, halts, valueToo⟩ :=
        Progress.halts_of_stop_resumed first Progress.after_zero inside armed
      obtain ⟨rfl, rfl⟩ := Outcome.progress_injective (value.symm.trans valueToo)
      exact ⟨fuel, halts⟩

/-- Only the mode and the breakpoints decide how a machine halts. -/
theorem halts_iff_of_same_stops (poised : machine.Poised) (mode : rules.mode = other.mode)
    (breakpoints : rules.breakpoints = other.breakpoints) :
    (∃ fuel, (Progress.running machine).after rules fuel = .halted store outcome) ↔
      ∃ fuel, (Progress.running machine).after other fuel = .halted store outcome := by
  have firsts (stop : Nat) :
      Progress.StopsFirst rules (.running machine.arm) machine.unwatched stop ↔
        Progress.StopsFirst other (.running machine.arm) machine.unwatched stop := by
    obtain ⟨mode, breakpoints, shortcut⟩ := rules
    cases mode
    cases breakpoints
    exact ⟨fun first => ⟨first.1, first.2, first.3⟩, fun first => ⟨first.1, first.2, first.3⟩⟩
  simp only [halts_iff_stopsFirst poised, firsts, mode]

end Machine

/-- The loop `[-]` that is done at once cannot be told from one that is gone through. A step over a
script begins with whatever earlier steps have left behind, at the start or where the last of them
has paused, and with any breakpoints. With the shortcut it ends exactly if it ends without, and then
both leave the same store, the same point to be taken up at, and results that differ in the time at
most. -/
theorem shortcut_leaves_no_trace (source : Text) (block : Block) (accepted : readScript source = .ok block)
    (store : Store) (point : Option ResumePoint) (carried : Carried block store point)
    (mode : CellMode) (breakpoints : Breakpoints) :
    ∃ machine, Machine.takeUp? block store point = some machine ∧
      ((∃ fuel halt, machine.run ⟨mode, breakpoints, true⟩ never fuel = some halt) ↔
        ∃ fuel halt, machine.run ⟨mode, breakpoints, false⟩ never fuel = some halt) ∧
      ∀ fuel more quick slow, machine.run ⟨mode, breakpoints, true⟩ never fuel = some quick →
        machine.run ⟨mode, breakpoints, false⟩ never more = some slow →
        slow.store = quick.store ∧ slow.outcome.resumePoint? = quick.outcome.resumePoint? ∧
          ∀ elapsed later, (Result.ofOutcome block elapsed quick.store quick.outcome).Agrees
            (.ofOutcome block later slow.store slow.outcome) := by
  have whole := tidy_of_readScript accepted
  obtain ⟨machine, _, taken, _, poised⟩ := (carried.resumable whole).exists_machine
  have alike (last : Store) (outcome : Outcome) :
      (∃ fuel, (Progress.running machine).after ⟨mode, breakpoints, true⟩ fuel = .halted last outcome) ↔
        ∃ fuel, (Progress.running machine).after ⟨mode, breakpoints, false⟩ fuel =
          .halted last outcome :=
    Machine.halts_iff_of_same_stops poised rfl rfl
  refine ⟨machine, taken, ⟨?_, ?_⟩, ?_⟩
  · rintro ⟨fuel, halt, ran⟩
    obtain ⟨more, halts⟩ := (alike _ _).mp ⟨fuel, Machine.run_never_iff.mp ⟨_, ran⟩⟩
    obtain ⟨total, ranToo⟩ := Machine.run_never_iff.mpr halts
    exact ⟨more, _, ranToo⟩
  · rintro ⟨fuel, halt, ran⟩
    obtain ⟨more, halts⟩ := (alike _ _).mpr ⟨fuel, Machine.run_never_iff.mp ⟨_, ran⟩⟩
    obtain ⟨total, ranToo⟩ := Machine.run_never_iff.mpr halts
    exact ⟨more, _, ranToo⟩
  · intro fuel more quick slow ran ranToo
    obtain ⟨_, halts⟩ := (alike _ _).mp ⟨fuel, Machine.run_never_iff.mp ⟨_, ran⟩⟩
    have haltsToo := Machine.run_never_iff.mp ⟨_, ranToo⟩
    obtain ⟨sameStore, sameOutcome⟩ := Progress.halted_unique halts haltsToo
    rw [sameStore, sameOutcome]
    exact ⟨rfl, rfl, fun elapsed later => Result.agrees_ofOutcome block elapsed later _ _⟩

/-- A step that is taken up at the `-` of one loop `[-]` and does the next one at once. -/
theorem shortcut_leaves_no_trace_between_countdowns :
    ∃ block store point machine quick slow, readScript "+[-]+[-]".toList = .ok block ∧
      Carried block store (some point) ∧ point.offset = 2 ∧
      Machine.takeUp? block store (some point) = some machine ∧
      machine.run ⟨.byte, .empty, true⟩ never 9 = some quick ∧
      machine.run ⟨.byte, .empty, false⟩ never 9 = some slow ∧
      slow.steps ≠ quick.steps ∧ slow.store = quick.store := by
  have accepted : readScript "+[-]+[-]".toList = .ok (.act 0 .plus (.loop 1 (.act 2 .minus .done) 3
      (.act 4 .plus (.loop 5 (.act 6 .minus .done) 7 .done)))) := rfl
  have carried := @Carried.step (.act 0 .plus (.loop 1 (.act 2 .minus .done) 3
      (.act 4 .plus (.loop 5 (.act 6 .minus .done) 7 .done)))) _ none _ ⟨.byte, .ofList [2], true⟩
    never 9 _ (.start (.blank 1) []) rfl rfl
  obtain ⟨machine, taken, _, same⟩ :=
    shortcut_leaves_no_trace _ _ accepted _ _ carried .byte .empty
  obtain rfl := Option.some.inj taken
  exact ⟨_, _, _, _, _, _, accepted, carried, rfl, rfl, rfl, rfl, by decide, (same 9 9 _ _ rfl rfl).1⟩

end TapeStepper
