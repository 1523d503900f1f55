import TapeStepper.Proofs.Pauses
import TapeStepper.Proofs.Sequence

namespace TapeStepper

namespace Stack

/-- The statements of the script behind the one that is being run. -/
def beyond (stack : Stack) : Block :=
  (stack.outer.getLast?.getD stack.inner).rest.tail

/-- The statements of the script that have not begun. -/
def ahead (stack : Stack) : Block :=
  match stack.outer with
  | [] => stack.inner.rest
  | _ :: _ => stack.beyond

variable {stack : Stack}

theorem ahead_of_nested (nested : stack.outer ≠ []) : stack.ahead = stack.beyond := by
  unfold ahead
  split
  · exact absurd ‹_› nested
  · rfl

theorem ahead_advance (stack : Stack) : (stack.modify Level.advance).ahead = stack.beyond := by
  obtain ⟨inner, outer, depth, depth_eq⟩ := stack
  cases outer with
  | nil => rfl
  | cons level outer => simp [ahead, beyond, modify, List.getLast?_cons]

theorem ahead_push (level : Level) (stack : Stack) : (stack.push level).ahead = stack.beyond := by
  simp [ahead, beyond, push, List.getLast?_cons]

theorem ahead_leave {left : Stack} (step : stack.leave? = some left) : left.ahead = stack.beyond := by
  obtain ⟨inner, outer, depth, depth_eq⟩ := stack
  cases outer with
  | nil => cases step
  | cons level outer =>
    cases step
    rw [ahead_advance]
    simp [beyond, List.getLast?_cons]

theorem ahead_restart (nested : stack.outer ≠ []) : (stack.modify Level.restart).ahead = stack.beyond := by
  obtain ⟨inner, outer, depth, depth_eq⟩ := stack
  cases outer with
  | nil => exact absurd rfl nested
  | cons level outer => simp [ahead, beyond, modify, List.getLast?_cons]

end Stack

/-- The statements of the script that have not begun; none when the run has ended. -/
def Progress.ahead : Progress → Block
  | running machine => machine.stack.ahead
  | halted _ _ => .done

/-- The run has ended at an operator that could not be run. -/
def Progress.hasFailed : Progress → Bool
  | halted _ (.failed _ _) => true
  | running _ | halted _ .finished | halted _ (.paused _) | halted _ (.overran _) => false

namespace Machine

variable {rules : Rules} {machine : Machine} {progress : Progress} {block : Block}

theorem ahead_leave (atEnd : machine.stack.inner.rest = .done) (store : Store) (armed : Bool) :
    (machine.leave store armed).ahead = machine.stack.beyond := by
  unfold leave
  split
  · rename_i left
    exact Stack.ahead_leave left
  · rename_i stuck
    obtain ⟨last, ⟨inner, outer, depth, depth_eq⟩, armed⟩ := machine
    cases outer with
    | nil =>
      simp only at atEnd
      simp [Progress.ahead, Stack.beyond, atEnd, Block.tail]
    | cons level outer => cases stuck

/-- The end of a body that is not left at once is the `]` of a loop. -/
theorem nested_of_done (stands : machine.stack.Stands block machine.store.functions)
    (inside : machine.stack.inner.isOver = false) (here : machine.stack.inner.rest = .done) :
    machine.stack.outer ≠ [] := by
  obtain ⟨store, stack, armed⟩ := machine
  cases stands with
  | top place =>
    simp only at here
    subst here
    cases inside
  | inside _ _ _ => exact List.cons_ne_nil _ _

/-- An operator that does not fail leaves to be begun what stands behind its statement. -/
theorem Executes.ahead (move : machine.Executes rules false progress)
    (stands : machine.stack.Stands block machine.store.functions)
    (inside : machine.stack.inner.isOver = false) (unfailed : progress.hasFailed = false) :
    progress.ahead = machine.stack.beyond := by
  cases move with
  | acts _ _ | skipsLoop _ _ | resetsCell _ _ _ | defines _ _ => exact Stack.ahead_advance _
  | entersLoop _ _ _ | calls _ _ _ => exact Stack.ahead_push _ _
  | endsLoop here _ => exact ahead_leave here _ _
  | repeatsLoop here _ => exact Stack.ahead_restart (nested_of_done stands inside here)
  | actFails _ _ | defineFails _ _ | callsNothing _ _ | callsTooDeep _ _ _ => cases unfailed

theorem ahead_step {mode : CellMode} (stands : machine.stack.Stands block machine.store.functions)
    (unfailed : (machine.step (.plain mode) false).hasFailed = false) :
    (machine.step (.plain mode) false).ahead = machine.stack.beyond := by
  obtain ⟨atEnd, step⟩ | ⟨_, _, marked, _⟩ | ⟨inside, _, step⟩ := step_cases (.plain mode) false machine
  · rw [step]
    refine ahead_leave ?_ _ _
    by_contra more
    cases (Level.isOver_of_rest more).symm.trans atEnd
  · rw [Rules.plain_pausesAt] at marked
    cases marked
  · rw [step] at unfailed ⊢
    exact (executes (.plain mode) false machine).ahead stands inside unfailed

end Machine

/-- The script itself has no operator of its own at its end. -/
theorem Stack.Stands.current?_of_outermost {stack : Stack} {block : Block}
    {functions : FunctionTable Block} (stands : stack.Stands block functions)
    (outermost : stack.outer = []) : stack.inner.current? = stack.inner.rest.first? := by
  cases stands with
  | @top rest place => cases rest <;> rfl
  | inside _ _ _ => cases outermost

def Token.marked (offsets : List Nat) (token : Token) : Bool :=
  offsets.contains token.offset

/-- A hit takes one marked operator from those ahead, where only first operators of statements are
marked. -/
theorem Machine.countP_ahead {machine : Machine} {block : Block} {offsets : List Nat}
    (stands : machine.stack.Stands block machine.store.functions)
    (within : machine.store.functions.Inside block)
    (unmarked : ∀ token ∈ block.inside, token.marked offsets = false) :
    machine.stack.ahead.tokens.countP (Token.marked offsets) =
      machine.stack.beyond.tokens.countP (Token.marked offsets) +
        if (Progress.running machine).hits offsets = true then 1 else 0 := by
  obtain ⟨statement, whole⟩ := stands.inside_subset within
  -- Only the script itself begins statements of the script; all other levels run inside one.
  by_cases outermost : machine.stack.outer = []
  · have ahead : machine.stack.ahead = machine.stack.inner.rest := by rw [Stack.ahead, outermost]
    have beyond : machine.stack.beyond = machine.stack.inner.rest.tail := by
      rw [Stack.beyond, outermost]
      rfl
    have hits : (Progress.running machine).hits offsets =
        machine.stack.inner.rest.first?.any (Token.marked offsets) := by
      rw [← stands.current?_of_outermost outermost]
      rfl
    rw [ahead, beyond, hits]
    cases begins : machine.stack.inner.rest.first? with
    | none =>
      rw [← Block.head?_tokens, List.head?_eq_none_iff] at begins
      cases rest : machine.stack.inner.rest with
      | done => rfl
      | act _ _ _ | call _ _ | loop _ _ _ _ | define _ _ _ _ => simp [rest] at begins
    | some token => exact Block.countP_tokens (fun token listed => unmarked token (statement listed)) begins
  · have miss : ¬ (Progress.running machine).hits offsets = true := by
      intro hit
      cases here : machine.stack.inner.current? with
      | none => simp [Progress.hits, Progress.upcoming?, here] at hit
      | some token =>
        have listed := whole outermost (Level.mem_tokens_of_current? stands.inPlace here)
        have marked : token.marked offsets = true := by
          rw [Progress.hits, Progress.upcoming?, here] at hit
          exact hit
        cases (unmarked token listed).symm.trans marked
    rw [if_neg miss, Stack.ahead_of_nested outermost, Nat.add_zero]

section Run

variable {mode : CellMode} {block : Block} {input : Text} {tape : Tape}

theorem attains_plainRun (mode : CellMode) (block : Block) (input : Text) (tape : Tape) (place : Nat) :
    Attains mode block input tape (plainRun mode block input tape place) := by
  refine Progress.after_induction .launch ?_ place
  intro before attained
  cases before with
  | running machine => exact attained.step false rfl
  | halted store outcome => exact attained

theorem unfailed_of_finished {last : Nat} {final : Store}
    (ended : plainRun mode block input tape last = .halted final .finished) (place : Nat) :
    (plainRun mode block input tape place).hasFailed = false := by
  cases reached : plainRun mode block input tape place with
  | running machine => rfl
  | halted store outcome =>
    obtain ⟨_, rfl⟩ := plainRun_end_unique ended reached
    rfl

/-- In a run that comes to its end, hits and marked operators ahead make up those of the script. -/
theorem hitsBefore_add_ahead {offsets : List Nat} {last : Nat} {final : Store} (whole : block.Tidy)
    (unmarked : ∀ token ∈ block.inside, token.marked offsets = false)
    (ended : plainRun mode block input tape last = .halted final .finished) (place : Nat) :
    hitsBefore offsets (plainRun mode block input tape) place +
        (plainRun mode block input tape place).ahead.tokens.countP (Token.marked offsets) =
      block.tokens.countP (Token.marked offsets) := by
  induction place with
  | zero => exact Nat.zero_add _
  | succ place ih =>
    have attained := attains_plainRun mode block input tape place
    have unfailed := unfailed_of_finished ended (place + 1)
    have next : plainRun mode block input tape (place + 1) =
        (plainRun mode block input tape place).next (.plain mode) := Progress.after_succ_last place
    rw [next] at unfailed ⊢
    cases reached : plainRun mode block input tape place with
    | halted store outcome =>
      have miss : ¬ (plainRun mode block input tape place).hits offsets = true := by
        rw [reached]
        exact Bool.false_ne_true
      rw [reached] at ih
      rw [hitsBefore_succ_of_miss miss]
      exact ih
    | running machine =>
      rw [reached] at attained unfailed ih
      have stands := (attained.sound whole).stands
      have onward : ((Progress.running machine).next (.plain mode)).ahead = machine.stack.beyond :=
        Machine.ahead_step stands unfailed
      have counted : (Progress.running machine).ahead.tokens.countP (Token.marked offsets) = _ :=
        Machine.countP_ahead stands (attained.inside whole) unmarked
      rw [counted] at ih
      rw [onward]
      by_cases hit : (Progress.running machine).hits offsets = true
      · rw [if_pos hit] at ih
        rw [hitsBefore_succ_of_hit (reached ▸ hit)]
        omega
      · rw [if_neg hit] at ih
        rw [hitsBefore_succ_of_miss (reached ▸ hit)]
        omega

end Run

end TapeStepper
