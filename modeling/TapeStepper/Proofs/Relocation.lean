import TapeStepper.Compile
import TapeStepper.Proofs.Shortcut
import TapeStepper.Proofs.Storage

namespace TapeStepper

variable {move : Nat → Nat}

def Token.relocate (move : Nat → Nat) (token : Token) : Token :=
  { token with offset := move token.offset }

@[simp]
theorem operators_relocate (tokens : List Token) :
    operators (tokens.map (Token.relocate move)) = operators tokens := by
  simp [operators, Function.comp_def, Token.relocate]

namespace Block

/-- The same statements with their operators at other offsets. -/
def relocate (move : Nat → Nat) : Block → Block
  | done => done
  | act offset action next => act (move offset) action (next.relocate move)
  | call offset next => call (move offset) (next.relocate move)
  | loop opens body closes next =>
    loop (move opens) (body.relocate move) (move closes) (next.relocate move)
  | define opens body closes next =>
    define (move opens) (body.relocate move) (move closes) (next.relocate move)

variable (move) (block : Block)

@[simp]
theorem tokens_relocate : (block.relocate move).tokens = block.tokens.map (Token.relocate move) := by
  induction block with
  | done => rfl
  | act offset action next ih | call offset next ih => simp [relocate, ih, Token.relocate]
  | loop opens body closes next ihBody ihNext | define opens body closes next ihBody ihNext =>
    simp [relocate, ihBody, ihNext, Token.relocate]

@[simp]
theorem length_relocate : (block.relocate move).length = block.length := by
  induction block with
  | done => rfl
  | act _ _ _ ih | call _ _ ih => simp [relocate, length, ih]
  | loop _ _ _ _ _ ih | define _ _ _ _ _ ih => simp [relocate, length, ih]

theorem tail_relocate : (block.relocate move).tail = block.tail.relocate move := by
  cases block <;> rfl

theorem first?_relocate : (block.relocate move).first? = block.first?.map (Token.relocate move) := by
  cases block <;> rfl

@[simp]
theorem takeTokens_relocate (count : Nat) :
    (block.relocate move).takeTokens count = (block.takeTokens count).map (Token.relocate move) := by
  induction block generalizing count with
  | done => cases count <;> rfl
  | act _ _ next ih | call _ next ih =>
    cases count with
    | zero => rfl
    | succ count => simp [relocate, takeTokens, ih, Token.relocate]
  | loop _ body _ next _ ih | define _ body _ next _ ih =>
    cases count with
    | zero => rfl
    | succ count => simp [relocate, takeTokens, tokensOnto_eq, ih, Token.relocate]

theorem toC_relocate (first : Nat) : (block.relocate move).toC first = block.toC first := by
  induction block generalizing first with
  | done => rfl
  | act offset action next ih | call offset next ih => simp [relocate, toC, ih]
  | loop opens body closes next ihBody ihNext | define opens body closes next ihBody ihNext =>
    simp [relocate, toC, ihBody, ihNext]

end Block

def Entry.relocate (move : Nat → Nat) : Entry → Entry
  | top => top
  | loop closes => loop (move closes)
  | call key => call key

namespace Level

def relocate (move : Nat → Nat) (level : Level) : Level :=
  ⟨level.body.relocate move, level.rest.relocate move, level.entry.relocate move⟩

variable (move) (level : Level)

@[simp]
theorem isOver_relocate : (level.relocate move).isOver = level.isOver := by
  obtain ⟨body, rest, entry⟩ := level
  cases rest <;> cases entry <;> rfl

theorem current?_relocate : (level.relocate move).current? = level.current?.map (Token.relocate move) := by
  obtain ⟨body, rest, entry⟩ := level
  cases rest <;> cases entry <;> rfl

theorem reached_relocate : (level.relocate move).reached = level.reached.map (Token.relocate move) := by
  have index : (level.relocate move).index = level.index := by
    simp [Level.index, relocate]
  rw [reached, reached, index, current?_relocate]
  cases level.current? <;> simp [relocate]

theorem advance_relocate : (level.relocate move).advance = level.advance.relocate move := by
  simp [advance, relocate, Block.tail_relocate]

end Level

namespace Stack

def relocate (move : Nat → Nat) (stack : Stack) : Stack :=
  ⟨stack.inner.relocate move, stack.outer.map (Level.relocate move), stack.depth,
    by rw [List.length_map, stack.depth_eq]⟩

variable (move) (stack : Stack)

theorem push_relocate (level : Level) :
    (stack.push level).relocate move = (stack.relocate move).push (level.relocate move) := rfl

theorem advance_relocate :
    (stack.relocate move).modify Level.advance = (stack.modify Level.advance).relocate move := by
  simp only [modify, relocate, Level.advance_relocate]

theorem leave?_relocate : (stack.relocate move).leave? = stack.leave?.map (relocate move) := by
  obtain ⟨inner, outer, depth, depth_eq⟩ := stack
  cases outer with
  | nil => rfl
  | cons level outer =>
    simp [leave?, parent?, relocate, modify, Level.advance_relocate]

theorem frames_relocate :
    (stack.relocate move).frames = stack.frames.map (List.map (Token.relocate move)) := by
  simp [frames, levels, relocate, Level.reached_relocate, Function.comp_def]

end Stack

namespace Store

def relocate (move : Nat → Nat) (store : Store) : Store :=
  { store with functions := store.functions.mapBodies (Block.relocate move) }

variable (move) (store : Store)

theorem count_relocate (operations : Nat) :
    (store.count operations).relocate move = (store.relocate move).count operations := rfl

theorem perform_relocate (mode : CellMode) (action : Action) :
    (store.relocate move).perform mode action = (store.perform mode action).map (relocate move) := by
  cases action with
  | next =>
    cases step : store.tape.next? <;> simp [perform, relocate, step, withTape, Except.map]
  | back =>
    cases step : store.tape.back? <;> simp [perform, relocate, step, withTape, Except.map]
  | plus =>
    cases step : mode.increment? store.tape <;> simp [perform, relocate, step, withTape, Except.map]
  | minus =>
    cases step : mode.decrement? store.tape <;> simp [perform, relocate, step, withTape, Except.map]
  | print =>
    cases step : store.output.write? store.tape.currentChar <;>
      simp [perform, relocate, step, Except.map]
  | read =>
    cases waiting : store.input with
    | nil => simp [perform, relocate, waiting, Except.map]
    | cons c input =>
      cases held : mode.encode? c <;> simp [perform, relocate, waiting, held, Except.map]

end Store

def Machine.relocate (move : Nat → Nat) (machine : Machine) : Machine :=
  ⟨machine.store.relocate move, machine.stack.relocate move, machine.armed⟩

def Outcome.relocate (move : Nat → Nat) : Outcome → Outcome
  | finished => finished
  | paused stack => paused (stack.relocate move)
  | failed fault stack => failed fault (stack.relocate move)
  | overran stack => overran (stack.relocate move)

def Progress.relocate (move : Nat → Nat) : Progress → Progress
  | running machine => running (machine.relocate move)
  | halted store outcome => halted (store.relocate move) (outcome.relocate move)

theorem Rules.skips_relocate {rules : Rules} (free : ∀ offset, rules.pausesAt offset = false)
    (body : Block) (closes : Nat) :
    rules.skips (body.relocate move) (move closes) = rules.skips body closes := by
  have skips (body : Block) (closes : Nat) : rules.skips body closes = true ↔
      (∃ minus, body = .act minus .minus .done) ∧ rules.shortcut = true := by
    simp [Rules.skips_iff, free]
  rw [Bool.eq_iff_iff, skips, skips]
  refine and_congr_left fun _ => ⟨?_, ?_⟩
  · rintro ⟨minus, same⟩
    cases body with
    | act offset action next =>
      cases next <;> cases same
      exact ⟨offset, rfl⟩
    | done | call _ _ | loop _ _ _ _ | define _ _ _ _ => cases same
  · rintro ⟨minus, rfl⟩
    exact ⟨move minus, rfl⟩

namespace Machine

variable {rules : Rules} {late : Bool} {machine : Machine} {progress : Progress}

theorem leave_relocate (machine : Machine) (store : Store) (armed : Bool) :
    (machine.relocate move).leave (store.relocate move) armed =
      (machine.leave store armed).relocate move := by
  unfold leave
  rw [show (machine.relocate move).stack = machine.stack.relocate move from rfl,
    Stack.leave?_relocate]
  cases machine.stack.leave? <;> rfl

theorem proceed_relocate (machine : Machine) (store : Store) :
    (machine.relocate move).proceed (store.relocate move) = (machine.proceed store).relocate move := by
  simp only [proceed, relocate, Stack.advance_relocate]
  rfl

theorem arrive_relocate (late : Bool) (store : Store) (stack : Stack) :
    arrive late (store.relocate move) (stack.relocate move) = (arrive late store stack).relocate move := by
  cases late <;> rfl

theorem rest_relocate {block : Block} (here : machine.stack.inner.rest = block) :
    (machine.relocate move).stack.inner.rest = block.relocate move := by
  rw [← here]
  rfl

theorem get?_relocate (move : Nat → Nat) (machine : Machine) (key : Nat) :
    (machine.relocate move).store.functions.get? key =
      (machine.store.functions.get? key).map (Block.relocate move) :=
  FunctionTable.get?_mapBodies _ _ _

theorem define_relocate (move : Nat → Nat) (machine : Machine) (key : Nat) (body : Block) :
    (machine.relocate move).store.functions.define key (body.relocate move) =
      (machine.store.functions.define key body).map (FunctionTable.mapBodies (Block.relocate move)) :=
  FunctionTable.define_mapBodies _ _ _ _

/-- Whatever an operator does, it does at another offset as well. -/
theorem Executes.relocate (move : Nat → Nat) (free : ∀ offset, rules.pausesAt offset = false)
    (executes : machine.Executes rules late progress) :
    (machine.relocate move).Executes rules late (progress.relocate move) := by
  cases executes with
  | @acts _ action _ store here result =>
    have performed := machine.store.perform_relocate move rules.mode action
    rw [result] at performed
    rw [← proceed_relocate, Store.count_relocate]
    exact .acts (rest_relocate here) performed
  | @actFails _ action _ fault here result =>
    have performed := machine.store.perform_relocate move rules.mode action
    rw [result] at performed
    exact .actFails (rest_relocate here) performed
  | skipsLoop here zero =>
    rw [← proceed_relocate, Store.count_relocate]
    exact .skipsLoop (rest_relocate here) zero
  | resetsCell here nonzero skips =>
    rw [← proceed_relocate, Store.count_relocate]
    exact .resetsCell (rest_relocate here) nonzero (skips ▸ Rules.skips_relocate free _ _)
  | entersLoop here nonzero enters =>
    rw [← arrive_relocate, Store.count_relocate, Stack.push_relocate]
    exact .entersLoop (rest_relocate here) nonzero (enters ▸ Rules.skips_relocate free _ _)
  | @defines _ body _ _ functions here result =>
    have defined := machine.define_relocate move machine.store.value body
    rw [result] at defined
    rw [← proceed_relocate]
    exact .defines (rest_relocate here) defined
  | @defineFails _ body _ _ fault here result =>
    have defined := machine.define_relocate move machine.store.value body
    rw [result] at defined
    exact .defineFails (rest_relocate here) defined
  | callsNothing here unbound =>
    have found := machine.get?_relocate move machine.store.value
    rw [unbound] at found
    exact .callsNothing (rest_relocate here) found
  | callsTooDeep here bound deep =>
    have found := machine.get?_relocate move machine.store.value
    rw [bound] at found
    exact .callsTooDeep (rest_relocate here) found deep
  | calls here bound room =>
    have found := machine.get?_relocate move machine.store.value
    rw [bound] at found
    rw [← arrive_relocate, Store.count_relocate, Stack.push_relocate]
    exact .calls (rest_relocate here) found room
  | endsLoop here zero =>
    rw [← leave_relocate, Store.count_relocate]
    exact .endsLoop (rest_relocate here) zero
  | repeatsLoop here nonzero =>
    rw [← arrive_relocate, Store.count_relocate]
    exact .repeatsLoop (rest_relocate here) nonzero

theorem step_relocate (move : Nat → Nat) (free : ∀ offset, rules.pausesAt offset = false) (late : Bool)
    (machine : Machine) :
    (machine.relocate move).step rules late = (machine.step rules late).relocate move := by
  cases atEnd : machine.stack.inner.isOver with
  | true =>
    have atEndToo : (machine.relocate move).stack.inner.isOver = true :=
      (machine.stack.inner.isOver_relocate move).trans atEnd
    rw [step_of_over atEnd, step_of_over atEndToo]
    exact leave_relocate machine machine.store machine.armed
  | false =>
    have insideToo : (machine.relocate move).stack.inner.isOver = false :=
      (machine.stack.inner.isOver_relocate move).trans atEnd
    rw [step_of_execute atEnd fun _ => free _, step_of_execute insideToo fun _ => free _]
    exact ((executes rules late machine).relocate move free).execute_eq

end Machine

def Halt.relocate (move : Nat → Nat) (halt : Halt) : Halt :=
  ⟨halt.steps, halt.store.relocate move, halt.outcome.relocate move⟩

theorem Progress.finish_relocate (move : Nat → Nat) {rules : Rules}
    (free : ∀ offset, rules.pausesAt offset = false) (late : Nat → Bool) (fuel steps : Nat)
    (progress : Progress) : (progress.relocate move).finish rules late fuel steps =
      (progress.finish rules late fuel steps).map (Halt.relocate move) := by
  induction fuel generalizing steps progress with
  | zero => cases progress <;> rfl
  | succ fuel ih =>
    cases progress with
    | halted store outcome => rfl
    | running machine =>
      rw [relocate, finish, Machine.step_relocate move free, ih, finish]

/-- The whole run is moved along with the script. -/
theorem Machine.run_relocate (move : Nat → Nat) {rules : Rules}
    (free : ∀ offset, rules.pausesAt offset = false) (fuel : Nat) (machine : Machine) :
    (machine.relocate move).run rules never fuel =
      (machine.run rules never fuel).map (Halt.relocate move) := by
  rw [run_never, run_never]
  exact Progress.finish_relocate move free never fuel _ (.running machine)

end TapeStepper
