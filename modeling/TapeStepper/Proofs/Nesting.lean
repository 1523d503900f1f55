import TapeStepper.Proofs.Moves

namespace TapeStepper

namespace Block

theorem drop_succ (count : Nat) (block : Block) : block.drop (count + 1) = (block.drop count).tail := by
  induction count generalizing block with
  | zero => rfl
  | succ count ih => exact ih block.tail

theorem length_tail (block : Block) : block.tail.length = block.length - 1 := by
  cases block <;> rfl

theorem length_drop (count : Nat) (block : Block) : (block.drop count).length = block.length - count := by
  induction count with
  | zero => rfl
  | succ count ih => rw [drop_succ, length_tail, ih, Nat.sub_sub]

theorem drop_of_length_le {count : Nat} {block : Block} (bound : block.length ≤ count) :
    block.drop count = done := by
  have empty := length_drop count block
  rw [Nat.sub_eq_zero_of_le bound] at empty
  cases rest : block.drop count with
  | done => rfl
  | act _ _ _ | call _ _ | loop _ _ _ _ | define _ _ _ _ => simp [rest, length] at empty

end Block

namespace Level

/-- What is left of the body begins at the statement that is counted. -/
def InPlace (level : Level) : Prop :=
  level.body.drop level.index = level.rest

theorem inPlace_of_drop {level : Level} {count : Nat} (rest : level.rest = level.body.drop count) :
    level.InPlace := by
  unfold InPlace index
  rw [rest, Block.length_drop]
  by_cases bound : count ≤ level.body.length
  · rw [Nat.sub_sub_self bound]
  · have nothing : level.body.length - count = 0 := by omega
    rw [nothing, Nat.sub_zero, Block.drop_of_length_le (Nat.le_refl _),
      Block.drop_of_length_le (by omega)]

theorem inPlace_enter (body : Block) (entry : Entry) : (enter body entry).InPlace :=
  inPlace_of_drop (Eq.refl (body.drop 0))

theorem InPlace.advance {level : Level} (place : level.InPlace) : level.advance.InPlace := by
  have tail : level.advance.rest = level.body.drop (level.index + 1) := by
    rw [Block.drop_succ, place]
    rfl
  exact inPlace_of_drop tail

theorem InPlace.moveTo {level : Level} (place : level.InPlace) :
    level.restart.moveTo level.index = level := by
  rw [Level.moveTo, restart, place]

end Level

/-- The levels of a run of `block`: each is a body that the current statement of
the level around it opens, and stands at one of its statements. -/
inductive Stack.Stands (block : Block) (functions : FunctionTable Block) : Stack → Prop
  | top {rest} : (Level.mk block rest .top).InPlace →
      Stands block functions ⟨⟨block, rest, .top⟩, [], 1, rfl⟩
  | inside {stack level} : Stands block functions stack →
      opened? functions level.key? stack.inner = some level.restart → level.InPlace →
      Stands block functions (stack.push level)

namespace Stack

variable {block : Block} {functions : FunctionTable Block} {stack : Stack}

theorem stands_top (block : Block) (functions : FunctionTable Block) : (top block).Stands block functions :=
  .top (Level.inPlace_enter block .top)

theorem Stands.inPlace (stands : stack.Stands block functions) : stack.inner.InPlace := by
  cases stands with
  | top place => exact place
  | inside _ _ place => exact place

theorem Stands.restart (stands : stack.Stands block functions) :
    (stack.modify Level.restart).Stands block functions := by
  cases stands with
  | top place => exact .top (Level.inPlace_enter block .top)
  | @inside around level outer opened place => exact .inside outer opened (Level.inPlace_enter _ _)

theorem Stands.advance (stands : stack.Stands block functions) :
    (stack.modify Level.advance).Stands block functions := by
  cases stands with
  | top place => exact .top place.advance
  | @inside around level outer opened place => exact .inside outer opened place.advance

theorem Stands.leave {left : Stack} (stands : stack.Stands block functions)
    (step : stack.leave? = some left) : left.Stands block functions := by
  cases stands with
  | top place => cases step
  | inside outer opened place =>
    cases step
    exact outer.advance

theorem Stands.parent {around : Stack} (stands : stack.Stands block functions)
    (step : stack.parent? = some around) : around.Stands block functions := by
  cases stands with
  | top place => cases step
  | inside outer opened place =>
    cases step
    exact outer

/-- Only loops and calls of functions that are defined open a level. -/
theorem opened?_cases {key? : Option Nat} {level inside : Level}
    (opened : opened? functions key? level = some inside) :
    (∃ opens body closes next, level.rest = .loop opens body closes next ∧
      inside = .enter body (.loop closes)) ∨
    ∃ offset next key body, level.rest = .call offset next ∧ key? = some key ∧
      functions.get? key = some body ∧ inside = .enter body (.call key) := by
  cases here : level.rest with
  | loop opens body closes next =>
    simp only [opened?, here, Option.some.injEq] at opened
    exact .inl ⟨opens, body, closes, next, rfl, opened.symm⟩
  | call offset next =>
    simp only [opened?, here] at opened
    obtain ⟨key, called, rest⟩ := Option.bind_eq_some_iff.mp opened
    obtain ⟨body, bound, entered⟩ := Option.bind_eq_some_iff.mp rest
    exact .inr ⟨offset, next, key, body, rfl, called, bound, (Option.some.inj entered).symm⟩
  | done | act _ _ _ | define _ _ _ _ => simp [opened?, here] at opened

theorem isOver_of_opened {key? : Option Nat} {level inside : Level}
    (opened : opened? functions key? level = some inside) : level.isOver = false := by
  obtain ⟨_, _, _, _, here, _⟩ | ⟨_, _, _, _, here, _⟩ := opened?_cases opened
  · rw [Level.isOver, here]
  · rw [Level.isOver, here]

theorem opened?_loop {opens closes : Nat} {body next : Block} {key? : Option Nat} {level : Level}
    (here : level.rest = .loop opens body closes next) :
    opened? functions key? level = some (.enter body (.loop closes)) := by
  rw [opened?, here]

theorem opened?_call {offset key : Nat} {body next : Block} {level : Level}
    (here : level.rest = .call offset next) (bound : functions.get? key = some body) :
    opened? functions (some key) level = some (.enter body (.call key)) := by
  simp [opened?, here, bound]

theorem Stands.pushLoop {opens closes : Nat} {body next : Block}
    (stands : stack.Stands block functions) (here : stack.inner.rest = .loop opens body closes next) :
    (stack.push (.enter body (.loop closes))).Stands block functions :=
  .inside stands (opened?_loop here) (Level.inPlace_enter _ _)

theorem Stands.pushCall {offset key : Nat} {body next : Block}
    (stands : stack.Stands block functions) (here : stack.inner.rest = .call offset next)
    (bound : functions.get? key = some body) :
    (stack.push (.enter body (.call key))).Stands block functions :=
  .inside stands (opened?_call here bound) (Level.inPlace_enter _ _)

/-- Later definitions do not move a stack, since a key is bound only once. -/
theorem Stands.mono {defined : FunctionTable Block} (stands : stack.Stands block functions)
    (kept : ∀ key body, functions.get? key = some body → defined.get? key = some body) :
    stack.Stands block defined := by
  induction stands with
  | top place => exact .top place
  | @inside around level outer opened place ih =>
    refine .inside ih ?_ place
    obtain ⟨opens, body, closes, next, here, entered⟩ | ⟨offset, next, key, body, here, called, bound,
      entered⟩ := opened?_cases opened
    · rw [entered, opened?_loop here]
    · rw [entered, called, opened?_call here (kept key body bound)]

theorem follow?_concat (path : List Anchor) (anchor : Anchor) (start : Stack) :
    start.follow? functions (path ++ [anchor]) =
      (start.follow? functions path).bind fun stack => stack.follow? functions [anchor] := by
  induction path generalizing start with
  | nil => rfl
  | cons first path ih =>
    simp only [List.cons_append, follow?, Option.bind_eq_bind]
    cases opened? functions first.key? (start.modify (Level.moveTo first.index)).inner with
    | none => rfl
    | some level => exact ih _

theorem path_push (level : Level) (stack : Stack) :
    (stack.push level).resumePoint.path =
      stack.resumePoint.path ++ [⟨stack.inner.index, level.key?⟩] := by
  simp [resumePoint, push, levels]

theorem Stands.follow? (stands : stack.Stands block functions) :
    (Stack.top block).follow? functions stack.resumePoint.path =
      some (stack.modify Level.restart) := by
  induction stands with
  | top place => rfl
  | @inside around level outer opened place ih =>
    have back : (around.modify Level.restart).modify (Level.moveTo around.inner.index) = around := by
      unfold modify
      simp only [outer.inPlace.moveTo]
    rw [path_push, follow?_concat, ih, Option.bind_some, Stack.follow?, back]
    simp only [opened, Option.bind_eq_bind, Option.bind_some]
    rfl

/-- The way in that a stack records leads back to the same stack. -/
theorem Stands.rebuild (stands : stack.Stands block functions) :
    stack.resumePoint.stack? block functions = some stack := by
  rw [ResumePoint.stack?, stands.follow?, Option.map_some]
  unfold modify
  simp only [resumePoint, stands.inPlace.moveTo]

/-- What passes from a sequence to its later statements and from a loop to its body holds of all that a
level runs, when it holds of the script and of the functions. -/
theorem Stands.part (stands : stack.Stands block functions) (Part : Block → Prop) (whole : Part block)
    (bodies : ∀ key body, functions.get? key = some body → Part body)
    (tail : ∀ sequence, Part sequence → Part sequence.tail)
    (body : ∀ opens body closes next, Part (.loop opens body closes next) → Part body) :
    Part stack.inner.body ∧ Part stack.inner.rest := by
  have rest {level : Level} (inside : Part level.body) (place : level.InPlace) :
      Part level.body ∧ Part level.rest := by
    refine ⟨inside, ?_⟩
    rw [← place]
    generalize level.index = count
    induction count with
    | zero => exact inside
    | succ count ih =>
      rw [Block.drop_succ]
      exact tail _ ih
  induction stands with
  | top place => exact rest whole place
  | @inside around level outer opened place ih =>
    obtain ⟨opens, inner, closes, next, here, entered⟩ | ⟨offset, next, key, called, here, keyed, bound,
      entered⟩ := opened?_cases opened
    · have same : level.body = inner := congrArg Level.body entered
      have outside := ih.2
      rw [here] at outside
      exact rest (same ▸ body opens inner closes next outside) place
    · have same : level.body = called := congrArg Level.body entered
      exact rest (same ▸ bodies key called bound) place

end Stack

theorem Store.functions_perform {mode : CellMode} {store changed : Store} {action : Action}
    (result : store.perform mode action = .ok changed) : changed.functions = store.functions := by
  cases action with
  | next | back | plus | minus | print =>
    simp only [perform] at result
    split at result <;> cases result
    rfl
  | read =>
    simp only [perform] at result
    split at result
    · cases result
    · split at result <;> cases result
      rfl

/-- The levels that were active when a run ended. -/
def Outcome.stack? : Outcome → Option Stack
  | finished => none
  | paused stack | failed _ stack | overran stack => some stack

/-- The levels of a run of `block` are in order, also when it has ended. -/
def Progress.Stands (block : Block) : Progress → Prop
  | running machine => machine.stack.Stands block machine.store.functions
  | halted store outcome => ∀ stack, outcome.stack? = some stack → stack.Stands block store.functions

namespace Machine

variable {block : Block} {rules : Rules} {late : Bool} {machine : Machine}

theorem stands_arrive {store : Store} {stack : Stack} (stands : stack.Stands block store.functions) :
    (arrive late store stack).Stands block := by
  cases late with
  | true =>
    intro last same
    cases same
    exact stands
  | false => exact stands

theorem stands_leave {store : Store} {armed : Bool}
    (stands : machine.stack.Stands block store.functions) :
    (machine.leave store armed).Stands block := by
  unfold leave
  split
  · rename_i left
    exact stands.leave left
  · exact fun _ same => by cases same

theorem stands_fail {fault : Fault} (stands : machine.stack.Stands block machine.store.functions) :
    (machine.fail fault).Stands block := by
  intro stack same
  cases same
  exact stands

theorem Executes.stands {progress : Progress} (move : machine.Executes rules late progress)
    (stands : machine.stack.Stands block machine.store.functions) : progress.Stands block := by
  cases move with
  | acts here result =>
    have same := Store.functions_perform result
    rw [← same] at stands
    exact stands.advance
  | skipsLoop here zero => exact stands.advance
  | resetsCell here nonzero skips => exact stands.advance
  | entersLoop here nonzero enters => exact stands_arrive (stands.pushLoop here)
  | defines here result =>
    refine (stands.mono ?_).advance
    intro key body bound
    rw [FunctionTable.get?_define result]
    split
    · rename_i same
      rw [same, (FunctionTable.define_ok_iff.mp result).1] at bound
      cases bound
    · exact bound
  | calls here bound room => exact stands_arrive (stands.pushCall here bound)
  | endsLoop here zero => exact stands_leave stands
  | repeatsLoop here nonzero => exact stands_arrive stands.restart
  | actFails _ _ | defineFails _ _ | callsNothing _ _ | callsTooDeep _ _ _ =>
    exact stands_fail stands

theorem stands_step (stands : machine.stack.Stands block machine.store.functions) :
    (machine.step rules late).Stands block := by
  obtain ⟨_, step⟩ | ⟨_, _, _, step⟩ | ⟨_, _, step⟩ := step_cases rules late machine
  · rw [step]
    exact stands_leave stands
  · rw [step]
    intro stack same
    cases same
    exact stands
  · rw [step]
    exact (executes rules late machine).stands stands

end Machine

end TapeStepper
