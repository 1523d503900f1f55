import TapeStepper.Proofs.Tracking

namespace TapeStepper

namespace Checked

theorem Flow.onward?_bind (flow : Flow) (first second : Engine → Option Flow) :
    (flow.onward? fun engine => (first engine).bind (onward? second)) =
      (flow.onward? first).bind (onward? second) := by
  cases flow <;> rfl

theorem Flow.onward?_running (flow : Flow) : (flow.onward? fun engine => some (.running engine)) =
    some flow := by
  cases flow <;> rfl

namespace Engine

theorem descend?_concat (late : Nat → Bool) (path : List Mark) (mark : Mark) (engine : Engine) :
    engine.descend? late (path ++ [mark]) =
      (engine.descend? late path).bind (Flow.onward? (openMark? late mark)) := by
  induction path generalizing engine with
  | nil => exact (Option.bind_congr fun flow _ => flow.onward?_running).trans (Option.bind_fun_some _)
  | cons first path ih =>
    rw [List.cons_append, descend?, descend?, Option.bind_eq_bind, Option.bind_assoc]
    congr 1
    funext flow
    rw [← Flow.onward?_bind, funext ih]

theorem arrive?_descend?_concat (late : Nat → Bool) (tokens : List Token) (memory : Memory)
    (path : List Mark) (mark : Mark) :
    (arrive? (late 0) memory (.top tokens) []).bind (Flow.onward? (descend? late (path ++ [mark]))) =
      ((arrive? (late 0) memory (.top tokens) []).bind (Flow.onward? (descend? late path))).bind
        (Flow.onward? (openMark? late mark)) := by
  rw [Option.bind_assoc]
  congr 1
  funext flow
  rw [← Flow.onward?_bind, funext (descend?_concat late path mark)]

end Engine

end Checked

/-- The marks that lead to the innermost level, outermost first. -/
def Stack.wayIn (stack : Stack) : List Checked.Mark :=
  ((outerFrames stack.inner stack.outer).map Checked.Frame.mark).reverse

theorem Stack.wayIn_push (level : Level) (stack : Stack) :
    (stack.push level).wayIn = stack.wayIn ++ [⟨stack.inner.passed.length, level.key?⟩] := by
  simp [wayIn, push, outerFrames, Checked.Frame.mark, Level.frame]

section Reentry

variable {block : Block} {store : Store} {stack : Stack}

/-- Along the way in there is a loop or a defined function at every level. -/
theorem Stack.Stands.opened? {level : Level} (armed : Bool)
    (stands : stack.Stands block store.functions)
    (opened : Stack.opened? store.functions level.key? stack.inner = some level.restart) :
    (Machine.mk store stack armed).engine.opened? level.key? =
      some (level.restart.span (stack.inner :: stack.outer)) := by
  have inPlace := stands.inPlace
  unfold Checked.Engine.opened? Machine.engine
  dsimp only
  obtain ⟨opens, body, closes, next, here, entered⟩ | ⟨offset, next, key, body, here, called, bound,
    entered⟩ := opened?_cases opened
  · have token : stack.inner.current? = some ⟨opens, .loopStart⟩ := Level.current?_of_rest here rfl
    rw [Level.getElem?_code stack.outer inPlace token, entered]
    exact Level.span_loop? stack.outer inPlace here
  · have token : stack.inner.current? = some ⟨offset, .call⟩ := Level.current?_of_rest here rfl
    have found : store.memory.functions.get? key = some body.tokens := by
      rw [show store.memory.functions = store.functions.spelled from rfl, FunctionTable.get?_spelled,
        bound]
      rfl
    rw [Level.getElem?_code stack.outer inPlace token, called, entered,
      Level.span_call stack.outer body key stack.inner inPlace here]
    simp [found]

/-- Where the way in ends: at the level that the clock stops, or at the start of the innermost. -/
def Stack.entered (late : Nat → Bool) (store : Store) (stack : Stack) : Checked.Flow :=
  match (List.range stack.depth).find? late with
  | some entered =>
    .halted store.memory (Outcome.overran (stack.unwind (stack.depth - 1 - entered))).ending
  | none => .running (Machine.mk store (stack.modify Level.restart) true).engine

theorem Stack.range_find? (late : Nat → Bool) (level : Level) (stack : Stack) :
    (List.range (stack.push level).depth).find? late =
      ((List.range stack.depth).find? late).or (if late stack.depth then some stack.depth else none) := by
  rw [show (stack.push level).depth = stack.depth + 1 from rfl, List.range_succ, List.find?_append,
    List.find?_singleton]

/-- The next level is entered where the path says, unless the clock has stopped the run. -/
theorem Stack.Stands.openMark? {level : Level} (late : Nat → Bool)
    (stands : stack.Stands block store.functions)
    (opened : Stack.opened? store.functions level.key? stack.inner = some level.restart) :
    (Machine.mk store (stack.modify Level.restart) true).engine.openMark? late
        ⟨stack.inner.passed.length, level.key?⟩ =
      some (Machine.arrive (late stack.depth) store (stack.push level.restart)).flow := by
  have inside : (stack.push level.restart).Stands block store.functions :=
    .inside stands opened (Level.inPlace_enter _ _)
  have back : (Machine.mk store (stack.modify Level.restart) true).engine.moveTo
      stack.inner.passed.length = (Machine.mk store stack true).engine := rfl
  have depth : (stack.inner.span stack.outer :: spans stack.outer).length = stack.depth := by
    rw [List.length_cons, length_spans, stack.depth_eq]
  unfold Checked.Engine.openMark?
  rw [back, stands.opened? true opened, ← depth]
  exact Machine.engine_arrive? _ store inside

theorem Stack.Stands.entered_push {level : Level} (late : Nat → Bool)
    (stands : stack.Stands block store.functions)
    (opened : Stack.opened? store.functions level.key? stack.inner = some level.restart) :
    (stack.entered late store).onward?
        (Checked.Engine.openMark? late ⟨stack.inner.passed.length, level.key?⟩) =
      some ((stack.push level).entered late store) := by
  unfold entered
  rw [range_find?]
  cases earlier : (List.range stack.depth).find? late with
  | some entered =>
    have bound := List.mem_range.mp (List.mem_of_find?_eq_some earlier)
    have further : (stack.push level).depth - 1 - entered = stack.depth - 1 - entered + 1 := by
      simp only [push]
      omega
    simp only [Option.some_or, Checked.Flow.onward?]
    rw [further]
    rfl
  | none =>
    rw [Checked.Flow.onward?, stands.openMark? late opened, Option.none_or]
    cases late stack.depth with
    | true =>
      have none : (stack.push level).depth - 1 - stack.depth = 0 := by simp [push]
      simp only [if_true, none]
      rfl
    | false => rfl

theorem Stack.Stands.descend? (late : Nat → Bool) (stands : stack.Stands block store.functions) :
    ((Checked.Engine.arrive? (late 0) store.memory (.top block.tokens) []).bind
      (Checked.Flow.onward? (Checked.Engine.descend? late stack.wayIn))) =
      some (stack.entered late store) := by
  induction stands with
  | @top rest place =>
    have arrived : Checked.Engine.arrive? (late 0) store.memory ((Level.enter block .top).span []) [] =
        _ := Machine.engine_arrive? (late 0) store (Stack.stands_top block store.functions)
    rw [← Level.span_top, arrived, Option.bind_some]
    rw [show Checked.Engine.descend? late (Stack.wayIn _) = fun engine => some (.running engine) from rfl,
      Checked.Flow.onward?_running]
    unfold entered
    simp [List.range_one]
    cases late 0 <;> rfl
  | @inside around level outer opened place ih =>
    rw [wayIn_push, Checked.Engine.arrive?_descend?_concat, ih, Option.bind_some]
    exact outer.entered_push late opened

end Reentry

theorem Stack.Stands.unwind {block : Block} {functions : FunctionTable Block} {stack : Stack}
    (stands : stack.Stands block functions) (count : Nat) :
    (stack.unwind count).Stands block functions := by
  induction count generalizing stack with
  | zero => exact stands
  | succ count ih =>
    unfold Stack.unwind
    split
    · rename_i around step
      exact ih (stands.parent step)
    · exact stands

def Stack.marks (stack : Stack) : List Checked.Mark :=
  stack.haltFrames.map Checked.Frame.mark

theorem length_outerFrames (inner : Level) (outer : List Level) :
    (outerFrames inner outer).length = outer.length := by
  induction outer generalizing inner with
  | nil => rfl
  | cons around outer ih => rw [outerFrames, List.length_cons, ih, List.length_cons]

/-- The machine that marks lead to: at the start of the script without marks, or at the place where
an earlier run has paused. -/
inductive Machine.Marked (block : Block) : Machine → List Checked.Mark → Prop
  | start {store} : store.functions.Plain → Marked block (.launch block store) []
  | again {store stack} : stack.Stands block store.functions → store.functions.Plain →
      Marked block ⟨store, stack, false⟩ stack.marks

namespace Machine.Marked

variable {block : Block} {machine : Machine} {marks : List Checked.Mark}

theorem depth (marked : machine.Marked block marks) : max marks.length 1 = machine.stack.depth := by
  cases marked with
  | start plain => rfl
  | @again store stack stands plain =>
    simp only [Stack.marks, Stack.haltFrames, List.length_map, List.length_cons, length_outerFrames,
      stack.depth_eq]
    omega

theorem sound_enter (marked : machine.Marked block marks) (late : Nat → Bool) :
    (machine.enter late).Sound block := by
  have stands : machine.stack.Stands block machine.store.functions ∧ machine.store.functions.Plain := by
    cases marked with
    | start plain => exact ⟨Stack.stands_top _ _, plain⟩
    | again stands plain => exact ⟨stands, plain⟩
  unfold Machine.enter
  split
  · refine ⟨?_, stands.2, fun _ stopped => by cases stopped⟩
    intro stack same
    cases same
    exact stands.1.unwind _
  · exact ⟨stands.1, stands.2, fun _ stopped => by cases stopped⟩

/-- No check fails on the way in. -/
theorem enter? (marked : machine.Marked block marks) (code : block.tokens ≠ []) (late : Nat → Bool) :
    Checked.Engine.enter? late block.tokens machine.store.memory marks =
      some (machine.enter late).flow := by
  have entered (stack : Stack) (stands : stack.Stands block machine.store.functions)
      (way : marks.tail.reverse = stack.wayIn) :
      Checked.Engine.enter? late block.tokens machine.store.memory marks =
        (stack.entered late machine.store).onward? fun engine =>
          some (.running (engine.revisit marks)) := by
    have filled : ¬ block.tokens.isEmpty = true := by simpa using code
    have descended := stands.descend? late
    rw [Checked.Engine.enter?, if_neg filled, way, Option.bind_eq_bind, ← Option.bind_assoc,
      descended, Option.bind_some]
  cases marked with
  | @start store plain =>
    rw [entered (.top block) (Stack.stands_top block _) rfl]
    unfold Stack.entered Machine.enter Machine.launch
    cases (List.range (Stack.top block).depth).find? late <;> rfl
  | @again store stack stands plain =>
    rw [entered stack stands rfl]
    unfold Stack.entered Machine.enter
    cases (List.range stack.depth).find? late <;> rfl

/-- No check fails along a run, from wherever it is taken up. -/
theorem run? (marked : machine.Marked block marks) (code : block.tokens ≠ []) (whole : block.Tidy)
    (rules : Rules) (late : Nat → Bool) (fuel : Nat) :
    Checked.Engine.run? rules late fuel block.tokens machine.store.memory marks =
      some ((machine.run rules late fuel).map Halt.stop) := by
  rw [Checked.Engine.run?, marked.enter? code, Option.bind_eq_bind, Option.bind_some, marked.depth,
    Progress.flow_finish? whole fuel _ (marked.sound_enter late)]
  rfl

theorem sound_run (marked : machine.Marked block marks) (whole : block.Tidy) {rules : Rules}
    {late : Nat → Bool} {fuel : Nat} {halt : Halt} (run : machine.run rules late fuel = some halt) :
    (Progress.halted halt.store halt.outcome).Sound block :=
  (marked.sound_enter late).finish whole run

end Machine.Marked

end TapeStepper
