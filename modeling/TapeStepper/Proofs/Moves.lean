import TapeStepper.Machine

namespace TapeStepper

/-- What running the current operator can do, each with its condition. Nothing
else happens to a machine that is neither at the end of a body nor paused. -/
inductive Machine.Executes (rules : Rules) (late : Bool) (machine : Machine) : Progress → Prop
  | acts {offset action next store} : machine.stack.inner.rest = .act offset action next →
      machine.store.perform rules.mode action = .ok store →
      Executes rules late machine (machine.proceed (store.count 1))
  | actFails {offset action next fault} : machine.stack.inner.rest = .act offset action next →
      machine.store.perform rules.mode action = .error fault →
      Executes rules late machine (machine.fail fault)
  | skipsLoop {opens body closes next} : machine.stack.inner.rest = .loop opens body closes next →
      machine.store.value = 0 →
      Executes rules late machine (machine.proceed (machine.store.count 1))
  | resetsCell {opens body closes next} : machine.stack.inner.rest = .loop opens body closes next →
      machine.store.value ≠ 0 → rules.skips body closes = true →
      Executes rules late machine (machine.proceed
        ((machine.store.withTape (machine.store.tape.set 0)).count (2 * machine.store.value + 1)))
  | entersLoop {opens body closes next} : machine.stack.inner.rest = .loop opens body closes next →
      machine.store.value ≠ 0 → rules.skips body closes = false →
      Executes rules late machine (arrive late (machine.store.count 1)
        (machine.stack.push (.enter body (.loop closes))))
  | defines {opens body closes next functions} :
      machine.stack.inner.rest = .define opens body closes next →
      machine.store.functions.define machine.store.value body = .ok functions →
      Executes rules late machine (machine.proceed { machine.store with functions })
  | defineFails {opens body closes next fault} :
      machine.stack.inner.rest = .define opens body closes next →
      machine.store.functions.define machine.store.value body = .error fault →
      Executes rules late machine (machine.fail fault)
  | callsNothing {offset next} : machine.stack.inner.rest = .call offset next →
      machine.store.functions.get? machine.store.value = none →
      Executes rules late machine (machine.fail (.undefinedFunction machine.store.value))
  | callsTooDeep {offset next body} : machine.stack.inner.rest = .call offset next →
      machine.store.functions.get? machine.store.value = some body →
      ¬ machine.stack.depth < depthLimit →
      Executes rules late machine (machine.fail .depthLimit)
  | calls {offset next body} : machine.stack.inner.rest = .call offset next →
      machine.store.functions.get? machine.store.value = some body →
      machine.stack.depth < depthLimit →
      Executes rules late machine (arrive late (machine.store.count 1)
        (machine.stack.push (.enter body (.call machine.store.value))))
  | endsLoop : machine.stack.inner.rest = .done → machine.store.value = 0 →
      Executes rules late machine (machine.leave (machine.store.count 1) true)
  | repeatsLoop : machine.stack.inner.rest = .done → machine.store.value ≠ 0 →
      Executes rules late machine (arrive late (machine.store.count 1)
        (machine.stack.modify Level.restart))

namespace Machine

variable {rules : Rules} {late : Bool} {machine : Machine} {progress : Progress}

theorem executes (rules : Rules) (late : Bool) (machine : Machine) :
    machine.Executes rules late (machine.execute rules late) := by
  unfold execute
  dsimp only
  split
  · rename_i offset action next here
    split
    · exact .acts here (by assumption)
    · exact .actFails here (by assumption)
  · rename_i opens body closes next here
    by_cases zero : machine.store.value = 0
    · rw [if_pos zero]
      exact .skipsLoop here zero
    · rw [if_neg zero]
      split
      · exact .resetsCell here zero (by assumption)
      · rename_i enters
        exact .entersLoop here zero (eq_false_of_ne_true enters)
  · rename_i opens body closes next here
    split
    · exact .defines here (by assumption)
    · exact .defineFails here (by assumption)
  · rename_i offset next here
    split
    · exact .callsNothing here (by assumption)
    · rename_i body bound
      split
      · exact .calls here bound (by assumption)
      · exact .callsTooDeep here bound (by assumption)
  · rename_i here
    split
    · exact .endsLoop here (by assumption)
    · exact .repeatsLoop here (by assumption)

theorem Executes.execute_eq (move : machine.Executes rules late progress) :
    machine.execute rules late = progress := by
  unfold execute
  cases move with
  | acts here result => simp only [here, result]
  | actFails here result => simp only [here, result]
  | skipsLoop here zero => simp only [here, if_pos zero]
  | resetsCell here nonzero skips => simp only [here, if_neg nonzero, if_pos skips]
  | entersLoop here nonzero enters => simp [here, nonzero, enters]
  | defines here result => simp only [here, result]
  | defineFails here result => simp only [here, result]
  | callsNothing here unbound => simp only [here, unbound]
  | callsTooDeep here bound deep => simp only [here, bound, if_neg deep]
  | calls here bound room => simp only [here, bound, if_pos room]
  | endsLoop here zero => simp only [here, if_pos zero]
  | repeatsLoop here nonzero => simp only [here, if_neg nonzero]

theorem step_of_over (atEnd : machine.stack.inner.isOver = true) :
    machine.step rules late = machine.leave machine.store machine.armed := by
  rw [step, if_pos atEnd]

theorem step_of_pause (inside : machine.stack.inner.isOver = false) (armed : machine.armed = true)
    (marked : rules.pausesAt machine.stack.inner.offset = true) :
    machine.step rules late = .halted machine.store (.paused machine.stack) := by
  simp [step, inside, armed, marked]

theorem step_of_execute (inside : machine.stack.inner.isOver = false)
    (free : machine.armed = true → rules.pausesAt machine.stack.inner.offset = false) :
    machine.step rules late = machine.execute rules late := by
  cases armed : machine.armed with
  | false => simp [step, inside, armed]
  | true => simp [step, inside, armed, free armed]

/-- A step leaves a body, pauses, or runs an operator. -/
theorem step_cases (rules : Rules) (late : Bool) (machine : Machine) :
    (machine.stack.inner.isOver = true ∧
      machine.step rules late = machine.leave machine.store machine.armed) ∨
    (machine.stack.inner.isOver = false ∧ machine.armed = true ∧
      rules.pausesAt machine.stack.inner.offset = true ∧
      machine.step rules late = .halted machine.store (.paused machine.stack)) ∨
    (machine.stack.inner.isOver = false ∧
      (machine.armed = true → rules.pausesAt machine.stack.inner.offset = false) ∧
      machine.step rules late = machine.execute rules late) := by
  cases atEnd : machine.stack.inner.isOver with
  | true => exact .inl ⟨rfl, step_of_over atEnd⟩
  | false =>
    by_cases marked : machine.armed = true ∧ rules.pausesAt machine.stack.inner.offset = true
    · exact .inr (.inl ⟨rfl, marked.1, marked.2, step_of_pause atEnd marked.1 marked.2⟩)
    · have free : machine.armed = true → rules.pausesAt machine.stack.inner.offset = false :=
        fun armed => eq_false_of_ne_true fun hit => marked ⟨armed, hit⟩
      exact .inr (.inr ⟨rfl, free, step_of_execute atEnd free⟩)

end Machine

end TapeStepper
