import TapeStepper.Proofs.Runs

namespace TapeStepper

/-- A piece of a script: statements in a row, or the rounds of a loop from the start
of its body on. -/
inductive Phrase
  | statements (block : Block)
  | rounds (body : Block)

/-- What a piece of a script does by its structure alone: from `before` it comes to
`after`, with the fault that ended it early. `depth` bodies are active meanwhile.
An operator that fails changes nothing and counts nothing. -/
inductive Means (mode : CellMode) : (depth : Nat) → Phrase → (before after : Store) →
    (fault? : Option Fault) → Prop
  | done {depth store} : Means mode depth (.statements .done) store store none
  | acts {depth offset action next store changed last fault?} :
      store.perform mode action = .ok changed →
      Means mode depth (.statements next) (changed.count 1) last fault? →
      Means mode depth (.statements (.act offset action next)) store last fault?
  | actFails {depth offset action next store fault} : store.perform mode action = .error fault →
      Means mode depth (.statements (.act offset action next)) store store (some fault)
  | skips {depth opens body closes next store last fault?} : store.value = 0 →
      Means mode depth (.statements next) (store.count 1) last fault? →
      Means mode depth (.statements (.loop opens body closes next)) store last fault?
  | loops {depth opens body closes next store left last fault?} : store.value ≠ 0 →
      Means mode (depth + 1) (.rounds body) (store.count 1) left none →
      Means mode depth (.statements next) left last fault? →
      Means mode depth (.statements (.loop opens body closes next)) store last fault?
  | loopFails {depth opens body closes next store last fault} : store.value ≠ 0 →
      Means mode (depth + 1) (.rounds body) (store.count 1) last (some fault) →
      Means mode depth (.statements (.loop opens body closes next)) store last (some fault)
  | defines {depth opens body closes next store functions last fault?} :
      store.functions.define store.value body = .ok functions →
      Means mode depth (.statements next) { store with functions } last fault? →
      Means mode depth (.statements (.define opens body closes next)) store last fault?
  | defineFails {depth opens body closes next store fault} :
      store.functions.define store.value body = .error fault →
      Means mode depth (.statements (.define opens body closes next)) store store (some fault)
  | calls {depth offset next body store left last fault?} :
      store.functions.get? store.value = some body → depth < depthLimit →
      Means mode (depth + 1) (.statements body) (store.count 1) left none →
      Means mode depth (.statements next) left last fault? →
      Means mode depth (.statements (.call offset next)) store last fault?
  | callFails {depth offset next body store last fault} :
      store.functions.get? store.value = some body → depth < depthLimit →
      Means mode (depth + 1) (.statements body) (store.count 1) last (some fault) →
      Means mode depth (.statements (.call offset next)) store last (some fault)
  | callsNothing {depth offset next store} : store.functions.get? store.value = none →
      Means mode depth (.statements (.call offset next)) store store
        (some (.undefinedFunction store.value))
  | callsTooDeep {depth offset next body store} : store.functions.get? store.value = some body →
      ¬ depth < depthLimit →
      Means mode depth (.statements (.call offset next)) store store (some .depthLimit)
  | lastRound {depth body store left} : Means mode depth (.statements body) store left none →
      left.value = 0 → Means mode depth (.rounds body) store (left.count 1) none
  | nextRound {depth body store left last fault?} :
      Means mode depth (.statements body) store left none → left.value ≠ 0 →
      Means mode depth (.rounds body) (left.count 1) last fault? →
      Means mode depth (.rounds body) store last fault?
  | roundFails {depth body store last fault} :
      Means mode depth (.statements body) store last (some fault) →
      Means mode depth (.rounds body) store last (some fault)

/-- The innermost level at the end of its statements. -/
def Stack.exhaust (stack : Stack) : Stack :=
  stack.modify fun level => { level with rest := .done }

/-- The plain run from here comes to `exit` with this store, or to this fault. -/
def Leads (mode : CellMode) (store : Store) (stack : Stack) (last : Store) (fault? : Option Fault)
    (exit : Stack) : Prop :=
  match fault? with
  | none => ∃ count, (Progress.running ⟨store, stack, true⟩).after (.plain mode) count =
      .running ⟨last, exit, true⟩
  | some fault => ∃ count final, (Progress.running ⟨store, stack, true⟩).after (.plain mode) count =
      .halted last (.failed fault final)

namespace Leads

variable {mode : CellMode} {store changed last : Store} {stack moved exit between : Stack}
  {fault? : Option Fault} {fault : Fault}

theorem here : Leads mode store stack store none stack :=
  ⟨0, rfl⟩

/-- What follows a stretch of the run follows from its start as well. -/
theorem trans (first : Leads mode store stack changed none between)
    (onward : Leads mode changed between last fault? exit) :
    Leads mode store stack last fault? exit := by
  obtain ⟨count, reached⟩ := first
  cases fault? with
  | none =>
    obtain ⟨more, ended⟩ := onward
    exact ⟨count + more, by rw [Progress.after_add, reached, ended]⟩
  | some fault =>
    obtain ⟨more, final, ended⟩ := onward
    exact ⟨count + more, final, by rw [Progress.after_add, reached, ended]⟩

theorem of_step (step : Machine.step (.plain mode) false ⟨store, stack, true⟩ =
    .running ⟨changed, moved, true⟩) : Leads mode store stack changed none moved :=
  ⟨1, step⟩

theorem of_fail (step : Machine.step (.plain mode) false ⟨store, stack, true⟩ =
    .halted last (.failed fault exit)) : Leads mode store stack last (some fault) between :=
  ⟨1, exit, step⟩

/-- A fault leads nowhere, so any exit will do. -/
theorem fault_exit (failed : Leads mode store stack last (some fault) exit) (other : Stack) :
    Leads mode store stack last (some fault) other :=
  failed

end Leads

theorem Level.isOver_of_rest {level : Level} (more : level.rest ≠ .done) : level.isOver = false := by
  obtain ⟨body, rest, entry⟩ := level
  cases rest with
  | done => exact absurd rfl more
  | act _ _ _ | call _ _ | loop _ _ _ _ | define _ _ _ _ => rfl

namespace Machine

variable {mode : CellMode} {store : Store} {stack : Stack} {progress : Progress}

/-- A plain step at an operator is what the operator does. -/
theorem Executes.plain_step (move : (Machine.mk store stack true).Executes (.plain mode) false progress)
    (inside : stack.inner.isOver = false) :
    Machine.step (.plain mode) false ⟨store, stack, true⟩ = progress := by
  rw [step_of_execute inside fun _ => Rules.plain_pausesAt _ _]
  exact move.execute_eq

theorem Executes.plain_step_at (move : (Machine.mk store stack true).Executes (.plain mode) false progress)
    (more : stack.inner.rest ≠ .done) :
    Machine.step (.plain mode) false ⟨store, stack, true⟩ = progress :=
  move.plain_step (Level.isOver_of_rest more)

end Machine

section Levels

variable {mode : CellMode} {store : Store} {stack : Stack} {body : Block} {closes key : Nat}

/-- The end of a called body is left without an operator. -/
theorem Leads.leaveCall :
    Leads mode store (stack.push (.enter body (.call key))).exhaust store none
      (stack.modify Level.advance) :=
  .of_step (Machine.step_of_over rfl)

theorem Leads.endLoop (zero : store.value = 0) :
    Leads mode store (stack.push (.enter body (.loop closes))).exhaust (store.count 1) none
      (stack.modify Level.advance) :=
  .of_step ((Machine.Executes.endsLoop rfl zero).plain_step rfl)

theorem Leads.repeatLoop (nonzero : store.value ≠ 0) :
    Leads mode store (stack.push (.enter body (.loop closes))).exhaust (store.count 1) none
      (stack.push (.enter body (.loop closes))) :=
  .of_step ((Machine.Executes.repeatsLoop rfl nonzero).plain_step rfl)

end Levels

/-- The plain run does with a stack at this piece of a script what the piece is said
to do: the statements of the innermost level, or a loop just entered. -/
def Phrase.Leads (mode : CellMode) (depth : Nat) (store last : Store) (fault? : Option Fault) :
    Phrase → Prop
  | statements block => ∀ stack : Stack, stack.inner.rest = block → stack.depth = depth →
      TapeStepper.Leads mode store stack last fault? stack.exhaust
  | rounds body => ∀ (stack : Stack) (closes : Nat), stack.depth + 1 = depth →
      TapeStepper.Leads mode store (stack.push (.enter body (.loop closes))) last fault?
        (stack.modify Level.advance)

theorem Means.leads {mode : CellMode} {depth : Nat} {phrase : Phrase} {store last : Store}
    {fault? : Option Fault} (means : Means mode depth phrase store last fault?) :
    phrase.Leads mode depth store last fault? := by
  induction means with
  | done =>
    intro stack here _
    have same : stack.exhaust = stack := by
      unfold Stack.exhaust Stack.modify
      rw [← here]
    rw [same]
    exact .here
  | acts result _ ih =>
    intro stack here deep
    refine (Leads.of_step ((Machine.Executes.acts here result).plain_step_at (by simp [here]))).trans ?_
    exact ih (stack.modify Level.advance) (congrArg Block.tail here) deep
  | actFails result =>
    intro stack here _
    exact .of_fail ((Machine.Executes.actFails here result).plain_step_at (by simp [here]))
  | skips zero _ ih =>
    intro stack here deep
    refine (Leads.of_step ((Machine.Executes.skipsLoop here zero).plain_step_at (by simp [here]))).trans ?_
    exact ih (stack.modify Level.advance) (congrArg Block.tail here) deep
  | @loops _ _ _ closes _ _ _ _ _ nonzero _ _ ihRounds ihNext =>
    intro stack here deep
    refine (Leads.of_step ((Machine.Executes.entersLoop here nonzero
      (Rules.plain_skips _ _ _)).plain_step_at (by simp [here]))).trans ?_
    refine (ihRounds stack closes (congrArg (· + 1) deep)).trans ?_
    exact ihNext (stack.modify Level.advance) (congrArg Block.tail here) deep
  | @loopFails _ _ _ closes _ _ _ _ nonzero _ ih =>
    intro stack here deep
    refine (Leads.of_step ((Machine.Executes.entersLoop here nonzero
      (Rules.plain_skips _ _ _)).plain_step_at (by simp [here]))).trans ?_
    exact (ih stack closes (congrArg (· + 1) deep)).fault_exit _
  | defines result _ ih =>
    intro stack here deep
    refine (Leads.of_step ((Machine.Executes.defines here result).plain_step_at (by simp [here]))).trans ?_
    exact ih (stack.modify Level.advance) (congrArg Block.tail here) deep
  | defineFails result =>
    intro stack here _
    exact .of_fail ((Machine.Executes.defineFails here result).plain_step_at (by simp [here]))
  | calls bound room _ _ ihBody ihNext =>
    intro stack here deep
    subst deep
    refine (Leads.of_step ((Machine.Executes.calls here bound room).plain_step_at (by simp [here]))).trans ?_
    refine (ihBody (stack.push _) rfl rfl).trans (Leads.leaveCall.trans ?_)
    exact ihNext (stack.modify Level.advance) (congrArg Block.tail here) rfl
  | callFails bound room _ ih =>
    intro stack here deep
    subst deep
    refine (Leads.of_step ((Machine.Executes.calls here bound room).plain_step_at (by simp [here]))).trans ?_
    exact (ih (stack.push _) rfl rfl).fault_exit _
  | callsNothing unbound =>
    intro stack here _
    exact .of_fail ((Machine.Executes.callsNothing here unbound).plain_step_at (by simp [here]))
  | callsTooDeep bound full =>
    intro stack here deep
    subst deep
    exact .of_fail ((Machine.Executes.callsTooDeep here bound full).plain_step_at (by simp [here]))
  | lastRound _ zero ih =>
    intro stack closes deep
    exact (ih (stack.push _) rfl deep).trans (.endLoop zero)
  | nextRound _ nonzero _ ihBody ihRounds =>
    intro stack closes deep
    exact (ihBody (stack.push _) rfl deep).trans ((Leads.repeatLoop nonzero).trans
      (ihRounds stack closes deep))
  | roundFails _ ih =>
    intro stack closes deep
    exact (ih (stack.push _) rfl deep).fault_exit _

end TapeStepper
