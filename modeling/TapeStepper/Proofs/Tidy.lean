import TapeStepper.Proofs.Nesting
import TapeStepper.Proofs.Reading

namespace TapeStepper

namespace Block

/-- No function is defined anywhere in the block. -/
def isPlain : Block → Bool
  | done => true
  | act _ _ next | call _ next => next.isPlain
  | loop _ body _ next => body.isPlain && next.isPlain
  | define _ _ _ _ => false

/-- Functions are defined outside functions only, and their bodies are not empty. -/
def Tidy : Block → Prop
  | done => True
  | act _ _ next | call _ next => next.Tidy
  | loop _ body _ next => body.Tidy ∧ next.Tidy
  | define _ body _ next => body.isPlain = true ∧ body ≠ done ∧ next.Tidy

theorem tidy_of_isPlain {block : Block} (plain : block.isPlain = true) : block.Tidy := by
  induction block with
  | done => trivial
  | act offset action next ih => exact ih plain
  | call offset next ih => exact ih plain
  | loop opens body closes next ihBody ihNext =>
    obtain ⟨inside, behind⟩ := Bool.and_eq_true_iff.mp plain
    exact ⟨ihBody inside, ihNext behind⟩
  | define opens body closes next => cases plain

theorem Tidy.tail {block : Block} (tidy : block.Tidy) : block.tail.Tidy := by
  cases block with
  | done => trivial
  | act _ _ _ | call _ _ => exact tidy
  | loop _ _ _ _ => exact tidy.2
  | define _ _ _ _ => exact tidy.2.2

end Block

/-- What has been read inside a function defines no other, and no function is inside another. -/
inductive Assembly.Ordered : Assembly → Prop
  | outermost {block} : block.Tidy → Ordered ⟨block, []⟩
  | inside {block closer closers} : block.Tidy →
      ((⟨block, closer :: closers⟩ : Assembly).inFunction = true → block.isPlain = true) →
      (closer.token.operator = .functionEnd →
        (⟨closer.next, closers⟩ : Assembly).inFunction = false) →
      Ordered ⟨closer.next, closers⟩ → Ordered ⟨block, closer :: closers⟩

namespace Assembly

theorem Ordered.tidy {block : Block} {closers : List Closer} (ordered : Ordered ⟨block, closers⟩) :
    block.Tidy := by
  cases ordered with
  | outermost tidy => exact tidy
  | inside tidy _ _ _ => exact tidy

theorem Ordered.plain {block : Block} {closers : List Closer} (ordered : Ordered ⟨block, closers⟩)
    (within : (⟨block, closers⟩ : Assembly).inFunction = true) : block.isPlain = true := by
  cases ordered with
  | outermost tidy => cases within
  | inside _ plain _ _ => exact plain within

/-- Other statements may stand in the place of those read last. -/
theorem Ordered.replace {block other : Block} {closers : List Closer}
    (ordered : Ordered ⟨block, closers⟩) (tidy : other.Tidy)
    (plain : (⟨block, closers⟩ : Assembly).inFunction = true → other.isPlain = true) :
    Ordered ⟨other, closers⟩ := by
  cases ordered with
  | outermost _ => exact .outermost tidy
  | inside _ _ single around => exact .inside tidy plain single around

theorem Ordered.add? {token : Token} {assembly longer : Assembly} (ordered : assembly.Ordered)
    (step : assembly.add? token = some longer) : longer.Ordered := by
  obtain ⟨block, closers⟩ := assembly
  unfold Assembly.add? at step
  split at step
  · cases step
    exact ordered.replace ordered.tidy ordered.plain
  · cases step
    exact ordered.replace ordered.tidy ordered.plain
  · rename_i loopEnd
    cases step
    exact .inside trivial (fun _ => rfl) (fun closes => by rw [loopEnd] at closes; cases closes)
      ordered
  · split at step
    · cases step
    · rename_i outside
      cases step
      exact .inside trivial (fun _ => rfl) (fun _ => eq_false_of_ne_true outside) ordered
  · split at step
    · rename_i waiting
      cases step
      cases waiting
      cases ordered with
      | inside tidy plain single around =>
        refine around.replace ⟨tidy, around.tidy⟩ ?_
        intro within
        have inBody := plain (by simpa [inFunction] using within)
        exact Bool.and_eq_true_iff.mpr ⟨inBody, around.plain within⟩
    · cases step
  · split at step
    · cases step
    · rename_i closes next rest waiting nonempty
      cases step
      simp only at waiting
      subst waiting
      cases ordered with
      | inside tidy plain single around =>
        refine around.replace ⟨plain rfl, nonempty, around.tidy⟩ ?_
        intro within
        have outside := single rfl
        exact absurd (within.symm.trans outside) Bool.noConfusion
    · cases step

theorem ordered_ofTokens? {given : List Token} {assembly : Assembly}
    (read : ofTokens? given = some assembly) : assembly.Ordered := by
  induction given generalizing assembly with
  | nil =>
    cases read
    exact .outermost trivial
  | cons token rest ih =>
    obtain ⟨shorter, before, step⟩ := Option.bind_eq_some_iff.mp read
    exact (ih before).add? step

end Assembly

theorem Block.tidy_of_ofTokens? {given : List Token} {block : Block}
    (found : Block.ofTokens? given = some block) : block.Tidy := by
  unfold Block.ofTokens? at found
  split at found
  · rename_i assembled
    cases found
    exact (Assembly.ordered_ofTokens? assembled).tidy
  · cases found

theorem tidy_of_parse {source : Text} {block : Block} (parsed : parse source = .ok block) :
    block.Tidy := by
  obtain ⟨sound, spelled⟩ := parse_eq_ok_iff.mp parsed
  obtain ⟨read, found⟩ := Block.exists_ofTokens?_of_bracketFault? sound
  obtain rfl := Block.tokens_injective ((Block.tokens_ofTokens? found).trans spelled.symm)
  exact Block.tidy_of_ofTokens? found

theorem tidy_of_readScript {source : Text} {block : Block} (accepted : readScript source = .ok block) :
    block.Tidy :=
  tidy_of_parse (parse_eq_ok_iff.mpr (readScript_eq_ok_iff.mp accepted).2)

/-- No function in the table defines another. -/
def FunctionTable.Plain (functions : FunctionTable Block) : Prop :=
  ∀ key body, functions.get? key = some body → body.isPlain = true

theorem FunctionTable.Plain.define {functions defined : FunctionTable Block} {key : Nat}
    {body : Block} (plain : functions.Plain) (inside : body.isPlain = true)
    (step : functions.define key body = .ok defined) : defined.Plain :=
  forall_define plain inside step

/-- Whatever a level runs is a part of the script or of a function. -/
theorem Stack.Stands.tidy {block : Block} {functions : FunctionTable Block} {stack : Stack}
    (stands : stack.Stands block functions) (whole : block.Tidy) (plain : functions.Plain) :
    stack.inner.body.Tidy ∧ stack.inner.rest.Tidy :=
  stands.part Block.Tidy whole (fun key body bound => Block.tidy_of_isPlain (plain key body bound))
    (fun _ tidy => tidy.tail) (fun _ _ _ _ tidy => tidy.1)

namespace Progress

def store : Progress → Store
  | running machine => machine.store
  | halted store _ => store

/-- The levels of a run that has stopped at an operator. -/
def stoppedAt? : Progress → Option Stack
  | halted _ (.paused stack) | halted _ (.failed _ stack) => some stack
  | running _ | halted _ .finished | halted _ (.overran _) => none

/-- What every run of a tidy block keeps: the levels are in order, the functions define no others,
and there is an operator where the run has stopped. -/
structure Sound (block : Block) (progress : Progress) : Prop where
  stands : progress.Stands block
  plain : progress.store.functions.Plain
  inside : ∀ stack, progress.stoppedAt? = some stack → stack.inner.isOver = false

end Progress

namespace Machine

variable {block : Block} {rules : Rules} {late : Bool} {machine : Machine} {progress : Progress}

theorem store_arrive (store : Store) (stack : Stack) : (arrive late store stack).store = store := by
  cases late <;> rfl

theorem store_leave (store : Store) (armed : Bool) : (machine.leave store armed).store = store := by
  unfold leave
  split <;> rfl

theorem Executes.plain (move : machine.Executes rules late progress) (whole : block.Tidy)
    (stands : machine.stack.Stands block machine.store.functions)
    (plain : machine.store.functions.Plain) : progress.store.functions.Plain := by
  cases move with
  | acts here result =>
    have same := Store.functions_perform result
    rw [← same] at plain
    exact plain
  | defines here result =>
    have tidy := (stands.tidy whole plain).2
    rw [here] at tidy
    exact plain.define tidy.1 result
  | entersLoop _ _ _ | calls _ _ _ | repeatsLoop _ _ =>
    rw [store_arrive]
    exact plain
  | endsLoop _ _ =>
    rw [store_leave]
    exact plain
  | skipsLoop _ _ | resetsCell _ _ _ => exact plain
  | actFails _ _ | defineFails _ _ | callsNothing _ _ | callsTooDeep _ _ _ => exact plain

theorem stoppedAt?_leave (store : Store) (armed : Bool) :
    (machine.leave store armed).stoppedAt? = none := by
  unfold leave
  split <;> rfl

theorem stoppedAt?_arrive (store : Store) (stack : Stack) :
    (arrive late store stack).stoppedAt? = none := by
  cases late <;> rfl

theorem Executes.stoppedAt (move : machine.Executes rules late progress) {stack : Stack}
    (stopped : progress.stoppedAt? = some stack) : stack = machine.stack := by
  cases move with
  | entersLoop _ _ _ | calls _ _ _ | repeatsLoop _ _ =>
    rw [stoppedAt?_arrive] at stopped
    cases stopped
  | endsLoop _ _ =>
    rw [stoppedAt?_leave] at stopped
    cases stopped
  | acts _ _ | skipsLoop _ _ | resetsCell _ _ _ | defines _ _ => cases stopped
  | actFails _ _ | defineFails _ _ | callsNothing _ _ | callsTooDeep _ _ _ =>
    cases stopped
    rfl

theorem sound_step (whole : block.Tidy) (sound : (Progress.running machine).Sound block) :
    (machine.step rules late).Sound block := by
  obtain ⟨stands, plain, _⟩ := sound
  refine ⟨stands_step stands, ?_, ?_⟩
  · obtain ⟨_, step⟩ | ⟨_, _, _, step⟩ | ⟨_, _, step⟩ := step_cases rules late machine
    · rw [step, store_leave]
      exact plain
    · rw [step]
      exact plain
    · rw [step]
      exact (executes rules late machine).plain whole stands plain
  · intro stack stopped
    obtain ⟨_, step⟩ | ⟨inside, _, _, step⟩ | ⟨inside, _, step⟩ := step_cases rules late machine
    · rw [step, stoppedAt?_leave] at stopped
      cases stopped
    · rw [step] at stopped
      cases stopped
      exact inside
    · rw [step] at stopped
      rw [(executes rules late machine).stoppedAt stopped]
      exact inside

end Machine

end TapeStepper
