import TapeStepper.Proofs.Chunks
import TapeStepper.Proofs.Cumulative
import TapeStepper.Proofs.Deadline

namespace TapeStepper

/-- The function is what stands between the `(` at `opens` and the next `)`: at least one operator, and
every loop is closed in it. -/
structure FunctionListing.IsWrittenAt (source : Text) (opens : Nat) (listing : FunctionListing) :
    Prop where
  spelled : ∃ front body closes rest,
    tokens source = front ++ ⟨opens, .functionStart⟩ :: (body ++ ⟨closes, .functionEnd⟩ :: rest) ∧
    (∀ token ∈ body, token.operator ≠ .functionEnd) ∧ body.head?.map Token.offset = some listing.offset ∧
    operators body = listing.body
  nonempty : listing.body ≠ []
  balanced : Balanced listing.body

/-- At the step `place` of a run the `(` at `opens` is run, and binds the function to the value of the
current cell, to which nothing was bound. -/
def FunctionListing.IsBoundAt (course : Nat → Progress) (place opens : Nat) (listing : FunctionListing) :
    Prop :=
  ∃ machine body, course place = .running machine ∧
    machine.stack.inner.current? = some ⟨opens, .functionStart⟩ ∧
    machine.store.value = listing.key ∧ machine.store.functions.get? listing.key = none ∧
    (course (place + 1)).store.functions.get? listing.key = some body ∧
    listing = .ofBody listing.key body

/-- What a result lists when a run of the script has come to the step `last`. Each function was bound at
an earlier step, and all that was bound at an earlier step is still listed. -/
structure Result.ListsBound (source : Text) (course : Nat → Progress) (last : Nat) (result : Result) :
    Prop where
  state : result.HasState (course last).store
  bound : ∀ listing ∈ result.functions, ∃ opens, listing.IsWrittenAt source opens ∧
    ∃ place < last, listing.IsBoundAt course place opens
  kept : ∀ place ≤ last, (course place).store.functions.listing.Sublist result.functions

/-- The functions that a result lists are in the order of their keys and no more than there may be, and
they are those of the script as it was run from the tape. A script that is not run has none. -/
structure Result.ListsDefinitions (mode : CellMode) (source input : Text) (tape : Tape) (result : Result) :
    Prop where
  ascending : result.functions.Pairwise fun first second => first.key < second.key
  few : result.functions.length ≤ functionLimit
  unread : ∀ rejection, readScript source = .error rejection → result.functions = []
  run : ∀ block, readScript source = .ok block →
    ∃ last, result.ListsBound source (plainRun mode block input tape) last

namespace FunctionTable

variable {Body : Type} {table defined : FunctionTable Body} {key : Nat} {body : Body}

/-- Keys ascend, and there are not too many. -/
structure InOrder (table : FunctionTable Body) : Prop where
  ascending : table.entries.Pairwise fun first second => first.1 < second.1
  few : table.entries.length ≤ functionLimit

theorem ne_key_of_unbound {entries : List (Nat × Body)} (unbound : bodyOf? key entries = none) :
    ∀ entry ∈ entries, entry.1 ≠ key := by
  induction entries with
  | nil => nofun
  | cons first rest ih =>
    have apart : key ≠ first.1 := by
      intro same
      simp [bodyOf?, same] at unbound
    rw [bodyOf?, if_neg apart] at unbound
    intro entry listed
    rcases List.mem_cons.mp listed with rfl | later
    · exact apart.symm
    · exact ih unbound entry later

theorem pairwise_insertEntry {entries : List (Nat × Body)}
    (ascending : entries.Pairwise fun first second => first.1 < second.1)
    (fresh : ∀ entry ∈ entries, entry.1 ≠ key) :
    (insertEntry key body entries).Pairwise fun first second => first.1 < second.1 := by
  induction entries with
  | nil => exact List.pairwise_singleton ..
  | cons first rest ih =>
    obtain ⟨behind, others⟩ := List.pairwise_cons.mp ascending
    unfold insertEntry
    split
    · rename_i before
      refine List.pairwise_cons.mpr ⟨fun entry listed => ?_, ascending⟩
      rcases List.mem_cons.mp listed with rfl | later
      · exact before
      · exact Nat.lt_trans before (behind entry later)
    · rename_i notBefore
      have apart := fresh first (List.mem_cons_self ..)
      refine List.pairwise_cons.mpr ⟨fun entry listed => ?_, ih others fun entry later => ?_⟩
      · rcases mem_insertEntry.mp listed with rfl | later
        · exact Nat.lt_of_le_of_ne (Nat.le_of_not_lt notBefore) apart
        · exact behind entry later
      · exact fresh entry (List.mem_cons_of_mem _ later)

theorem InOrder.define (inOrder : table.InOrder) (step : table.define key body = .ok defined) :
    defined.InOrder := by
  obtain ⟨unbound, room, rfl⟩ := define_ok_iff.mp step
  refine ⟨pairwise_insertEntry inOrder.ascending (ne_key_of_unbound unbound), ?_⟩
  rw [length_insertEntry]
  exact room

theorem InOrder.ascending_listing {functions : FunctionTable Block} (inOrder : functions.InOrder) :
    functions.listing.Pairwise fun first second => first.key < second.key :=
  List.pairwise_map.mpr inOrder.ascending

end FunctionTable

/-- A definition stands in the level with both its parentheses. -/
theorem Level.infix_of_definition {level : Level} {opens closes : Nat} {body next : Block}
    (place : level.InPlace) (here : level.rest = .define opens body closes next) :
    ⟨opens, .functionStart⟩ :: (body.tokens ++ [⟨closes, .functionEnd⟩]) <:+: level.tokens := by
  refine ⟨level.passed, level.advance.remaining, ?_⟩
  rw [← passed_append_remaining place, level.remaining_eq, here]
  simp [Block.takeTokens, Block.tokensOnto_eq]

theorem Block.functionEnd_notMem {block : Block} (plain : block.isPlain = true) :
    ∀ token ∈ block.tokens, token.operator ≠ .functionEnd := by
  intro token listed same
  have inside := (isBody_of_isPlain plain).functionEnd_notMem
  exact inside (same ▸ List.mem_map_of_mem listed)

/-- Where the plain run stands when a run has come this far. The clock stops a run in a state that the
plain run goes on from. -/
def Progress.IsAt (reached : Progress) : Progress → Prop
  | running machine => reached = .running machine.arm
  | halted store (.overran _) => reached.store = store
  | halted store outcome => reached = outcome.progress store

theorem Progress.store_arm (progress : Progress) : progress.arm.store = progress.store := by
  cases progress <;> rfl

theorem Progress.isAt_arm {progress : Progress}
    (unpaused : ∀ store stack, progress ≠ .halted store (.paused stack)) :
    progress.arm.IsAt progress := by
  cases progress with
  | running machine => rfl
  | halted store outcome =>
    cases outcome with
    | paused stack => exact absurd rfl (unpaused store stack)
    | finished | failed _ _ | overran _ => rfl

theorem Progress.IsAt.store_eq {reached : Progress} {store : Store} {outcome : Outcome}
    (isAt : reached.IsAt (.halted store outcome)) : reached.store = store := by
  cases outcome with
  | overran stack => exact isAt
  | finished | paused _ | failed _ _ =>
    rw [show reached = _ from isAt]
    rfl

namespace Machine

variable {rules : Rules} {machine : Machine}

/-- Whatever the clock says, a step makes the same of the store. -/
theorem store_step_late (rules : Rules) (late : Bool) (machine : Machine) :
    (machine.step rules late).store = (machine.step rules false).store := by
  rcases machine.step_late_cases rules late with same | ⟨store, stack, overran⟩
  · rw [same]
  · obtain ⟨runs, arrives, _⟩ := arrives_of_overran overran
    obtain ⟨_, _, step⟩ := arrives.exists_step runs
    rw [step, step, store_arrive, store_arrive]

theorem step_ne_paused (free : machine.armed = true → ¬ machine.Meets rules.breakpoints) (late : Bool)
    (store : Store) (stack : Stack) : machine.step rules late ≠ .halted store (.paused stack) := by
  intro pauses
  obtain ⟨_, _, armed, meets⟩ := of_step_paused pauses
  exact free armed meets

/-- A machine that does not pause takes the plain run along. -/
theorem exists_isAt_step {origin : Progress} {place : Nat}
    (stands : origin.after (.plain rules.mode) place = .running machine.arm) (late : Bool)
    (free : machine.armed = true → ¬ machine.Meets rules.breakpoints) :
    ∃ later, (origin.after (.plain rules.mode) later).IsAt (machine.step rules late) := by
  obtain ⟨later, _, reached, _⟩ := step_on stands free
  refine ⟨later, ?_⟩
  rw [reached]
  rcases machine.step_late_cases rules late with same | ⟨last, stack, overran⟩
  · rw [same]
    exact Progress.isAt_arm (step_ne_paused free false)
  · have store := store_step_late rules late machine
    rw [overran] at store ⊢
    exact (Progress.store_arm _).trans store.symm

end Machine

/-- Every state that a script comes to is one of its plain run. -/
theorem Attains.exists_place {mode : CellMode} {block : Block} {input : Text} {tape : Tape}
    {progress : Progress} (attained : Attains mode block input tape progress) :
    ∃ place, (plainRun mode block input tape place).IsAt progress := by
  induction attained with
  | launch => exact ⟨0, rfl⟩
  | @enter machine late _ ih =>
    obtain ⟨place, stands⟩ := ih
    refine ⟨place, ?_⟩
    unfold Machine.enter
    split
    · rw [show plainRun mode block input tape place = _ from stands]
      rfl
    · exact stands
  | @step machine rules late _ same ih =>
    subst same
    obtain ⟨place, stands⟩ := ih
    by_cases pauses : machine.armed = true ∧ machine.Meets rules.breakpoints
    · obtain ⟨armed, inside, marked⟩ := pauses
      rw [Machine.step_of_pause inside armed marked]
      exact ⟨place, stands⟩
    · exact Machine.exists_isAt_step stands late fun armed meets => pauses ⟨armed, meets⟩
  | again _ ih => exact ih

section Course

variable {mode : CellMode} {block : Block} {input : Text} {tape : Tape}

/-- What a step of the plain run does to the store, if it has not ended. -/
theorem plainRun_succ_cases (mode : CellMode) (block : Block) (input : Text) (tape : Tape) (place : Nat) :
    (∃ machine, plainRun mode block input tape place = .running machine ∧
      machine.Stores (.plain mode) (plainRun mode block input tape (place + 1)).store) ∨
    plainRun mode block input tape (place + 1) = plainRun mode block input tape place := by
  have next : plainRun mode block input tape (place + 1) =
      (plainRun mode block input tape place).next (.plain mode) := Progress.after_succ_last place
  rw [next]
  cases plainRun mode block input tape place with
  | running machine => exact .inl ⟨machine, rfl, machine.stores_step (.plain mode) false⟩
  | halted store outcome => exact .inr rfl

/-- A function in the table was there one step earlier, or else this step defines it. -/
theorem mem_entries_succ {last : Nat} {entry : Nat × Block}
    (listed : entry ∈ (plainRun mode block input tape (last + 1)).store.functions.entries) :
    entry ∈ (plainRun mode block input tape last).store.functions.entries ∨
    ∃ machine opens closes next, plainRun mode block input tape last = .running machine ∧
      machine.stack.inner.rest = .define opens entry.2 closes next ∧ machine.store.value = entry.1 ∧
      machine.store.functions.define entry.1 entry.2 =
        .ok (plainRun mode block input tape (last + 1)).store.functions := by
  rcases plainRun_succ_cases mode block input tape last with ⟨machine, stands, stores⟩ | same
  · rw [stands]
    rcases stores.functions_cases with same | ⟨opens, body, closes, next, here, result⟩
    · exact .inl (same ▸ listed)
    · obtain ⟨_, _, defined⟩ := FunctionTable.define_ok_iff.mp result
      rw [defined] at listed
      rcases FunctionTable.mem_insertEntry.mp listed with rfl | old
      · exact .inr ⟨machine, opens, closes, next, rfl, here, rfl, result⟩
      · exact .inl old
  · exact .inl (same ▸ listed)

/-- A function in the table was bound at an earlier step, by a definition with its body. -/
theorem exists_binding {last : Nat} {entry : Nat × Block}
    (listed : entry ∈ (plainRun mode block input tape last).store.functions.entries) :
    ∃ place < last, ∃ machine opens closes next,
      plainRun mode block input tape place = .running machine ∧
      machine.stack.inner.rest = .define opens entry.2 closes next ∧ machine.store.value = entry.1 ∧
      machine.store.functions.define entry.1 entry.2 =
        .ok (plainRun mode block input tape (place + 1)).store.functions := by
  induction last with
  | zero => cases listed
  | succ last ih =>
    rcases mem_entries_succ listed with earlier | bound
    · obtain ⟨place, before, bound⟩ := ih earlier
      exact ⟨place, Nat.lt_succ_of_lt before, bound⟩
    · exact ⟨last, Nat.lt_succ_self last, bound⟩

theorem extends_plainRun {place last : Nat} (ordered : place ≤ last) :
    (plainRun mode block input tape place).store.Extends
      (plainRun mode block input tape last).store := by
  induction last, ordered using Nat.le_induction with
  | base => exact .refl _
  | succ last _ ih =>
    refine ih.trans ?_
    rcases plainRun_succ_cases mode block input tape last with ⟨machine, stands, stores⟩ | same
    · rw [stands]
      exact stores.grows
    · rw [same]
      exact .refl _

theorem Attains.inOrder {progress : Progress} (attained : Attains mode block input tape progress)
    (whole : block.Tidy) : progress.store.functions.InOrder := by
  have start : (Store.start tape input).functions.InOrder := ⟨.nil, Nat.zero_le _⟩
  refine attained.store (motive := fun store => store.functions.InOrder) whole start ?_
  intro machine rules after _ _ stores inOrder
  rcases stores.functions_cases with same | ⟨_, _, _, _, _, result⟩
  · rw [same]
    exact inOrder
  · exact inOrder.define result

/-- What a level is about to define is written in the script. -/
theorem Attains.isWrittenAt {source : Text} {machine : Machine}
    (attained : Attains mode block input tape (.running machine)) (accepted : readScript source = .ok block)
    {opens closes : Nat} {body next : Block}
    (here : machine.stack.inner.rest = .define opens body closes next) (key : Nat) :
    (FunctionListing.ofBody key body).IsWrittenAt source opens := by
  have whole := tidy_of_readScript accepted
  have sound := attained.sound whole
  have stands : machine.stack.Stands block machine.store.functions := sound.stands
  have tidy := (stands.tidy whole sound.plain).2
  rw [here] at tidy
  obtain ⟨plain, nonempty, _⟩ := tidy
  have code := Block.tokens_ne_nil nonempty
  have level := stands.infix (attained.drawn whole) machine.stack.inner (List.mem_cons_self ..)
  obtain ⟨front, rest, split⟩ := (Level.infix_of_definition stands.inPlace here).trans level
  rw [(readScript_eq_ok_iff.mp accepted).2.2] at split
  refine ⟨⟨front, body.tokens, closes, rest, ?_, Block.functionEnd_notMem plain, ?_, rfl⟩, ?_, body.balanced⟩
  · rw [← split]
    simp
  · obtain ⟨first, others, spelled⟩ := List.exists_cons_of_ne_nil code
    have begins : body.first? = some first := by rw [← Block.head?_tokens, spelled, List.head?_cons]
    simp [FunctionListing.ofBody, begins, spelled]
  · exact fun nothing => code (List.map_eq_nil_iff.mp nothing)

/-- A result with the store of the plain run lists what has been bound on the way. -/
theorem listsBound_of_hasState {source : Text} (accepted : readScript source = .ok block) {last : Nat}
    {result : Result} (state : result.HasState (plainRun mode block input tape last).store) :
    result.ListsBound source (plainRun mode block input tape) last := by
  refine ⟨state, fun listing listed => ?_, fun place ordered => ?_⟩
  · rw [state.functions] at listed
    obtain ⟨⟨key, body⟩, member, rfl⟩ := List.mem_map.mp listed
    obtain ⟨place, before, machine, opens, closes, next, stands, here, value, result⟩ :=
      exists_binding member
    have attained := attains_plainRun mode block input tape place
    rw [stands] at attained
    refine ⟨opens, attained.isWrittenAt accepted here key, place, before, machine, body, stands, ?_, value,
      (FunctionTable.define_ok_iff.mp result).1, ?_, rfl⟩
    · exact Level.current?_of_rest here rfl
    · rw [FunctionTable.get?_define result]
      exact if_pos rfl
  · rw [state.functions]
    exact (extends_plainRun ordered).functions.map _

end Course

section Results

variable {config : Config} {input : Text}

theorem Attains.listsDefinitions {mode : CellMode} {block : Block} {source : Text} {tape : Tape}
    {store : Store} {outcome : Outcome}
    (attained : Attains mode block input tape (.halted store outcome))
    (accepted : readScript source = .ok block) (elapsed : Nat) :
    (Result.ofOutcome block elapsed store outcome).ListsDefinitions mode source input tape := by
  have inOrder : store.functions.InOrder := attained.inOrder (tidy_of_readScript accepted)
  refine ⟨inOrder.ascending_listing, ?_, ?_, ?_⟩
  · exact (List.length_map _).trans_le inOrder.few
  · intro rejection refused
    cases refused.symm.trans accepted
  · intro other again
    obtain rfl := Except.ok.inj (accepted.symm.trans again)
    obtain ⟨last, isAt⟩ := attained.exists_place
    refine ⟨last, listsBound_of_hasState accepted ?_⟩
    rw [isAt.store_eq]
    exact ⟨rfl, rfl, rfl, rfl⟩

theorem Rejection.listsDefinitions {rejection : Rejection} {source : Text}
    (refused : readScript source = .error rejection) (mode : CellMode) (tape begun : Tape) :
    (rejection.result source tape).ListsDefinitions mode source input begun := by
  have none : (rejection.result source tape).functions = [] := by cases rejection <;> rfl
  refine ⟨none ▸ .nil, none ▸ Nat.zero_le _, fun _ _ => none, fun block accepted => ?_⟩
  cases refused.symm.trans accepted

theorem listsDefinitions_of_runOn {source : Text} {tape : Tape} {fuel : Nat} {watch : Stopwatch}
    {result : Result} (ran : runOn fuel watch config source input tape = some result) :
    result.ListsDefinitions config.mode source input tape := by
  cases accepted : readScript source with
  | error rejection =>
    simp only [runOn, accepted, Option.some.injEq] at ran
    exact ran ▸ Rejection.listsDefinitions accepted config.mode tape tape
  | ok block =>
    obtain ⟨elapsed, store, outcome, rfl, attained⟩ := runOn_attains accepted ran
    exact attained.listsDefinitions accepted elapsed

theorem Session.Reached.listsDefinitions {chunks : List Text} {requests : List Session.Request}
    {session : Session} (reached : Reached config chunks input requests session) :
    session.result.ListsDefinitions config.mode chunks.flatten input (.blank config.tapeSize) := by
  cases accepted : readScript chunks.flatten with
  | error rejection =>
    rw [(reached.of_rejected reached.valid accepted).2.2]
    exact Rejection.listsDefinitions accepted config.mode _ _
  | ok block =>
    obtain ⟨elapsed, store, outcome, rfl, attained⟩ := reached.attains accepted
    exact attained.listsDefinitions accepted elapsed

end Results

/-- The table of functions only ever holds definitions of the script. Every result of a run or a session,
whatever the clock says, lists functions under ascending keys, at most so many; each is written in the
script behind a `(` that was run when the current cell had the key as its value, and what was bound once
stays as it is, in the run and in all later requests. -/
theorem functions_are_definitions_of_the_script (config : Config) (input : Text) :
    (∀ source fuel watch result, run fuel watch config source input = .ok (some result) →
      result.ListsDefinitions config.mode source input (.blank config.tapeSize)) ∧
    (∀ source tape fuel watch result,
      runWithTape fuel watch config source input tape = .ok (some result) →
      result.ListsDefinitions config.mode source input (config.mode.adapt tape)) ∧
    ∀ chunks requests session, Session.Reached config chunks input requests session →
      session.result.ListsDefinitions config.mode chunks.flatten input (.blank config.tapeSize) ∧
      ∀ request fuel watch next, session.serve request fuel watch = .ok (some next) →
        session.result.functions.Sublist next.result.functions := by
  refine ⟨?_, ?_, ?_⟩
  · intro source fuel watch result ran
    exact listsDefinitions_of_runOn (runOn_of_run ran).2
  · intro source tape fuel watch result ran
    exact listsDefinitions_of_runOn (runOn_of_runWithTape ran)
  · intro chunks requests session reached
    refine ⟨reached.listsDefinitions, fun request fuel watch next served => ?_⟩
    exact (reached.continues served).result.functions

/-- One body bound to two keys in a loop, and another behind a pause; the last definition fails, since its
key is bound. -/
theorem functions_are_definitions_of_the_script_with_a_duplicate :
    ∃ session next, Session.Reached ⟨.short, 1, none⟩ ["++[(.)-]".toList, "(+)(-)".toList] [] [] session ∧
      session.serve .resume 20 (fun _ => 0) = .ok (some next) ∧
      next.result.exitCode.has .duplicateFunctionDefinition = true ∧
      next.result.functions.map FunctionListing.key = [0, 1, 2] ∧
      session.result.functions.Sublist next.result.functions ∧
      next.result.ListsDefinitions .short "++[(.)-](+)(-)".toList [] (.blank 1) := by
  have lists := (functions_are_definitions_of_the_script ⟨.short, 1, none⟩ []).2.2
    ["++[(.)-]".toList, "(+)(-)".toList]
  have first := @Session.Reached.start ⟨.short, 1, none⟩ ["++[(.)-]".toList, "(+)(-)".toList] [] 20
    (fun _ => 0) _ rfl
  have second := @Session.Reached.serve _ _ _ _ .resume 20 (fun _ => 0) _ _ first rfl
  exact ⟨_, _, first, rfl, rfl, rfl, (lists _ _ first).2 .resume 20 (fun _ => 0) _ rfl,
    (lists _ _ second).1⟩

end TapeStepper
