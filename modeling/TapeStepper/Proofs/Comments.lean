import TapeStepper.Proofs.Grammar
import TapeStepper.Proofs.Relocation
import TapeStepper.Proofs.Traces

namespace TapeStepper

theorem Operator.symbol_injective : Function.Injective Operator.symbol := by
  intro first second same
  have read := congrArg ofChar? same
  rwa [ofChar?_symbol, ofChar?_symbol, Option.some.injEq] at read

theorem operators_eq_of_text {first second : List Token}
    (same : Operator.text (operators first) = Operator.text (operators second)) :
    operators first = operators second :=
  List.map_injective_iff.mpr Operator.symbol_injective same

/-- Tokens with the same operators are one row of tokens and the same row moved. -/
theorem exists_relocation {first second : List Token} (increasing : Increasing first)
    (same : operators first = operators second) :
    ∃ move, second = first.map (Token.relocate move) := by
  induction first generalizing second with
  | nil => exact ⟨id, List.map_eq_nil_iff.mp same.symm⟩
  | cons token rest ih =>
    obtain ⟨mate, others, rfl, sameOperator, sameRest⟩ := List.map_eq_cons_iff.mp same.symm
    obtain ⟨behind, increasingRest⟩ := List.pairwise_cons.mp increasing
    obtain ⟨move, rfl⟩ := ih increasingRest sameRest.symm
    -- The offsets behind the first token are other ones, so its place can be chosen freely.
    refine ⟨fun offset => if offset = token.offset then mate.offset else move offset, ?_⟩
    rw [List.map_cons]
    congr 1
    · simp [Token.relocate, ← sameOperator]
    · refine List.map_congr_left fun later listed => ?_
      have apart : later.offset ≠ token.offset := Nat.ne_of_gt (behind later listed)
      simp [Token.relocate, apart]

/-- The tokens of two scripts at these offsets have the same index. -/
def SameIndex (source other : Text) (offset place : Nat) : Prop :=
  ∃ index : Nat, (tokens source)[index]?.map Token.offset = some offset ∧
    (tokens other)[index]?.map Token.offset = some place

/-- Results of two scripts that tell the same and name tokens of the same index. -/
structure Result.Parallels (source other : Text) (first second : Result) : Prop where
  exitCode : second.exitCode = first.exitCode
  tape : second.tape = first.tape
  output : second.output = first.output
  operators : second.source = first.source
  operations : second.operations = first.operations
  breakpoint : second.breakpoint = first.breakpoint
  frames : second.trace.map Trace.frames = first.trace.map Trace.frames
  place : ∀ trace ∈ first.trace, ∀ moved ∈ second.trace, SameIndex source other trace.offset moved.offset
  functions : second.functions.map (fun listing => (listing.key, listing.body)) =
    first.functions.map fun listing => (listing.key, listing.body)
  starts : List.Forall₂ (fun listing moved => SameIndex source other listing.offset moved.offset)
    first.functions second.functions

/-- Two runs that both end or both do not, with results that run in parallel. -/
inductive EndsAlike (source other : Text) :
    Except ConfigError (Option Result) → Except ConfigError (Option Result) → Prop
  | invalid (error : ConfigError) : EndsAlike source other (.error error) (.error error)
  | unfinished : EndsAlike source other (.ok none) (.ok none)
  | finished {first second} : first.Parallels source other second →
      EndsAlike source other (.ok (some first)) (.ok (some second))

/-- Every function is a piece of the script with an operator in it, and defines no other. -/
def FunctionTable.Rooted (source : List Token) (functions : FunctionTable Block) : Prop :=
  ∀ entry ∈ functions.entries, entry.2.isPlain = true ∧ entry.2 ≠ .done ∧ entry.2.tokens <:+: source

namespace FunctionTable.Rooted

variable {source : List Token} {functions : FunctionTable Block}

theorem plain (rooted : functions.Rooted source) : functions.Plain :=
  fun _ _ bound => (rooted _ (mem_of_get? bound)).1

theorem drawnFrom (rooted : functions.Rooted source) : functions.DrawnFrom source :=
  fun _ _ bound => (rooted _ (mem_of_get? bound)).2.2

theorem exists_first (rooted : functions.Rooted source) {entry : Nat × Block}
    (listed : entry ∈ functions.entries) : ∃ token ∈ source, entry.2.first? = some token := by
  obtain ⟨_, nonempty, piece⟩ := rooted entry listed
  cases first : entry.2.first? with
  | none =>
    rw [← Block.head?_tokens, List.head?_eq_none_iff] at first
    exact absurd first (Block.tokens_ne_nil nonempty)
  | some token =>
    refine ⟨token, piece.subset (List.mem_of_mem_head? ?_), rfl⟩
    rw [Block.head?_tokens, first]
    rfl

end FunctionTable.Rooted

theorem Machine.Stores.rooted {rules : Rules} {machine : Machine} {after : Store} {block : Block}
    (stores : machine.Stores rules after) (whole : block.Tidy)
    (stands : machine.stack.Stands block machine.store.functions)
    (rooted : machine.store.functions.Rooted block.tokens) : after.functions.Rooted block.tokens := by
  rcases stores.functions_cases with same | ⟨_, _, _, _, here, result⟩
  · rw [same]
    exact rooted
  · obtain ⟨_, _, defined⟩ := FunctionTable.define_ok_iff.mp result
    rw [defined]
    intro entry listed
    rcases FunctionTable.mem_insertEntry.mp listed with rfl | old
    · have tidy := (stands.tidy whole rooted.plain).2
      rw [here] at tidy
      have inner := stands.infix rooted.drawnFrom machine.stack.inner (List.mem_cons_self ..)
      exact ⟨tidy.1, tidy.2.1, (Level.infix_of_define stands.inPlace here).trans inner⟩
    · exact rooted entry old

theorem Attains.rooted {mode : CellMode} {block : Block} {input : Text} {tape : Tape}
    {progress : Progress} (attained : Attains mode block input tape progress) (whole : block.Tidy) :
    progress.store.functions.Rooted block.tokens :=
  attained.store (motive := fun store => store.functions.Rooted block.tokens) whole nofun
    fun _ _ _ _ stands stores rooted => stores.rooted whole stands rooted

section Moved

variable {move : Nat → Nat} {source other : Text} {block : Block} {store : Store} {outcome : Outcome}

theorem sameIndex_of_mem (moved : tokens other = (tokens source).map (Token.relocate move))
    {token : Token} (listed : token ∈ tokens source) :
    SameIndex source other token.offset (move token.offset) := by
  obtain ⟨index, found⟩ := List.mem_iff_getElem?.mp listed
  refine ⟨index, by rw [found]; rfl, ?_⟩
  rw [moved, List.getElem?_map, found]
  rfl

theorem FunctionTable.bodies_relocate (functions : FunctionTable Block) :
    ((functions.mapBodies (Block.relocate move)).listing.map fun listing => (listing.key, listing.body)) =
      functions.listing.map fun listing => (listing.key, listing.body) := by
  simp [listing, mapBodies, FunctionListing.ofBody]

theorem FunctionTable.Rooted.starts_relocate {functions : FunctionTable Block}
    (rooted : functions.Rooted (tokens source))
    (moved : tokens other = (tokens source).map (Token.relocate move)) :
    List.Forall₂ (fun listing later => SameIndex source other listing.offset later.offset)
      functions.listing (functions.mapBodies (Block.relocate move)).listing := by
  simp only [listing, mapBodies, List.forall₂_map_left_iff, List.forall₂_map_right_iff,
    List.forall₂_same]
  intro entry listed
  obtain ⟨token, member, first⟩ := rooted.exists_first listed
  simp only [FunctionListing.ofBody, Block.first?_relocate, first]
  exact sameIndex_of_mem moved member

/-- Both traces name the operator that the innermost level has come to. -/
theorem Stack.offset_relocate {stack : Stack} {token : Token}
    (here : stack.inner.current? = some token) :
    (Trace.ofFrames (stack.relocate move).frames).offset = move token.offset := by
  have hereToo : (stack.relocate move).inner.current? = some (token.relocate move) := by
    rw [show (stack.relocate move).inner = stack.inner.relocate move from rfl,
      Level.current?_relocate, here]
    rfl
  rw [offset_ofFrames hereToo]
  rfl

/-- The end of a run that the clock did not stop, and the same end with everything moved. -/
theorem parallels_ofOutcome (accepted : readScript source = .ok block)
    (moved : tokens other = (tokens source).map (Token.relocate move))
    (rooted : store.functions.Rooted block.tokens) (sound : (Progress.halted store outcome).Sound block)
    (ended : outcome = .finished ∨ ∃ fault stack, outcome = .failed fault stack) (elapsed later : Nat) :
    (Result.ofOutcome block elapsed store outcome).Parallels source other
      (.ofOutcome (block.relocate move) later (store.relocate move) (outcome.relocate move)) := by
  have spelled : block.tokens = tokens source := (readScript_eq_ok_iff.mp accepted).2.2
  have script : operators (block.relocate move).tokens = operators block.tokens := by simp
  have drawn := rooted.drawnFrom
  rw [spelled] at rooted
  have functions := @FunctionTable.bodies_relocate move store.functions
  have starts := rooted.starts_relocate moved
  rcases ended with rfl | ⟨fault, stack, rfl⟩
  · exact ⟨rfl, rfl, rfl, script, rfl, rfl, rfl, nofun, functions, starts⟩
  · have frames : (Trace.ofFrames (stack.relocate move).frames).frames =
        (Trace.ofFrames stack.frames).frames := by
      simp [Trace.ofFrames, Stack.frames_relocate]
    obtain ⟨token, here⟩ := Level.exists_current? (sound.inside stack rfl)
    have listed := (sound.stands stack rfl).current_mem drawn here
    refine ⟨rfl, rfl, rfl, script, rfl, rfl, congrArg some frames, ?_, functions, starts⟩
    rintro trace ⟨⟩ shown ⟨⟩
    rw [Stack.offset_ofFrames here, Stack.offset_relocate here]
    exact sameIndex_of_mem moved (spelled ▸ listed)

/-- A script whose brackets are in order is read, and so is the one it is moved to. -/
theorem exists_parse_relocate (moved : tokens other = (tokens source).map (Token.relocate move))
    (sound : bracketFault? (tokens source) = none) (soundToo : bracketFault? (tokens other) = none) :
    ∃ block, parse source = .ok block ∧ parse other = .ok (block.relocate move) := by
  obtain ⟨block, found⟩ := Block.exists_ofTokens?_of_bracketFault? sound
  have spelled := Block.tokens_ofTokens? found
  refine ⟨block, parse_eq_ok_iff.mpr ⟨sound, spelled⟩, parse_eq_ok_iff.mpr ⟨soundToo, ?_⟩⟩
  rw [Block.tokens_relocate, spelled, moved]

theorem compile_relocate (parsed : parse source = .ok block)
    (parsedToo : parse other = .ok (block.relocate move)) (size : Nat) :
    compile source size = compile other size := by
  simp only [compile, parsed, parsedToo, Block.toProgram, Block.toC_relocate]

theorem endsAlike_runOn {config : Config} (unbounded : config.budget = none)
    (accepted : readScript source = .ok block) (acceptedToo : readScript other = .ok (block.relocate move))
    (moved : tokens other = (tokens source).map (Token.relocate move)) (input : Text) (tape : Tape)
    (fuel : Nat) (watch clock : Stopwatch) :
    EndsAlike source other (.ok (runOn fuel watch config source input tape))
      (.ok (runOn fuel clock config other input tape)) := by
  have free (offset : Nat) : Rules.pausesAt ⟨config.mode, .empty, true⟩ offset = false :=
    Breakpoints.has_empty offset
  have machine : (Machine.launch block (.start tape input)).relocate move =
      .launch (block.relocate move) (.start tape input) := rfl
  rw [runOn_of_accepted unbounded accepted, runOn_of_accepted unbounded acceptedToo, ← machine,
    Machine.run_relocate move free]
  cases ran : Machine.run ⟨config.mode, .empty, true⟩ never fuel (.launch block (.start tape input)) with
  | none => exact .unfinished
  | some halt =>
    have whole := tidy_of_readScript accepted
    obtain ⟨place, ended⟩ := plainRun_of_run ran
    have attained : Attains config.mode block input tape (.halted halt.store halt.outcome) :=
      Attains.launch.visits rfl (Machine.visits_of_run ran)
    refine .finished (parallels_ofOutcome accepted moved (attained.rooted whole)
      (attained.sound whole) ?_ _ _)
    rcases means_of_plainRun ended with ⟨finished, _⟩ | ⟨fault, stack, failed, _⟩
    · exact .inl finished
    · exact .inr ⟨fault, stack, failed⟩

end Moved

/-- A script without operators has none in another writing either. -/
theorem hasCode_eq_of_operators {source other : Text}
    (same : operators (tokens source) = operators (tokens other)) : hasCode other = hasCode source := by
  have code (text : Text) : hasCode text = true ↔ operators (tokens text) ≠ [] := by
    constructor
    · intro code nothing
      exact tokensFrom_ne_nil 0 code (List.map_eq_nil_iff.mp nothing)
    · intro some
      by_contra none
      rw [tokens, operators_tokensFrom] at some
      exact some (filterMap_ofChar?_of_comment (eq_false_of_ne_true none))
  rw [Bool.eq_iff_iff, code, code, same]

theorem endsAlike_of_noCode {source other : Text} (noCode : hasCode source = false)
    (noCodeToo : hasCode other = false) (config : Config) (input : Text) (tape : Tape) (fuel : Nat)
    (watch clock : Stopwatch) :
    EndsAlike source other (.ok (runOn fuel watch config source input tape))
      (.ok (runOn fuel clock config other input tape)) := by
  simp only [runOn, readScript, noCode, noCodeToo]
  refine .finished ⟨rfl, rfl, rfl, rfl, rfl, rfl, rfl, ?_, rfl, .nil⟩
  intro trace shown
  cases shown

/-- Comments never matter. Of two scripts with the same operators either both are reported to have their
brackets in order or neither is. If both are, runs on the same input without a budget both end or both do not,
the results tell the same, and the places that they name, of the trace and of each function, are those
of tokens with the same index. Both scripts have the same C program. -/
theorem comments_never_matter (source other : Text)
    (same : Operator.text (operators (tokens source)) = Operator.text (operators (tokens other))) :
    ((bracketReport source).valid = true ↔ (bracketReport other).valid = true) ∧
    ((bracketReport source).valid = true →
      (∀ config : Config, config.budget = none → ∀ input fuel watch clock,
        EndsAlike source other (run fuel watch config source input) (run fuel clock config other input)) ∧
      ∀ size, compile source size = compile other size) := by
  have sameOperators := operators_eq_of_text same
  have together : (bracketReport source).valid = true ↔ (bracketReport other).valid = true := by
    rw [valid_iff_isProgram, valid_iff_isProgram, sameOperators]
  refine ⟨together, fun accepted => ?_⟩
  obtain ⟨move, moved⟩ := exists_relocation (increasing_tokensFrom 0 source) sameOperators
  obtain ⟨block, parsed, parsedToo⟩ := exists_parse_relocate moved
    (valid_bracketReport_iff.mp accepted) (valid_bracketReport_iff.mp (together.mp accepted))
  refine ⟨?_, compile_relocate parsed parsedToo⟩
  intro config unbounded input fuel watch clock
  cases valid : config.validate with
  | error error =>
    rw [run_of_invalid valid, run_of_invalid valid]
    exact .invalid error
  | ok _ =>
    rw [run_eq_runOn valid, run_eq_runOn valid]
    have alike := hasCode_eq_of_operators sameOperators
    cases code : hasCode source with
    | false => exact endsAlike_of_noCode code (alike.trans code) config input _ fuel watch clock
    | true =>
      have accepted : readScript source = .ok block := by rw [readScript, code, if_pos rfl, parsed]
      have acceptedToo : readScript other = .ok (block.relocate move) := by
        rw [readScript, alike, code, if_pos rfl, parsedToo]
      exact endsAlike_runOn unbounded accepted acceptedToo moved input _ fuel watch clock

/-- A function that fails when it is called, written with comments and without. -/
theorem comments_never_matter_in_a_failing_call :
    ∃ first second, run 9 (fun _ => 0) ⟨.short, 1, none⟩ "+(<):".toList [] = .ok (some first) ∧
      run 9 (fun _ => 5) ⟨.short, 1, none⟩ "one + ( < left ) : call".toList [] = .ok (some second) ∧
      first.trace.map Trace.offset = some 2 ∧ second.trace.map Trace.offset = some 8 ∧
      first.functions.length = 1 ∧
      first.Parallels "+(<):".toList "one + ( < left ) : call".toList second ∧
      compile "+(<):".toList 7 = compile "one + ( < left ) : call".toList 7 := by
  have same : Operator.text (operators (tokens "+(<):".toList)) =
      Operator.text (operators (tokens "one + ( < left ) : call".toList)) := by decide
  have accepted : (bracketReport "+(<):".toList).valid = true := by decide
  obtain ⟨alike, compiled⟩ := (comments_never_matter _ _ same).2 accepted
  have ended := alike ⟨.short, 1, none⟩ rfl [] 9 (fun _ => 0) (fun _ => 5)
  generalize ran : run 9 (fun _ => 0) ⟨.short, 1, none⟩ "+(<):".toList [] = answer at ended
  generalize ranToo : run 9 (fun _ => 5) ⟨.short, 1, none⟩ "one + ( < left ) : call".toList [] = reply
    at ended
  cases ended with
  | invalid error => cases ran
  | unfinished => cases ran
  | finished parallels =>
    obtain rfl := Option.some.inj (Except.ok.inj ran)
    obtain rfl := Option.some.inj (Except.ok.inj ranToo)
    exact ⟨_, _, rfl, rfl, rfl, rfl, rfl, parallels, compiled 7⟩

end TapeStepper
