import TapeStepper.Compile
import TapeStepper.Proofs.CText
import TapeStepper.Proofs.Failures

namespace TapeStepper

/-- C statements that stand for the statements of a script, among the functions of a program. A
definition stands for its number, and the body for the function with that number. -/
inductive Renders (functions : List CBlock) : Block → CBlock → Prop
  | done : Renders functions .done .done
  | act {offset action next statements} : Renders functions next statements →
      Renders functions (.act offset action next) (.line action.toC statements)
  | call {offset next statements} : Renders functions next statements →
      Renders functions (.call offset next) (.line .dispatch statements)
  | loop {opens body closes next inside statements} : Renders functions body inside →
      Renders functions next statements →
      Renders functions (.loop opens body closes next) (.whileCell inside statements)
  | define {opens body closes next number inside statements} :
      functions[number]? = some inside → Renders functions body inside →
      Renders functions next statements →
      Renders functions (.define opens body closes next) (.line (.register number) statements)

/-- The functions of a block are numbered by the places they get behind those that are there. -/
theorem Block.renders_toC (block : Block) (before after : List CBlock) :
    Renders (before ++ (block.toC before.length).2 ++ after) block (block.toC before.length).1 := by
  induction block generalizing before after with
  | done => exact .done
  | act offset action next ih => exact .act (ih before after)
  | call offset next ih => exact .call (ih before after)
  | loop opens body closes next ihBody ihNext =>
    have inside := ihBody before ((next.toC (before ++ (body.toC before.length).2).length).2 ++ after)
    have behind := ihNext (before ++ (body.toC before.length).2) after
    simp only [List.length_append, List.append_assoc] at inside behind
    simp only [toC, List.append_assoc]
    exact .loop inside behind
  | define opens body closes next ihBody ihNext =>
    have inside := ihBody before ((body.toC before.length).1 ::
      (next.toC (before ++ (body.toC before.length).2).length.succ).2 ++ after)
    have behind := ihNext (before ++ (body.toC before.length).2 ++ [(body.toC before.length).1]) after
    simp only [List.length_append, List.append_assoc, List.cons_append, List.nil_append,
      List.length_singleton, Nat.succ_eq_add_one] at inside behind
    simp only [toC, List.append_assoc, List.cons_append]
    refine .define ?_ inside behind
    simp

theorem Block.renders_toProgram (size : Nat) (block : Block) :
    Renders (block.toProgram size).functions block (block.toProgram size).main := by
  have rendered := block.renders_toC [] []
  rwa [List.nil_append, List.append_nil] at rendered

/-- A C program in the state of a script: the same cells and characters as bytes, and each function
under its key. The newlines that C would skip are not in the input. -/
structure InStep (functions : List CBlock) (store : Store) (state : CState) : Prop where
  cells : state.array.map UInt8.toNat = store.tape.cells
  pointer : state.pointer = store.tape.position
  input : state.input.map UInt8.toNat = store.input.map Char.toNat
  lines : 10 ∉ state.input
  output : state.output.map UInt8.toNat = store.output.chars.map Char.toNat
  table : ∀ (key : UInt8) (body : Block), store.functions.get? key.toNat = some body →
    ∃ number inside, state.table key = some number ∧ functions[number]? = some inside ∧
      Renders functions body inside

theorem Tape.toNat_charOf {value : Nat} (small : value < 256) : (charOf value).toNat = value := by
  have valid : value.isValidChar := .inl (by omega)
  rw [charOf, if_pos valid, Char.ofNat, dif_pos valid]
  rfl

namespace InStep

variable {functions : List CBlock} {store changed : Store} {state : CState}

theorem count (inStep : InStep functions store state) (operations : Nat) :
    InStep functions (store.count operations) state :=
  ⟨inStep.cells, inStep.pointer, inStep.input, inStep.lines, inStep.output, inStep.table⟩

theorem cell? (inStep : InStep functions store state) :
    ∃ byte, state.cell? = some byte ∧ byte.toNat = store.value := by
  have read : (state.array.map UInt8.toNat)[state.pointer]? = some store.value := by
    rw [inStep.cells, inStep.pointer]
    exact store.tape.cells_position
  rw [List.getElem?_map] at read
  exact Option.map_eq_some_iff.mp read

theorem cell?_zero (inStep : InStep functions store state) (zero : store.value = 0) :
    state.cell? = some 0 := by
  obtain ⟨byte, read, same⟩ := inStep.cell?
  obtain rfl : byte = 0 := UInt8.toNat_inj.mp (same.trans zero)
  exact read

theorem cell?_nonzero (inStep : InStep functions store state) (nonzero : store.value ≠ 0) :
    ∃ byte, state.cell? = some byte ∧ byte ≠ 0 := by
  obtain ⟨byte, read, same⟩ := inStep.cell?
  refine ⟨byte, read, ?_⟩
  rintro rfl
  exact nonzero same.symm

/-- Both may write a byte to the cell. -/
theorem setCell (inStep : InStep functions store state) {byte : UInt8} {value : Nat}
    (same : byte.toNat = value) :
    InStep functions (store.withTape (store.tape.set value)) (state.setCell byte) where
  cells := by
    rw [CState.setCell, List.map_set, inStep.cells, inStep.pointer, same]
    exact (store.tape.cells_set value).symm
  pointer := inStep.pointer
  input := inStep.input
  lines := inStep.lines
  output := inStep.output
  table := inStep.table

theorem pointTo? (inStep : InStep functions store state) {tape : Tape}
    (cells : tape.cells = store.tape.cells) :
    ∃ moved, state.pointTo? tape.position = some moved ∧
      InStep functions (store.withTape tape) moved := by
  have inside : tape.position < state.array.length := by
    have sizes := congrArg List.length (inStep.cells.trans cells.symm)
    rw [List.length_map, Tape.cells_length] at sizes
    rw [sizes]
    exact tape.position_lt_size
  exact ⟨_, if_pos inside, inStep.cells.trans cells.symm, rfl, inStep.input, inStep.lines,
    inStep.output, inStep.table⟩

theorem print (inStep : InStep functions store state) {byte : UInt8}
    (same : byte.toNat = store.value) {output : Output}
    (written : store.output.write? store.tape.currentChar = some output) :
    InStep functions { store with output } { state with output := state.output ++ [byte] } where
  cells := inStep.cells
  pointer := inStep.pointer
  input := inStep.input
  lines := inStep.lines
  output := by
    have small : store.value < 256 := same ▸ byte.toNat_lt
    have shown : store.tape.currentChar.toNat = byte.toNat := (Tape.toNat_charOf small).trans same.symm
    simp only [Output.chars_write? written, List.map_append, inStep.output, List.map_cons, shown,
      List.map_nil]
  table := inStep.table

/-- The next character of the input is the next byte, as it is no newline. -/
theorem nextByte (inStep : InStep functions store state) {c : Char} {input : Text}
    (pending : store.input = c :: input) :
    ∃ byte bytes, TapeStepper.nextByte state.input = (byte, bytes) ∧ byte.toNat = c.toNat % 256 ∧
      bytes.map UInt8.toNat = input.map Char.toNat ∧ 10 ∉ bytes := by
  have same := inStep.input
  have lines := inStep.lines
  cases waiting : state.input with
  | nil => simp [waiting, pending] at same
  | cons byte bytes =>
    rw [waiting, pending, List.map_cons, List.map_cons, List.cons.injEq] at same
    rw [waiting, List.mem_cons, not_or] at lines
    refine ⟨byte, bytes, if_neg (Ne.symm lines.1), ?_, same.2, lines.2⟩
    rw [← same.1, Nat.mod_eq_of_lt byte.toNat_lt]

/-- An action that succeeds is done by its C statement too. -/
theorem perform (inStep : InStep functions store state) {action : Action}
    (result : store.perform .byte action = .ok changed) :
    ∃ moved, action.toC.perform? state = some moved ∧ InStep functions changed moved := by
  obtain ⟨byte, read, same⟩ := inStep.cell?
  have small : store.value < 256 := same ▸ byte.toNat_lt
  cases action with
  | next =>
    simp only [Store.perform] at result
    split at result
    · rename_i tape next
      cases result
      obtain ⟨cells, position⟩ := Tape.cells_next? next
      rw [Action.toC, CStatement.perform?, inStep.pointer, ← position]
      exact inStep.pointTo? cells
    · cases result
  | back =>
    simp only [Store.perform] at result
    split at result
    · rename_i tape back
      cases result
      obtain ⟨cells, position⟩ := Tape.cells_back? back
      have notFirst : state.pointer ≠ 0 := by
        rw [inStep.pointer]
        omega
      have before : tape.position = state.pointer - 1 := by
        rw [inStep.pointer]
        omega
      rw [Action.toC, CStatement.perform?, if_neg notFirst, ← before]
      exact inStep.pointTo? cells
    · cases result
  | plus =>
    simp only [Store.perform, CellMode.increment?_byte small] at result
    cases result
    refine ⟨state.setCell (byte + 1), by simp [Action.toC, CStatement.perform?, read], ?_⟩
    refine inStep.setCell ?_
    rw [UInt8.toNat_add, same]
    rfl
  | minus =>
    simp only [Store.perform, CellMode.decrement?_byte small] at result
    cases result
    refine ⟨state.setCell (byte - 1), by simp [Action.toC, CStatement.perform?, read], ?_⟩
    refine inStep.setCell ?_
    rw [UInt8.toNat_sub, same, Nat.add_comm]
    rfl
  | print =>
    simp only [Store.perform] at result
    split at result
    · rename_i output written
      cases result
      exact ⟨_, by simp [Action.toC, CStatement.perform?, read], inStep.print same written⟩
    · cases result
  | read =>
    simp only [Store.perform] at result
    split at result
    · cases result
    · rename_i c input pending
      cases result
      obtain ⟨value, bytes, taken, code, rest, lines⟩ := inStep.nextByte pending
      refine ⟨{ state.setCell value with input := bytes },
        by simp [Action.toC, CStatement.perform?, read, taken], ?_⟩
      have written := inStep.setCell code
      exact ⟨written.cells, written.pointer, rest, lines, written.output, written.table⟩

/-- A definition that succeeds puts the function under the same key. -/
theorem define (inStep : InStep functions store state) {body : Block}
    {defined : FunctionTable Block} (result : store.functions.define store.value body = .ok defined)
    {number : Nat} {inside : CBlock} (placed : functions[number]? = some inside)
    (rendered : Renders functions body inside) :
    ∃ moved, (CStatement.register number).perform? state = some moved ∧
      InStep functions { store with functions := defined } moved := by
  obtain ⟨byte, read, same⟩ := inStep.cell?
  refine ⟨state.register byte number, by simp [CStatement.perform?, read], ?_⟩
  refine ⟨inStep.cells, inStep.pointer, inStep.input, inStep.lines, inStep.output, ?_⟩
  intro key other bound
  rw [FunctionTable.get?_define result] at bound
  by_cases here : key = byte
  · rw [if_pos (here ▸ same), Option.some.injEq] at bound
    subst bound
    exact ⟨number, inside, if_pos here, placed, rendered⟩
  · have elsewhere : key.toNat ≠ store.value := fun equal =>
      here (UInt8.toNat_inj.mp (equal.trans same.symm))
    rw [if_neg elsewhere] at bound
    obtain ⟨old, within, listed, found, renders⟩ := inStep.table key other bound
    exact ⟨old, within, (if_neg here).trans listed, found, renders⟩

/-- A call that finds a function finds its C function. -/
theorem dispatch (inStep : InStep functions store state) {body : Block}
    (bound : store.functions.get? store.value = some body) :
    ∃ inside, CStatement.dispatch.perform? state = some state ∧
      CStatement.dispatch.called? functions state = some inside ∧ Renders functions body inside := by
  obtain ⟨byte, read, same⟩ := inStep.cell?
  rw [← same] at bound
  obtain ⟨number, inside, listed, found, renders⟩ := inStep.table byte body bound
  refine ⟨inside, by simp [CStatement.perform?, read], ?_, renders⟩
  simp [CStatement.called?, read, listed, found]

end InStep

/-- What C makes of a piece of a script that comes to its end: for statements, the C statements end in
a state like the last one; for the rounds of a loop, the body is run first, and from there the
`while` goes on to what follows it. -/
def Phrase.Translated (functions : List CBlock) (last : Store) (state : CState) : Phrase → Prop
  | statements block => ∀ lines, Renders functions block lines →
      ∃ final, lines.Ends functions state final ∧ InStep functions last final
  | rounds body => ∀ inside, Renders functions body inside →
      ∃ middle left, inside.Ends functions state middle ∧ InStep functions last left ∧
        ∀ next final, next.Ends functions left final →
          (CBlock.whileCell inside next).Ends functions middle final

theorem Action.called?_toC (action : Action) (functions : List CBlock) (state : CState) :
    action.toC.called? functions state = some .done := by
  cases action <;> rfl

theorem Means.translated {functions : List CBlock} {depth : Nat} {phrase : Phrase}
    {store last : Store} {fault? : Option Fault}
    (means : Means .byte depth phrase store last fault?) (finished : fault? = none)
    {state : CState} (inStep : InStep functions store state) :
    phrase.Translated functions last state := by
  -- Failing cases cannot arise, so each statement meets its C statement in step. The rounds of a loop
  -- begin behind the test of `while`: the first test belongs to the case of the loop.
  induction means generalizing state with
  | done =>
    rintro _ ⟨⟩
    exact ⟨state, .done, inStep⟩
  | @acts _ _ action _ _ _ _ _ result _ ih =>
    intro _ renders
    cases renders with
    | act rendered =>
      obtain ⟨moved, performed, after⟩ := inStep.perform result
      obtain ⟨final, ends, agrees⟩ := ih finished (after.count 1) _ rendered
      exact ⟨final, .line performed (action.called?_toC functions moved) .done ends, agrees⟩
  | skips zero _ ih =>
    intro _ renders
    cases renders with
    | loop _ rendered =>
      obtain ⟨final, ends, agrees⟩ := ih finished (inStep.count 1) _ rendered
      exact ⟨final, .skip (inStep.cell?_zero zero) ends, agrees⟩
  | loops nonzero _ _ ihRounds ihNext =>
    intro _ renders
    cases renders with
    | loop inside rendered =>
      obtain ⟨byte, read, entered⟩ := inStep.cell?_nonzero nonzero
      obtain ⟨middle, left, first, leaves, again⟩ := ihRounds rfl (inStep.count 1) _ inside
      obtain ⟨final, ends, agrees⟩ := ihNext finished leaves _ rendered
      exact ⟨final, .round read entered first (again _ _ ends), agrees⟩
  | defines result _ ih =>
    intro _ renders
    cases renders with
    | define placed inside rendered =>
      obtain ⟨moved, performed, after⟩ := inStep.define result placed inside
      obtain ⟨final, ends, agrees⟩ := ih finished after _ rendered
      exact ⟨final, .line performed rfl .done ends, agrees⟩
  | calls bound _ _ _ ihBody ihNext =>
    intro _ renders
    cases renders with
    | call rendered =>
      obtain ⟨inside, performed, called, renderedBody⟩ := inStep.dispatch bound
      obtain ⟨middle, first, returns⟩ := ihBody rfl (inStep.count 1) _ renderedBody
      obtain ⟨final, ends, agrees⟩ := ihNext finished returns _ rendered
      exact ⟨final, .line performed called first ends, agrees⟩
  | lastRound _ zero ih =>
    intro inside rendered
    obtain ⟨middle, first, leaves⟩ := ih rfl inStep _ rendered
    have read := leaves.cell?_zero zero
    exact ⟨middle, middle, first, leaves.count 1, fun next final ends => .skip read ends⟩
  | nextRound _ nonzero _ ihBody ihRounds =>
    intro inside rendered
    obtain ⟨middle, first, between⟩ := ihBody rfl inStep _ rendered
    obtain ⟨byte, read, entered⟩ := between.cell?_nonzero nonzero
    obtain ⟨later, left, second, leaves, again⟩ := ihRounds finished (between.count 1) _ rendered
    exact ⟨middle, left, first, leaves,
      fun next final ends => .round read entered second (again next final ends)⟩
  | actFails _ | loopFails _ _ _ | defineFails _ | callFails _ _ _ _ | callsNothing _
  | callsTooDeep _ _ | roundFails _ _ => cases finished

/-- The codes of characters, as C reads them. -/
def bytesOf (input : Text) : List UInt8 :=
  input.map fun c => .ofNat c.toNat

theorem toNat_bytesOf {input : Text} (small : ∀ c ∈ input, c.toNat < 256) :
    (bytesOf input).map UInt8.toNat = input.map Char.toNat := by
  rw [bytesOf, List.map_map]
  refine List.map_congr_left fun c listed => ?_
  exact Nat.mod_eq_of_lt (small c listed)

/-- Both start on zeros, with nothing printed and nothing defined. -/
theorem InStep.start (functions : List CBlock) {size : Nat} {input : Text} (positive : 0 < size)
    (plain : ∀ c ∈ input, c.toNat < 256 ∧ c ≠ '\n') :
    InStep functions (.start (.blank size) input) (.start size (bytesOf input)) where
  cells := by
    rw [Store.start, Tape.cells_blank positive]
    exact List.map_replicate
  pointer := rfl
  input := toNat_bytesOf fun c listed => (plain c listed).1
  lines := by
    intro listed
    obtain ⟨c, inside, code⟩ := List.mem_map.mp listed
    obtain ⟨small, other⟩ := plain c inside
    have newline : c.toNat = 10 := by
      rw [← Nat.mod_eq_of_lt small]
      exact congrArg UInt8.toNat code
    exact other (Char.toNat_inj.mp newline)
  output := rfl
  table := by
    intro key body bound
    cases bound

theorem compile_of_accepted {source : Text} {block : Block} (accepted : readScript source = .ok block)
    {size : Nat} (positive : 0 < size) : compile source size = .ok (block.toProgram size) := by
  have read : parse source = .ok block := parse_eq_ok_iff.mpr (readScript_eq_ok_iff.mp accepted).2
  rw [compile, if_neg (Nat.ne_of_gt positive), read]

/-- Where bytes are run with success, on input that C reads as it is, the script has a C program, and
what C makes of its text comes to an end as well: with the same cells, the pointer on the same cell,
and the same bytes printed. -/
theorem compiled_program_follows_run {config : Config} {source input : Text}
    (bytes : config.mode = .byte) (plain : ∀ c ∈ input, c.toNat < 256 ∧ c ≠ '\n') {fuel : Nat}
    {watch : Stopwatch} {result : Result}
    (ran : run fuel watch config source input = .ok (some result))
    (success : result.exitCode.isSuccess = true) :
    ∃ written, (compile source config.tapeSize).map CProgram.text = .ok written ∧
      ∃ enough last, runText? enough written (bytesOf input) = some last ∧
        last.array.map UInt8.toNat = result.tape.cells ∧ last.pointer = result.tape.position ∧
        last.output.map UInt8.toNat = result.output.map Char.toNat := by
  obtain ⟨valid, ran⟩ := runOn_of_run ran
  obtain ⟨block, last, accepted, means, reports⟩ := means_of_success ran success
  have positive := Config.tapeSize_pos valid
  rw [bytes] at means
  have rendered := block.renders_toProgram config.tapeSize
  obtain ⟨final, ⟨enough, ends⟩, agrees⟩ := means.translated rfl (.start _ positive plain) _ rendered
  refine ⟨(block.toProgram config.tapeSize).text, ?_, enough, final, ?_, ?_, ?_, ?_⟩
  · rw [compile_of_accepted accepted positive]
    rfl
  · rw [runText?_text]
    exact ends
  · exact agrees.cells.trans (congrArg Tape.cells reports.tape.symm)
  · exact agrees.pointer.trans (congrArg Tape.position reports.tape.symm)
  · exact agrees.output.trans (congrArg _ reports.output.symm)

/-- A function that is defined in front of a loop and called in it, where it reads and prints. -/
theorem compiled_program_follows_run_echo :
    ∃ written enough last,
      (compile ['(', '>', ',', '.', '<', ')', '+', '[', '-', ':', ']'] 2).map CProgram.text = .ok written ∧
      runText? enough written [65] = some last ∧ last.array.map UInt8.toNat = [0, 65] ∧
      last.pointer = 0 ∧ last.output.map UInt8.toNat = [65] := by
  have ran : run 20 (fun _ => 0) ⟨.byte, 2, none⟩
      ['(', '>', ',', '.', '<', ')', '+', '[', '-', ':', ']'] ['A'] = .ok (some _) := rfl
  have plain : ∀ c ∈ ['A'], c.toNat < 256 ∧ c ≠ '\n' := by
    intro c listed
    obtain rfl := List.mem_singleton.mp listed
    exact ⟨by decide, by decide⟩
  obtain ⟨written, compiled, enough, last, runs, cells, pointer, output⟩ :=
    compiled_program_follows_run rfl plain ran rfl
  exact ⟨written, enough, last, compiled, runs, cells, pointer, output⟩

end TapeStepper
