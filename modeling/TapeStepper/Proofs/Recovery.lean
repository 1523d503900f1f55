import TapeStepper.Proofs.CText
import TapeStepper.Proofs.Comments
import TapeStepper.Proofs.Translation

namespace TapeStepper

/-- The operators that a C statement was made from, with the bodies of the functions by number. -/
def CStatement.script (bodies : List (List Operator)) : CStatement → List Operator
  | pointerUp => [.act .next]
  | pointerDown => [.act .back]
  | cellUp => [.act .plus]
  | cellDown => [.act .minus]
  | put => [.act .print]
  | get => [.act .read]
  | register number => .functionStart :: (bodies.getD number [] ++ [.functionEnd])
  | dispatch => [.call]

namespace CBlock

def script (bodies : List (List Operator)) : CBlock → List Operator
  | done => []
  | line statement next => statement.script bodies ++ next.script bodies
  | whileCell body next => .loopStart :: (body.script bodies ++ .loopEnd :: next.script bodies)

/-- The numbers of the functions that are registered, in order. -/
def registered : CBlock → List Nat
  | done => []
  | line (.register number) next => number :: next.registered
  | line _ next => next.registered
  | whileCell body next => body.registered ++ next.registered

end CBlock

namespace CProgram

/-- The operators of the functions. No function registers another. -/
def bodies (program : CProgram) : List (List Operator) :=
  program.functions.map (CBlock.script [])

/-- The operators of the whole script. -/
def script (program : CProgram) : List Operator :=
  program.main.script program.bodies

end CProgram

theorem Action.script_toC (action : Action) (bodies : List (List Operator)) :
    action.toC.script bodies = [.act action] := by
  cases action <;> rfl

theorem Action.registered_toC (action : Action) (next : CBlock) :
    (CBlock.line action.toC next).registered = next.registered := by
  cases action <;> rfl

namespace Renders

variable {functions : List CBlock} {block : Block} {lines : CBlock}

theorem script_of_plain (renders : Renders functions block lines) (plain : block.isPlain = true)
    (bodies : List (List Operator)) : lines.script bodies = operators block.tokens := by
  induction renders with
  | done => rfl
  | act _ ih =>
    rw [CBlock.script, Action.script_toC, ih plain]
    rfl
  | call _ ih =>
    rw [CBlock.script, ih plain]
    rfl
  | loop _ _ ihBody ihNext =>
    obtain ⟨inside, behind⟩ := Bool.and_eq_true_iff.mp plain
    simp [CBlock.script, ihBody inside, ihNext behind]
  | define => cases plain

/-- Where every registration is replaced by the body with its number, the script is found again. -/
theorem script (renders : Renders functions block lines) (tidy : block.Tidy) :
    lines.script (functions.map (CBlock.script [])) = operators block.tokens := by
  induction renders with
  | done => rfl
  | act _ ih =>
    rw [CBlock.script, Action.script_toC, ih tidy]
    rfl
  | call _ ih =>
    rw [CBlock.script, ih tidy]
    rfl
  | loop _ _ ihBody ihNext => simp [CBlock.script, ihBody tidy.1, ihNext tidy.2]
  | define placed inside _ _ ihNext =>
    obtain ⟨plain, _, tidyNext⟩ := tidy
    simp [CBlock.script, CStatement.script, placed, inside.script_of_plain plain, ihNext tidyNext]

end Renders

namespace Block

theorem functions_toC_of_isPlain {block : Block} (plain : block.isPlain = true) (first : Nat) :
    (block.toC first).2 = [] := by
  induction block generalizing first with
  | done => rfl
  | act offset action next ih => exact ih plain first
  | call offset next ih => exact ih plain first
  | loop opens body closes next ihBody ihNext =>
    obtain ⟨inside, behind⟩ := Bool.and_eq_true_iff.mp plain
    simp [toC, ihBody inside, ihNext behind]
  | define opens body closes next => cases plain

theorem script_toC_of_isPlain {block : Block} (plain : block.isPlain = true) (first : Nat) :
    (block.toC first).1.script [] = operators block.tokens := by
  have rendered := block.renders_toC (List.replicate first .done) []
  rw [List.length_replicate] at rendered
  exact rendered.script_of_plain plain []

/-- The functions are numbered in the order in which they are registered. -/
theorem Tidy.registered_toC {block : Block} (tidy : block.Tidy) (first : Nat) :
    (block.toC first).1.registered = List.range' first (block.toC first).2.length := by
  induction block generalizing first with
  | done => rfl
  | act offset action next ih =>
    simp only [toC, Action.registered_toC]
    exact ih tidy first
  | call offset next ih => exact ih tidy first
  | loop opens body closes next ihBody ihNext =>
    simp only [toC, CBlock.registered, ihBody tidy.1, ihNext tidy.2, List.length_append]
    exact List.range'_append_1 ..
  | define opens body closes next _ ihNext =>
    obtain ⟨plain, _, tidyNext⟩ := tidy
    simp [toC, CBlock.registered, functions_toC_of_isPlain plain, ihNext tidyNext, List.range'_succ]

/-- The functions have the bodies of the definitions, in the order of the script. -/
theorem Tidy.bodies_toC {block : Block} (tidy : block.Tidy) {rest : List Token} {behind : Outline}
    (read : Outline.read none rest = .ok behind) (first : Nat) :
    ∃ outline, Outline.read none (block.tokens ++ rest) = .ok outline ∧
      outline.definitions.map (fun definition => operators definition.body) =
        (block.toC first).2.map (CBlock.script []) ++
          behind.definitions.map fun definition => operators definition.body := by
  induction block generalizing rest behind first with
  | done => exact ⟨behind, read, rfl⟩
  | act offset action next ih =>
    obtain ⟨outline, readNext, listed⟩ := ih tidy read first
    exact ⟨_, Outline.read_cons _ rfl readNext, listed⟩
  | call offset next ih =>
    obtain ⟨outline, readNext, listed⟩ := ih tidy read first
    exact ⟨_, Outline.read_cons _ rfl readNext, listed⟩
  | loop opens body closes next ihBody ihNext =>
    obtain ⟨middle, readNext, listedNext⟩ := ihNext tidy.2 read (first + (body.toC first).2.length)
    have readEnd := Outline.read_cons ⟨closes, .loopEnd⟩ rfl readNext
    obtain ⟨inner, readBody, listedBody⟩ := ihBody tidy.1 readEnd first
    have readStart := Outline.read_cons ⟨opens, .loopStart⟩ rfl readBody
    refine ⟨_, by simpa using readStart, ?_⟩
    simp [toC, listedBody, listedNext]
  | define opens body closes next _ ihNext =>
    obtain ⟨plain, _, tidyNext⟩ := tidy
    obtain ⟨outline, readNext, listed⟩ := ihNext tidyNext read (first + 1)
    have readBody := Outline.read_body (isParen_of_isPlain plain) readNext opens closes []
    refine ⟨_, by simpa [Outline.read] using readBody, ?_⟩
    simp [toC, functions_toC_of_isPlain plain, script_toC_of_isPlain plain, listed]

end Block

/-- What the text of a C program tells of the script with these definitions that it was made from: the
operators in their places, the bodies of the functions in order, and the function that is registered
by each definition. In each function the depth begins and ends at one. -/
structure Recovers (source : Text) (size : Nat) (outline : Outline) (written : Text)
    (program : CProgram) : Prop where
  read : CProgram.ofText? written = some program
  size : program.size = size
  script : program.script = operators (tokens source)
  bodies : program.bodies = outline.definitions.map fun definition => operators definition.body
  registered : program.main.registered = List.range outline.definitions.length
  depths : (sections none (textLines written)).map (fun lines => lines.foldlM depthBehind? 1) =
    List.replicate (outline.definitions.length + 1) (some 1)

theorem CProgram.depths_text (program : CProgram) :
    (sections none (textLines program.text)).map (fun lines => lines.foldlM depthBehind? 1) =
      List.replicate (program.functions.length + 1) (some 1) := by
  have function (body : CBlock) : (body.lines 1).foldlM depthBehind? 1 = some 1 := by
    have leaves := foldlM_depthBehind?_lines Nat.one_pos body []
    rwa [List.append_nil] at leaves
  have returns : depthBehind? 1 (indented 1 returnLine) = some 1 := by decide +kernel
  have main : (program.main.lines 1 ++ [indented 1 returnLine]).foldlM depthBehind? 1 = some 1 := by
    rw [foldlM_depthBehind?_lines Nat.one_pos, List.foldlM_cons, returns]
    rfl
  rw [sections_text, List.map_append, List.map_map, List.map_singleton, main, List.replicate_succ']
  congr 1
  exact List.map_eq_replicate_iff.mpr fun body _ => function body

theorem exists_recovers {source : Text} (accepted : (bracketReport source).valid = true) {size : Nat}
    (positive : 0 < size) :
    ∃ outline program, Outline.ofTokens (tokens source) = .ok outline ∧
      compile source size = .ok program ∧ Recovers source size outline program.text program := by
  have sound := valid_bracketReport_iff.mp accepted
  obtain ⟨block, found⟩ := Block.exists_ofTokens?_of_bracketFault? sound
  have spelled := Block.tokens_ofTokens? found
  have parsed : parse source = .ok block := parse_eq_ok_iff.mpr ⟨sound, spelled⟩
  have tidy := tidy_of_parse parsed
  have compiled : compile source size = .ok (block.toProgram size) := by
    rw [compile, if_neg (Nat.ne_of_gt positive), parsed]
  have nothing : Outline.read none [] = .ok ⟨[], []⟩ := rfl
  obtain ⟨outline, outlined, bodies⟩ := tidy.bodies_toC nothing 0
  rw [List.append_nil, spelled] at outlined
  have bodies : (block.toProgram size).bodies =
      outline.definitions.map fun definition => operators definition.body := by
    rw [bodies, List.map_nil, List.append_nil]
    rfl
  have count : (block.toProgram size).functions.length = outline.definitions.length := by
    have lengths := congrArg List.length bodies
    rwa [CProgram.bodies, List.length_map, List.length_map] at lengths
  refine ⟨outline, _, outlined, compiled, CProgram.ofText?_text _, rfl, ?_, bodies, ?_, ?_⟩
  · rw [← spelled]
    exact (block.renders_toProgram size).script tidy
  · rw [← count, List.range_eq_range']
    exact tidy.registered_toC 0
  · rw [← count]
    exact CProgram.depths_text _

/-- The C program of a script loses nothing but comments: of accepted scripts and arrays that are not
empty, two have the same text exactly if the arrays have the same size and the scripts the same
operators. From the text can be recovered every function body in the order of the script, where it is
registered, and all loops. -/
theorem translation_loses_nothing {source other : Text} {size room : Nat}
    (accepted : (bracketReport source).valid = true) (acceptedToo : (bracketReport other).valid = true)
    (positive : 0 < size) (positiveToo : 0 < room) :
    ((compile source size).map CProgram.text = (compile other room).map CProgram.text ↔
      size = room ∧
        Operator.text (operators (tokens source)) = Operator.text (operators (tokens other))) ∧
    ∃ outline written program, Outline.ofTokens (tokens source) = .ok outline ∧
      (compile source size).map CProgram.text = .ok written ∧
      Recovers source size outline written program := by
  obtain ⟨outline, program, outlined, compiled, recovers⟩ := exists_recovers accepted positive
  obtain ⟨_, second, _, compiledToo, recoversToo⟩ := exists_recovers acceptedToo positiveToo
  refine ⟨⟨fun same => ?_, ?_⟩, outline, program.text, program, outlined, ?_, recovers⟩
  · rw [compiled, compiledToo] at same
    have texts : program.text = second.text := Except.ok.inj same
    have read := recovers.read
    rw [texts, recoversToo.read] at read
    obtain rfl : second = program := Option.some.inj read
    refine ⟨recovers.size.symm.trans recoversToo.size, ?_⟩
    rw [← recovers.script, recoversToo.script]
  · rintro ⟨rfl, same⟩
    obtain ⟨move, moved⟩ :=
      exists_relocation (increasing_tokensFrom 0 source) (operators_eq_of_text same)
    obtain ⟨block, parsed, parsedToo⟩ := exists_parse_relocate moved
      (valid_bracketReport_iff.mp accepted) (valid_bracketReport_iff.mp acceptedToo)
    rw [compile_relocate parsed parsedToo]
  · rw [compiled]
    rfl

/-- A function with a loop in it that is defined in a loop, written with comments and without, and
the same script without its inner loop. -/
theorem translation_loses_nothing_of_a_function_in_a_loop :
    (compile "[(>[-]):]".toList 7).map CProgram.text =
      (compile "[ ( > [-] ) : ] call".toList 7).map CProgram.text ∧
    (compile "[(>[-]):]".toList 7).map CProgram.text ≠ (compile "[(>-):]".toList 7).map CProgram.text ∧
    ∃ outline written program, Outline.ofTokens (tokens "[(>[-]):]".toList) = .ok outline ∧
      (compile "[(>[-]):]".toList 7).map CProgram.text = .ok written ∧
      Recovers "[(>[-]):]".toList 7 outline written program := by
  have plain : (bracketReport "[(>[-]):]".toList).valid = true := by decide
  have commented : (bracketReport "[ ( > [-] ) : ] call".toList).valid = true := by decide
  have shorter : (bracketReport "[(>-):]".toList).valid = true := by decide
  have seven : 0 < 7 := by decide
  obtain ⟨alike, recovers⟩ := translation_loses_nothing plain commented seven seven
  obtain ⟨apart, _⟩ := translation_loses_nothing plain shorter seven seven
  refine ⟨alike.mpr ⟨rfl, by decide⟩, fun same => ?_, recovers⟩
  have operators := (apart.mp same).2
  revert operators
  decide

end TapeStepper
