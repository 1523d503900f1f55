import TapeStepper.Proofs.Storage
import TapeStepper.Proofs.Tidy

namespace TapeStepper

namespace Checked

/-- Whole statements are passed over in the search for a `]`. -/
theorem toLoopEnd?_tokens (block : Block) (height : Nat) (rest : List Token) :
    toLoopEnd? height (block.tokens ++ rest) =
      (toLoopEnd? height rest).map (· + block.tokens.length) := by
  induction block generalizing height rest with
  | done => simp
  | act offset action next ih =>
    simp only [Block.tokens_act, List.cons_append, toLoopEnd?, ih, Option.map_map, List.length_cons]
    rfl
  | call offset next ih =>
    simp only [Block.tokens_call, List.cons_append, toLoopEnd?, ih, Option.map_map, List.length_cons]
    rfl
  | loop opens body closes next ihBody ihNext =>
    simp only [Block.tokens_loop, List.cons_append, List.append_assoc, toLoopEnd?, ihBody, ihNext,
      Option.map_map, List.length_cons, List.length_append]
    congr 1
    funext count
    simp only [Function.comp_apply]
    omega
  | define opens body closes next ihBody ihNext =>
    simp only [Block.tokens_define, List.cons_append, List.append_assoc, toLoopEnd?, ihBody, ihNext,
      Option.map_map, List.length_cons, List.length_append]
    congr 1
    funext count
    simp only [Function.comp_apply]
    omega

example : toLoopEnd? 0 [⟨1, .loopStart⟩, ⟨2, .loopEnd⟩] = none := rfl

/-- Without functions inside, the next `)` is behind the block. -/
theorem toFunctionEnd?_tokens {block : Block} (plain : block.isPlain = true) (rest : List Token) :
    toFunctionEnd? (block.tokens ++ rest) = (toFunctionEnd? rest).map (block.tokens ++ ·) := by
  induction block generalizing rest with
  | done => simp
  | act offset action next ih => simp [toFunctionEnd?, ih plain, Function.comp_def]
  | call offset next ih => simp [toFunctionEnd?, ih plain, Function.comp_def]
  | loop opens body closes next ihBody ihNext =>
    obtain ⟨inside, behind⟩ := Bool.and_eq_true_iff.mp plain
    simp [toFunctionEnd?, ihBody inside, ihNext behind, Function.comp_def]
  | define opens body closes next => cases plain

end Checked

namespace Level

/-- The operators of the statements that are done. -/
def passed (level : Level) : List Token :=
  level.body.takeTokens level.index

variable {level : Level}

theorem passed_append_remaining (place : level.InPlace) :
    level.passed ++ level.remaining = level.tokens := by
  have split := Block.takeTokens_append_drop level.index level.body
  rw [place] at split
  rw [passed, remaining, tokens, ← List.append_assoc, split]

theorem remaining_eq (level : Level) :
    level.remaining = level.rest.takeTokens 1 ++ level.advance.remaining := by
  have split := Block.takeTokens_append_drop 1 level.rest
  rw [remaining, ← split, List.append_assoc]
  rfl

theorem passed_advance (place : level.InPlace) :
    level.advance.passed = level.passed ++ level.rest.takeTokens 1 := by
  have after := passed_append_remaining place.advance
  have before := passed_append_remaining place
  rw [remaining_eq, ← List.append_assoc] at before
  exact List.append_cancel_right (after.trans before.symm)

@[simp]
theorem passed_enter (body : Block) (entry : Entry) : (enter body entry).passed = [] := by
  simp [passed, enter, index, Block.takeTokens]

theorem reached_eq (level : Level) : level.reached = level.passed ++ level.current?.toList := rfl

theorem current?_of_rest {token : Token} {block : Block} (here : level.rest = block)
    (first : block.first? = some token) : level.current? = some token := by
  rw [current?, here, first, Option.some_or]

theorem restart_eq_enter (level : Level) : level.restart = enter level.body level.entry := rfl

theorem isOver_iff (level : Level) : level.isOver = true ↔ level.remaining = [] := by
  rw [isOver_eq, ← head?_remaining, Option.isNone_iff_eq_none, List.head?_eq_none_iff]

theorem exists_current? (inside : level.isOver = false) : ∃ token, level.current? = some token := by
  rw [isOver_eq, Option.isNone_eq_false_iff] at inside
  exact Option.isSome_iff_exists.mp inside

end Level

/-- The operators before and after the body of a level, inside the code that it shares with the
levels around it. Only a loop shares code. -/
def margins : Entry → List Level → List Token × List Token
  | .loop _, around :: outer =>
    ((margins around.entry outer).1 ++ around.reached,
      around.advance.remaining ++ (margins around.entry outer).2)
  | .loop _, [] | .top, _ | .call _, _ => ([], [])

namespace Level

/-- The place that a level has in the code. -/
def place (outer : List Level) (level : Level) : Nat :=
  (margins level.entry outer).1.length + level.passed.length

/-- Where the level around goes on. -/
def back : List Level → Nat
  | [] => 0
  | around :: outer => around.advance.place outer

def span (outer : List Level) (level : Level) : Checked.Span where
  code := (margins level.entry outer).1 ++ (level.tokens ++ (margins level.entry outer).2)
  start := (margins level.entry outer).1.length
  stop := (margins level.entry outer).1.length + level.tokens.length
  index := level.place outer
  back := back outer
  key? := level.key?

def frame (key? : Option Nat) (level : Level) : Checked.Frame :=
  ⟨level.reached, some level.offset, level.passed.length, key?⟩

end Level

def spans : List Level → List Checked.Span
  | [] => []
  | level :: outer => level.span outer :: spans outer

def outerFrames (inner : Level) : List Level → List Checked.Frame
  | [] => []
  | around :: outer => around.frame inner.key? :: outerFrames around outer

namespace Level

variable {level : Level} (outer : List Level)

theorem code_eq (inPlace : level.InPlace) : (level.span outer).code =
    (margins level.entry outer).1 ++ (level.passed ++ (level.remaining ++ (margins level.entry outer).2)) := by
  rw [span, ← passed_append_remaining inPlace, List.append_assoc level.passed]

/-- The code goes on with what is left of the body. -/
theorem drop_code (inPlace : level.InPlace) :
    (level.span outer).code.drop (level.span outer).index =
      level.remaining ++ (margins level.entry outer).2 := by
  rw [code_eq outer inPlace, ← List.append_assoc]
  exact List.drop_left' (by simp [span, place])

theorem getElem?_code (inPlace : level.InPlace) {token : Token} (here : level.current? = some token) :
    (level.span outer).code[(level.span outer).index]? = some token := by
  rw [← List.head?_drop, drop_code outer inPlace, List.head?_append, head?_remaining, here]
  rfl

theorem index_eq_stop_iff (inPlace : level.InPlace) :
    (level.span outer).index = (level.span outer).stop ↔ level.isOver = true := by
  have split := congrArg List.length (passed_append_remaining inPlace)
  rw [List.length_append] at split
  rw [isOver_iff, ← List.length_eq_zero_iff]
  simp only [span, place]
  omega

/-- The slices that a frame is cut out by are in range. -/
theorem span_frame? (inPlace : level.InPlace) (inside : level.isOver = false) (key? : Option Nat) :
    (level.span outer).frame? key? = some (level.frame key?) := by
  obtain ⟨token, here⟩ := exists_current? inside
  have split := passed_append_remaining inPlace
  have first := level.head?_remaining
  rw [here] at first
  obtain ⟨later, remaining⟩ := List.head?_eq_some_iff.mp first
  rw [remaining] at split
  have body : Checked.slice? (level.span outer).code (level.span outer).start (level.span outer).stop =
      some level.tokens := by
    simp [Checked.slice?, span, List.take_append]
  have reached : Checked.slice? level.tokens 0 (level.passed.length + 1) = some level.reached := by
    have within : level.passed.length + 1 ≤ level.tokens.length := by simp [← split]
    rw [Checked.slice?, if_pos ⟨Nat.zero_le _, within⟩, List.drop_zero, ← split,
      List.take_length_add_append, reached_eq, here]
    rfl
  have last : level.tokens[level.passed.length]? = some token := by
    rw [← split]
    simp
  have index : Checked.sub? (level.span outer).index (level.span outer).start =
      some level.passed.length := by
    simp [Checked.sub?, span, place]
  simp [Checked.Span.frame?, body, index, reached, last, frame, offset_of_current? here]

theorem span_advance (inPlace : level.InPlace) : level.advance.span outer =
    { level.span outer with
      index := (level.span outer).index + (level.rest.takeTokens 1).length } := by
  have on : level.advance.place outer = level.place outer + (level.rest.takeTokens 1).length := by
    simp only [place, passed_advance inPlace, List.length_append]
    exact (Nat.add_assoc ..).symm
  rw [span, on]
  rfl

theorem span_restart : level.restart.span outer =
    { level.span outer with index := (level.span outer).start } := by
  have start : level.restart.place outer = (margins level.entry outer).1.length := by
    rw [place, restart_eq_enter, passed_enter]
    rfl
  rw [span, start]
  rfl

theorem span_top (block : Block) : (enter block .top).span [] = Checked.Span.top block.tokens := by
  simp only [span, place, passed_enter]
  simp [Checked.Span.top, margins, tokens, closing, enter, back, key?]

theorem span_call (body : Block) (key : Nat) (around : Level) (inPlace : around.InPlace)
    {offset : Nat} {next : Block} (here : around.rest = .call offset next) :
    (enter body (.call key)).span (around :: outer) =
      Checked.Span.call body.tokens key ((around.span outer).index + 1) := by
  have on : around.advance.passed.length = around.passed.length + 1 := by
    simp [passed_advance inPlace, here, Block.takeTokens]
  simp only [span, place, passed_enter, back]
  simp [Checked.Span.call, margins, tokens, closing, enter, key?, on]
  simp [advance, Nat.add_assoc]

section Opening

variable {opens closes : Nat} {body next : Block} (inPlace : level.InPlace)
include inPlace

theorem drop_code_loop (here : level.rest = .loop opens body closes next) :
    (level.span outer).code.drop ((level.span outer).index + 1) = body.tokens ++
      (⟨closes, .loopEnd⟩ :: (level.advance.remaining ++ (margins level.entry outer).2)) := by
  rw [← List.drop_drop, drop_code outer inPlace, remaining_eq, here]
  simp [Block.takeTokens, Block.tokensOnto_eq]

theorem drop_code_define (here : level.rest = .define opens body closes next) :
    (level.span outer).code.drop ((level.span outer).index + 1) = body.tokens ++
      (⟨closes, .functionEnd⟩ :: (level.advance.remaining ++ (margins level.entry outer).2)) := by
  rw [← List.drop_drop, drop_code outer inPlace, remaining_eq, here]
  simp [Block.takeTokens, Block.tokensOnto_eq]

theorem loopLength?_code (here : level.rest = .loop opens body closes next) :
    Checked.loopLength? (level.span outer).code (level.span outer).index =
      some (body.tokens.length + 1) := by
  have token : level.current? = some ⟨opens, .loopStart⟩ := current?_of_rest here rfl
  rw [Checked.loopLength?, getElem?_code outer inPlace token, Option.bind_eq_bind, Option.bind_some,
    if_pos rfl, drop_code_loop outer inPlace here, Checked.toLoopEnd?_tokens]
  simp [Checked.toLoopEnd?, Nat.add_comm]

theorem functionBody?_code (here : level.rest = .define opens body closes next)
    (plain : body.isPlain = true) :
    Checked.functionBody? (level.span outer).code (level.span outer).index = some body.tokens := by
  have token : level.current? = some ⟨opens, .functionStart⟩ := current?_of_rest here rfl
  rw [Checked.functionBody?, getElem?_code outer inPlace token, Option.bind_eq_bind,
    Option.bind_some, if_pos rfl, drop_code_define outer inPlace here,
    Checked.toFunctionEnd?_tokens plain]
  simp [Checked.toFunctionEnd?]

theorem skips_span (rules : Rules) (here : level.rest = .loop opens body closes next) :
    Checked.Engine.skips rules (level.span outer) = rules.skips body closes := by
  unfold Checked.Engine.skips Checked.resetLoop? Rules.skips
  rw [drop_code_loop outer inPlace here]
  cases body with
  | act offset action rest =>
    cases action with
    | minus => cases rest <;> simp
    | next | back | plus | print | read => simp
  | done | call _ _ | loop _ _ _ _ | define _ _ _ _ => simp

/-- The search for a `]` finds the range that the body of the loop has. -/
theorem span_loop? (here : level.rest = .loop opens body closes next) :
    (level.span outer).loop? = some ((enter body (.loop closes)).span (level :: outer)) := by
  have token : level.current? = some ⟨opens, .loopStart⟩ := current?_of_rest here rfl
  have reached : level.reached.length = level.passed.length + 1 := by
    rw [reached_eq, token]
    simp
  have on : level.advance.passed.length = level.passed.length + (body.tokens.length + 2) := by
    simp [passed_advance inPlace, here, Block.takeTokens, Block.tokensOnto_eq]
  have code : ((enter body (.loop closes)).span (level :: outer)).code = (level.span outer).code := by
    rw [code_eq outer inPlace, remaining_eq, here]
    simp [span, margins, enter, tokens, closing, reached_eq, token, Block.takeTokens,
      Block.tokensOnto_eq]
  rw [Checked.Span.loop?, loopLength?_code outer inPlace here, Option.bind_eq_bind, Option.bind_some]
  refine congrArg some ?_
  rw [← code]
  simp only [span, place, passed_enter, back]
  simp [margins, enter, tokens, closing, key?, reached]
  simp [advance] at on ⊢
  omega

end Opening

end Level

/-- Every level around another stands at an operator, so that it has a frame. -/
theorem Stack.Stands.outerFrames? {block : Block} {functions : FunctionTable Block} {stack : Stack}
    (stands : stack.Stands block functions) :
    Checked.outerFrames? (stack.inner.span stack.outer) (spans stack.outer) =
      some (outerFrames stack.inner stack.outer) := by
  induction stands with
  | top place => rfl
  | @inside around level outer opened place ih =>
    have frame := Level.span_frame? around.outer outer.inPlace (isOver_of_opened opened) level.key?
    simp only [push, spans, Checked.outerFrames?, TapeStepper.outerFrames, ih]
    rw [show (level.span (around.inner :: around.outer)).key? = level.key? from rfl, frame]
    rfl

end TapeStepper
