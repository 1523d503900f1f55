import TapeStepper.Block
import TapeStepper.FunctionTable

namespace TapeStepper

/-- How a level was entered. A loop keeps the offset of its `]`, which is the
last operator of its body; a call keeps the key it was called by. -/
inductive Entry
  | top
  | loop (closes : Nat)
  | call (key : Nat)
  deriving DecidableEq

/-- A body being run, with the statements that are left of it. While a level
inside it is active, the statement that opened that level comes first. -/
structure Level where
  body : Block
  rest : Block
  entry : Entry
  deriving DecidableEq

namespace Level

def enter (body : Block) (entry : Entry) : Level :=
  ⟨body, body, entry⟩

def key? (level : Level) : Option Nat :=
  match level.entry with
  | .call key => some key
  | .top | .loop _ => none

/-- The operator that ends the body itself. -/
def closing (level : Level) : List Token :=
  match level.entry with
  | .loop closes => [⟨closes, .loopEnd⟩]
  | .top | .call _ => []

/-- The operator that the level has come to; `none` at its end. -/
def current? (level : Level) : Option Token :=
  level.rest.first?.or level.closing.head?

/-- Whether the body has come to its end; the `]` of a loop belongs to the body. -/
def isOver (level : Level) : Bool :=
  match level.rest, level.entry with
  | .done, .top | .done, .call _ => true
  | _, _ => false

/-- The offset of the current operator. -/
def offset (level : Level) : Nat :=
  match level.rest, level.entry with
  | .act offset _ _, _ | .call offset _, _ | .loop offset _ _ _, _ | .define offset _ _ _, _ => offset
  | .done, .loop closes => closes
  | .done, .top | .done, .call _ => 0

def tokens (level : Level) : List Token :=
  level.body.tokens ++ level.closing

def remaining (level : Level) : List Token :=
  level.rest.tokens ++ level.closing

/-- How many statements of the body are done. -/
def index (level : Level) : Nat :=
  level.body.length - level.rest.length

/-- The operators from the start of the body to the current one. -/
def reached (level : Level) : List Token :=
  level.body.takeTokens level.index ++ level.current?.toList

def moveTo (index : Nat) (level : Level) : Level :=
  { level with rest := level.body.drop index }

def advance (level : Level) : Level :=
  { level with rest := level.rest.tail }

def restart (level : Level) : Level :=
  { level with rest := level.body }

theorem isOver_eq (level : Level) : level.isOver = level.current?.isNone := by
  obtain ⟨body, rest, entry⟩ := level
  cases rest <;> cases entry <;> rfl

theorem offset_of_current? {level : Level} {token : Token} (here : level.current? = some token) :
    level.offset = token.offset := by
  obtain ⟨body, rest, entry⟩ := level
  cases rest <;> cases entry <;> cases here <;> rfl

theorem head?_remaining (level : Level) : level.remaining.head? = level.current? := by
  simp [remaining, current?, List.head?_append, Block.head?_tokens]

end Level

/-- The active levels, innermost first, with their number. -/
structure Stack where
  inner : Level
  outer : List Level
  depth : Nat
  depth_eq : depth = outer.length + 1
  deriving DecidableEq

namespace Stack

def top (block : Block) : Stack :=
  ⟨.enter block .top, [], 1, rfl⟩

def levels (stack : Stack) : List Level :=
  stack.inner :: stack.outer

def push (level : Level) (stack : Stack) : Stack :=
  ⟨level, stack.inner :: stack.outer, stack.depth + 1, by simp [stack.depth_eq]⟩

/-- The stack without its innermost level. -/
def parent? : Stack → Option Stack
  | ⟨_, [], _, _⟩ => none
  | ⟨_, level :: outer, depth, depth_eq⟩ =>
    some ⟨level, outer, depth - 1, by simp only [List.length_cons] at depth_eq; omega⟩

def modify (change : Level → Level) (stack : Stack) : Stack :=
  { stack with inner := change stack.inner }

/-- Leaves the innermost level; the one around it goes on behind the statement
that opened it. -/
def leave? (stack : Stack) : Option Stack :=
  stack.parent?.map (modify Level.advance)

/-- The stack without its `count` innermost levels; the outermost one stays. -/
def unwind : Nat → Stack → Stack
  | 0, stack => stack
  | count + 1, stack =>
    match stack.parent? with
    | some parent => unwind count parent
    | none => stack

@[simp]
theorem length_levels (stack : Stack) : stack.levels.length = stack.depth := by
  simp [levels, stack.depth_eq]

@[simp]
theorem parent?_push (level : Level) (stack : Stack) : (stack.push level).parent? = some stack := rfl

@[simp]
theorem leave?_push (level : Level) (stack : Stack) :
    (stack.push level).leave? = some (stack.modify Level.advance) := rfl

/-- What every level had reached, innermost first. -/
def frames (stack : Stack) : List (List Token) :=
  stack.levels.map Level.reached

/-- As `frames`, when the innermost level was stopped before it reached anything. -/
def framesAbove (stack : Stack) : List (List Token) :=
  [] :: stack.outer.map Level.reached

end Stack

/-- Where a level was left for the level inside it: the statement, and the key
if that was a call. -/
structure Anchor where
  index : Nat
  key? : Option Nat
  deriving DecidableEq

/-- A place in a script that a run can be taken up at: the way in from the
outermost level, and the statement of the last level. -/
structure ResumePoint where
  offset : Nat
  path : List Anchor
  index : Nat
  deriving DecidableEq

namespace Stack

/-- The place the innermost level has come to. -/
def resumePoint (stack : Stack) : ResumePoint where
  offset := stack.inner.offset
  path := (List.zipWith (fun level inside => ⟨level.index, inside.key?⟩)
    stack.outer stack.levels).reverse
  index := stack.inner.index

/-- The level that the current statement of `level` opens. -/
def opened? (functions : FunctionTable Block) (key? : Option Nat) (level : Level) : Option Level :=
  match level.rest with
  | .loop _ body closes _ => some (.enter body (.loop closes))
  | .call _ _ => do
    let key ← key?
    let body ← functions.get? key
    return .enter body (.call key)
  | .done | .act _ _ _ | .define _ _ _ _ => none

/-- Enters the levels along a path, running nothing on the way. -/
def follow? (functions : FunctionTable Block) : List Anchor → Stack → Option Stack
  | [], stack => some stack
  | anchor :: path, stack => do
    let stack := stack.modify (Level.moveTo anchor.index)
    let level ← opened? functions anchor.key? stack.inner
    follow? functions path (stack.push level)

end Stack

/-- The stack that stands at the point, rebuilt from the script and the
functions defined so far. -/
def ResumePoint.stack? (point : ResumePoint) (block : Block) (functions : FunctionTable Block) :
    Option Stack :=
  ((Stack.top block).follow? functions point.path).map (Stack.modify (Level.moveTo point.index))

end TapeStepper
