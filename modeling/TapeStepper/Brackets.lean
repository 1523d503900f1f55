import TapeStepper.Token

namespace TapeStepper

/-- A function definition as it stands in the script. -/
structure Definition where
  opens : Nat
  body : List Token
  closes : Nat

/-- The definitions of a script, and its other operators. -/
structure Outline where
  definitions : List Definition
  top : List Token

namespace Outline

/-- Reads on with the function whose `(` was met, and its body so far, last
operator first. The error is the offset of the parenthesis without a partner
or inside another function. -/
def read (opened : Option (Nat × List Token)) : List Token → Except Nat Outline
  | [] =>
    match opened with
    | some (opens, _) => .error opens
    | none => .ok ⟨[], []⟩
  | token :: rest =>
    match opened, token.operator with
    | some _, .functionStart => .error token.offset
    | none, .functionStart => read (some (token.offset, [])) rest
    | some (opens, body), .functionEnd => do
      let outline ← read none rest
      return { outline with
        definitions := ⟨opens, body.reverse, token.offset⟩ :: outline.definitions }
    | none, .functionEnd => .error token.offset
    | some (opens, body), _ => read (some (opens, token :: body)) rest
    | none, _ => do
      let outline ← read none rest
      return { outline with top := token :: outline.top }

def ofTokens (tokens : List Token) : Except Nat Outline :=
  read none tokens

end Outline

/-- The first `]` that closes nothing, or else the outermost `[` that is never
closed. `outermost` is the `[` that raised `height` from zero. -/
def loopFault? (outermost height : Nat) : List Token → Option Nat
  | [] => if height = 0 then none else some outermost
  | token :: rest =>
    match token.operator with
    | .loopStart => loopFault? (if height = 0 then token.offset else outermost) (height + 1) rest
    | .loopEnd => if height = 0 then some token.offset else loopFault? outermost (height - 1) rest
    | _ => loopFault? outermost height rest

namespace Definition

/-- A `()` with nothing between, not even a comment. -/
def isBare (definition : Definition) : Bool :=
  definition.closes == definition.opens + 1

def fault? (definition : Definition) : Option Nat :=
  if definition.body.isEmpty then some definition.closes else loopFault? 0 0 definition.body

end Definition

namespace Outline

def fault? (outline : Outline) : Option Nat :=
  ((outline.definitions.find? Definition.isBare).map Definition.closes).or
    ((outline.definitions.findSome? Definition.fault?).or (loopFault? 0 0 outline.top))

end Outline

/-- Where the brackets of a script go wrong, if they do: parentheses first, then
bare `()`, then every function body, then the operators outside functions. -/
def bracketFault? (tokens : List Token) : Option Nat :=
  match Outline.ofTokens tokens with
  | .error offset => some offset
  | .ok outline => outline.fault?

/-- What is told of the brackets of a script. The offset is 0 when they are in order. -/
structure BracketReport where
  valid : Bool
  errorOffset : Nat
  deriving DecidableEq

def bracketReport (source : Text) : BracketReport :=
  match bracketFault? (tokens source) with
  | none => ⟨true, 0⟩
  | some offset => ⟨false, offset⟩

theorem bracketReport_of_sound {source : Text} (sound : bracketFault? (tokens source) = none) :
    bracketReport source = ⟨true, 0⟩ := by
  rw [bracketReport, sound]

theorem bracketReport_of_fault {source : Text} {offset : Nat}
    (fault : bracketFault? (tokens source) = some offset) : bracketReport source = ⟨false, offset⟩ := by
  rw [bracketReport, fault]

theorem valid_bracketReport_iff {source : Text} :
    (bracketReport source).valid = true ↔ bracketFault? (tokens source) = none := by
  cases fault : bracketFault? (tokens source) with
  | none => simp [bracketReport_of_sound fault]
  | some offset => simp [bracketReport_of_fault fault]

end TapeStepper
