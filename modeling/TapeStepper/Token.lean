import TapeStepper.Operator

namespace TapeStepper

/-- An operator together with the index of its character in the script. -/
structure Token where
  offset : Nat
  operator : Operator
  deriving DecidableEq

namespace Token

/-- The operator and its place, as in `+@2`. -/
def text (token : Token) : Text :=
  token.operator.symbol :: '@' :: (toString token.offset).toList

end Token

/-- The operators of `text`, whose first character has offset `base`. -/
def tokensFrom (base : Nat) : Text → List Token
  | [] => []
  | c :: rest =>
    match Operator.ofChar? c with
    | some operator => ⟨base, operator⟩ :: tokensFrom (base + 1) rest
    | none => tokensFrom (base + 1) rest

def tokens (source : Text) : List Token :=
  tokensFrom 0 source

def operators (tokens : List Token) : List Operator :=
  tokens.map Token.operator

/-- Whether the script has any operator at all. -/
def hasCode (source : Text) : Bool :=
  source.any fun c => (Operator.ofChar? c).isSome

theorem tokensFrom_append (base : Nat) (first second : Text) :
    tokensFrom base (first ++ second) =
      tokensFrom base first ++ tokensFrom (base + first.length) second := by
  induction first generalizing base with
  | nil => simp [tokensFrom]
  | cons c rest ih =>
    have shift : base + 1 + rest.length = base + (rest.length + 1) := by omega
    cases read : Operator.ofChar? c <;> simp [tokensFrom, read, ih, shift]

end TapeStepper
