import TapeStepper.Token

namespace TapeStepper

/-- A script as a sequence of statements, each with the offsets of its
operators. Loops and definitions hold a sequence of their own. -/
inductive Block
  | done
  | act (offset : Nat) (action : Action) (next : Block)
  | call (offset : Nat) (next : Block)
  | loop (opens : Nat) (body : Block) (closes : Nat) (next : Block)
  | define (opens : Nat) (body : Block) (closes : Nat) (next : Block)
  deriving DecidableEq

namespace Block

/-- The operators of the block in the order of the script, followed by `rest`. -/
def tokensOnto (rest : List Token) : Block → List Token
  | done => rest
  | act offset action next => ⟨offset, .act action⟩ :: tokensOnto rest next
  | call offset next => ⟨offset, .call⟩ :: tokensOnto rest next
  | loop opens body closes next =>
    ⟨opens, .loopStart⟩ :: tokensOnto (⟨closes, .loopEnd⟩ :: tokensOnto rest next) body
  | define opens body closes next =>
    ⟨opens, .functionStart⟩ :: tokensOnto (⟨closes, .functionEnd⟩ :: tokensOnto rest next) body

def tokens (block : Block) : List Token :=
  block.tokensOnto []

/-- How many statements the sequence has, not counting those inside others. -/
def length : Block → Nat
  | done => 0
  | act _ _ next | call _ next | loop _ _ _ next | define _ _ _ next => next.length + 1

/-- The sequence without its first statement. -/
def tail : Block → Block
  | done => done
  | act _ _ next | call _ next | loop _ _ _ next | define _ _ _ next => next

def drop : Nat → Block → Block
  | 0, block => block
  | count + 1, block => drop count block.tail

/-- The operators of the first `count` statements. -/
def takeTokens : Nat → Block → List Token
  | 0, _ => []
  | _ + 1, done => []
  | count + 1, act offset action next => ⟨offset, .act action⟩ :: takeTokens count next
  | count + 1, call offset next => ⟨offset, .call⟩ :: takeTokens count next
  | count + 1, loop opens body closes next =>
    ⟨opens, .loopStart⟩ :: body.tokensOnto (⟨closes, .loopEnd⟩ :: takeTokens count next)
  | count + 1, define opens body closes next =>
    ⟨opens, .functionStart⟩ :: body.tokensOnto (⟨closes, .functionEnd⟩ :: takeTokens count next)

/-- The first operator that a run of the block comes to. -/
def first? : Block → Option Token
  | done => none
  | act offset action _ => some ⟨offset, .act action⟩
  | call offset _ => some ⟨offset, .call⟩
  | loop opens _ _ _ => some ⟨opens, .loopStart⟩
  | define opens _ _ _ => some ⟨opens, .functionStart⟩

theorem tokensOnto_eq (rest : List Token) (block : Block) :
    block.tokensOnto rest = block.tokens ++ rest := by
  unfold tokens
  induction block generalizing rest with
  | done => simp [tokensOnto]
  | act offset action next ih => rw [tokensOnto, tokensOnto, ih rest, List.cons_append]
  | call offset next ih => rw [tokensOnto, tokensOnto, ih rest, List.cons_append]
  | loop opens body closes next ihBody ihNext | define opens body closes next ihBody ihNext =>
    rw [tokensOnto, tokensOnto, ihBody, ihBody (_ :: tokensOnto [] next), ihNext rest]
    simp

@[simp]
theorem tokens_done : done.tokens = [] := rfl

@[simp]
theorem tokens_act (offset : Nat) (action : Action) (next : Block) :
    (act offset action next).tokens = ⟨offset, .act action⟩ :: next.tokens := rfl

@[simp]
theorem tokens_call (offset : Nat) (next : Block) :
    (call offset next).tokens = ⟨offset, .call⟩ :: next.tokens := rfl

@[simp]
theorem tokens_loop (opens : Nat) (body : Block) (closes : Nat) (next : Block) :
    (loop opens body closes next).tokens =
      ⟨opens, .loopStart⟩ :: (body.tokens ++ ⟨closes, .loopEnd⟩ :: next.tokens) := by
  simp only [tokens, tokensOnto]
  rw [tokensOnto_eq, tokens]

@[simp]
theorem tokens_define (opens : Nat) (body : Block) (closes : Nat) (next : Block) :
    (define opens body closes next).tokens =
      ⟨opens, .functionStart⟩ :: (body.tokens ++ ⟨closes, .functionEnd⟩ :: next.tokens) := by
  simp only [tokens, tokensOnto]
  rw [tokensOnto_eq, tokens]

theorem takeTokens_append_drop (count : Nat) (block : Block) :
    block.takeTokens count ++ (block.drop count).tokens = block.tokens := by
  induction count generalizing block with
  | zero => rfl
  | succ count ih =>
    cases block with
    | done =>
      have nothing := List.append_eq_nil_iff.mp (ih done)
      simpa [takeTokens, drop, tail] using nothing.2
    | act offset action next => simp [takeTokens, drop, tail, ih]
    | call offset next => simp [takeTokens, drop, tail, ih]
    | loop opens body closes next => simp [takeTokens, drop, tail, ih, tokensOnto_eq]
    | define opens body closes next => simp [takeTokens, drop, tail, ih, tokensOnto_eq]

theorem head?_tokens (block : Block) : block.tokens.head? = block.first? := by
  cases block <;> simp [first?]

end Block

/-- A closing operator whose opening one is still to come when a script is
read from its end, with the statements that follow it. -/
structure Closer where
  token : Token
  next : Block

/-- A script read from its end: the statements read so far in the innermost
open body, and the bodies around it. -/
structure Assembly where
  block : Block
  closers : List Closer

namespace Assembly

def empty : Assembly :=
  ⟨.done, []⟩

def inFunction (assembly : Assembly) : Bool :=
  assembly.closers.any fun closer => closer.token.operator == .functionEnd

/-- Takes one more operator in front. Functions are not nested and their
bodies are not empty. -/
def add? (token : Token) (assembly : Assembly) : Option Assembly :=
  match token.operator with
  | .act action => some { assembly with block := .act token.offset action assembly.block }
  | .call => some { assembly with block := .call token.offset assembly.block }
  | .loopEnd => some ⟨.done, ⟨token, assembly.block⟩ :: assembly.closers⟩
  | .functionEnd =>
    if assembly.inFunction then none
    else some ⟨.done, ⟨token, assembly.block⟩ :: assembly.closers⟩
  | .loopStart =>
    match assembly.closers with
    | ⟨⟨closes, .loopEnd⟩, next⟩ :: closers =>
      some ⟨.loop token.offset assembly.block closes next, closers⟩
    | _ => none
  | .functionStart =>
    match assembly.closers, assembly.block with
    | _, .done => none
    | ⟨⟨closes, .functionEnd⟩, next⟩ :: closers, body =>
      some ⟨.define token.offset body closes next, closers⟩
    | _, _ => none

def ofTokens? (tokens : List Token) : Option Assembly :=
  tokens.foldr (fun token assembly => assembly.bind (add? token)) (some empty)

/-- The operators read so far. -/
def tokens (assembly : Assembly) : List Token :=
  assembly.block.tokens ++ assembly.closers.flatMap fun closer => closer.token :: closer.next.tokens

theorem tokens_add? {token : Token} {assembly longer : Assembly}
    (step : assembly.add? token = some longer) : longer.tokens = token :: assembly.tokens := by
  obtain ⟨offset, operator⟩ := token
  obtain ⟨block, closers⟩ := assembly
  unfold add? at step
  split at step
  · rename_i action same
    cases step
    cases same
    simp [tokens]
  · rename_i same
    cases step
    cases same
    simp [tokens]
  · cases step
    simp [tokens]
  · split at step
    · cases step
    · cases step
      simp [tokens]
  · rename_i same
    split at step
    · rename_i waiting
      cases step
      cases same
      simp only at waiting
      subst waiting
      simp [tokens]
    · cases step
  · rename_i same
    split at step
    · cases step
    · rename_i waiting _
      cases step
      cases same
      simp only at waiting
      subst waiting
      simp [tokens]
    · cases step

theorem tokens_ofTokens? {given : List Token} {assembly : Assembly}
    (read : ofTokens? given = some assembly) : assembly.tokens = given := by
  induction given generalizing assembly with
  | nil =>
    cases read
    rfl
  | cons token rest ih =>
    obtain ⟨shorter, before, step⟩ := Option.bind_eq_some_iff.mp read
    rw [tokens_add? step, ih before]

end Assembly

/-- The statements that a sequence of operators spells, if its brackets match. -/
def Block.ofTokens? (tokens : List Token) : Option Block :=
  match Assembly.ofTokens? tokens with
  | some ⟨block, []⟩ => some block
  | _ => none

/-- Reading loses nothing: the statements spell the operators they were read from. -/
theorem Block.tokens_ofTokens? {given : List Token} {block : Block}
    (read : ofTokens? given = some block) : block.tokens = given := by
  unfold ofTokens? at read
  split at read
  · rename_i assembled
    cases read
    simpa [Assembly.tokens] using Assembly.tokens_ofTokens? assembled
  · cases read

end TapeStepper
