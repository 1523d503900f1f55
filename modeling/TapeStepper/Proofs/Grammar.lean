import TapeStepper.Proofs.Tidy

namespace TapeStepper

/-- What may stand in a function: operators that are no brackets, and loops over the same. -/
inductive IsBody : List Operator → Prop
  | nil : IsBody []
  | act {rest} (action : Action) : IsBody rest → IsBody (.act action :: rest)
  | call {rest} : IsBody rest → IsBody (.call :: rest)
  | loop {inside rest} : IsBody inside → IsBody rest →
      IsBody (.loopStart :: (inside ++ .loopEnd :: rest))

/-- What may stand outside functions: the same, and functions with a body that is not empty. -/
inductive IsProgram : List Operator → Prop
  | nil : IsProgram []
  | act {rest} (action : Action) : IsProgram rest → IsProgram (.act action :: rest)
  | call {rest} : IsProgram rest → IsProgram (.call :: rest)
  | loop {inside rest} : IsProgram inside → IsProgram rest →
      IsProgram (.loopStart :: (inside ++ .loopEnd :: rest))
  | function {body rest} : IsBody body → body ≠ [] → IsProgram rest →
      IsProgram (.functionStart :: (body ++ .functionEnd :: rest))

@[simp]
theorem operators_cons (token : Token) (rest : List Token) :
    operators (token :: rest) = token.operator :: operators rest := rfl

@[simp]
theorem operators_append (first second : List Token) :
    operators (first ++ second) = operators first ++ operators second :=
  List.map_append

namespace Block

theorem tokens_ne_nil {block : Block} (nonempty : block ≠ done) : block.tokens ≠ [] := by
  cases block with
  | done => exact absurd rfl nonempty
  | act _ _ _ | call _ _ | loop _ _ _ _ | define _ _ _ _ => simp

theorem isBody_of_isPlain {block : Block} (plain : block.isPlain = true) :
    IsBody (operators block.tokens) := by
  induction block with
  | done => exact .nil
  | act offset action next ih => exact .act action (ih plain)
  | call offset next ih => exact .call (ih plain)
  | loop opens body closes next ihBody ihNext =>
    obtain ⟨inside, behind⟩ := Bool.and_eq_true_iff.mp plain
    have word := IsBody.loop (ihBody inside) (ihNext behind)
    simpa using word
  | define opens body closes next => cases plain

theorem Tidy.isProgram {block : Block} (tidy : block.Tidy) : IsProgram (operators block.tokens) := by
  induction block with
  | done => exact .nil
  | act offset action next ih => exact .act action (ih tidy)
  | call offset next ih => exact .call (ih tidy)
  | loop opens body closes next ihBody ihNext =>
    have word := IsProgram.loop (ihBody tidy.1) (ihNext tidy.2)
    simpa using word
  | define opens body closes next _ ihNext =>
    obtain ⟨plain, nonempty, behind⟩ := tidy
    have written : operators body.tokens ≠ [] := by
      simpa [operators] using tokens_ne_nil nonempty
    have word := IsProgram.function (isBody_of_isPlain plain) written (ihNext behind)
    simpa using word

end Block

/-- Operators that spell a bracketed word and what follows it, cut up into these parts. -/
theorem split_operators {given : List Token} {opening closing : Operator}
    {inside rest : List Operator}
    (spelled : operators given = opening :: (inside ++ closing :: rest)) :
    ∃ opens body closes next, given = ⟨opens, opening⟩ :: (body ++ ⟨closes, closing⟩ :: next) ∧
      operators body = inside ∧ operators next = rest := by
  obtain ⟨⟨opens, _⟩, behind, rfl, rfl, spelledBehind⟩ := List.map_eq_cons_iff.mp spelled
  obtain ⟨body, closed, rfl, spelledBody, spelledClosed⟩ := List.map_eq_append_iff.mp spelledBehind
  obtain ⟨⟨closes, _⟩, next, rfl, rfl, spelledNext⟩ := List.map_eq_cons_iff.mp spelledClosed
  exact ⟨opens, body, closes, next, rfl, spelledBody, spelledNext⟩

theorem IsBody.exists_block {word : List Operator} (isBody : IsBody word) {given : List Token}
    (spelled : operators given = word) :
    ∃ block : Block, block.isPlain = true ∧ block.tokens = given := by
  induction isBody generalizing given with
  | nil =>
    obtain rfl := List.map_eq_nil_iff.mp spelled
    exact ⟨.done, rfl, rfl⟩
  | act action _ ih =>
    obtain ⟨⟨offset, _⟩, behind, rfl, rfl, spelledBehind⟩ := List.map_eq_cons_iff.mp spelled
    obtain ⟨next, plain, rfl⟩ := ih spelledBehind
    exact ⟨.act offset action next, plain, rfl⟩
  | call _ ih =>
    obtain ⟨⟨offset, _⟩, behind, rfl, rfl, spelledBehind⟩ := List.map_eq_cons_iff.mp spelled
    obtain ⟨next, plain, rfl⟩ := ih spelledBehind
    exact ⟨.call offset next, plain, rfl⟩
  | loop _ _ ihInside ihRest =>
    obtain ⟨opens, body, closes, next, rfl, spelledBody, spelledNext⟩ := split_operators spelled
    obtain ⟨inner, plainInner, rfl⟩ := ihInside spelledBody
    obtain ⟨behind, plainBehind, rfl⟩ := ihRest spelledNext
    exact ⟨.loop opens inner closes behind, Bool.and_eq_true_iff.mpr ⟨plainInner, plainBehind⟩,
      Block.tokens_loop ..⟩

/-- A word of the grammar is spelled by statements. -/
theorem IsProgram.exists_block {word : List Operator} (isProgram : IsProgram word)
    {given : List Token} (spelled : operators given = word) :
    ∃ block : Block, block.Tidy ∧ block.tokens = given := by
  induction isProgram generalizing given with
  | nil =>
    obtain rfl := List.map_eq_nil_iff.mp spelled
    exact ⟨.done, trivial, rfl⟩
  | act action _ ih =>
    obtain ⟨⟨offset, _⟩, behind, rfl, rfl, spelledBehind⟩ := List.map_eq_cons_iff.mp spelled
    obtain ⟨next, tidy, rfl⟩ := ih spelledBehind
    exact ⟨.act offset action next, tidy, rfl⟩
  | call _ ih =>
    obtain ⟨⟨offset, _⟩, behind, rfl, rfl, spelledBehind⟩ := List.map_eq_cons_iff.mp spelled
    obtain ⟨next, tidy, rfl⟩ := ih spelledBehind
    exact ⟨.call offset next, tidy, rfl⟩
  | loop _ _ ihInside ihRest =>
    obtain ⟨opens, body, closes, next, rfl, spelledBody, spelledNext⟩ := split_operators spelled
    obtain ⟨inner, tidyInner, rfl⟩ := ihInside spelledBody
    obtain ⟨behind, tidyBehind, rfl⟩ := ihRest spelledNext
    exact ⟨.loop opens inner closes behind, ⟨tidyInner, tidyBehind⟩, Block.tokens_loop ..⟩
  | function isBody nonempty _ ihRest =>
    obtain ⟨opens, body, closes, next, rfl, spelledBody, spelledNext⟩ := split_operators spelled
    obtain ⟨inner, plain, rfl⟩ := isBody.exists_block spelledBody
    obtain ⟨behind, tidyBehind, rfl⟩ := ihRest spelledNext
    have filled : inner ≠ .done := by
      rintro rfl
      exact nonempty spelledBody.symm
    exact ⟨.define opens inner closes behind, ⟨plain, filled, tidyBehind⟩, Block.tokens_define ..⟩

/-- Each operator stands behind the one before it. -/
def Increasing (given : List Token) : Prop :=
  given.Pairwise fun first second => first.offset < second.offset

theorem le_offset_of_mem_tokensFrom {base : Nat} {source : Text} {token : Token}
    (member : token ∈ tokensFrom base source) : base ≤ token.offset := by
  induction source generalizing base with
  | nil => cases member
  | cons c rest ih =>
    unfold tokensFrom at member
    split at member
    · rcases List.mem_cons.mp member with rfl | later
      · exact Nat.le_refl base
      · have bound := ih later
        omega
    · have bound := ih member
      omega

theorem increasing_tokensFrom (base : Nat) (source : Text) : Increasing (tokensFrom base source) := by
  induction source generalizing base with
  | nil => exact .nil
  | cons c rest ih =>
    unfold tokensFrom
    split
    · refine .cons ?_ (ih (base + 1))
      intro later member
      have bound := le_offset_of_mem_tokensFrom member
      exact bound
    · exact ih (base + 1)

/-- The loops in `given` are closed in it, whatever is open around it. -/
def LoopsClose (given : List Token) : Prop :=
  ∀ height rest, (∀ outermost, loopFault? outermost height rest = none) →
    ∀ outermost, loopFault? outermost height (given ++ rest) = none

namespace LoopsClose

variable {first second : List Token}

theorem nil : LoopsClose [] :=
  fun _ _ sound => sound

theorem append (closed : LoopsClose first) (closedToo : LoopsClose second) :
    LoopsClose (first ++ second) := by
  intro height rest sound outermost
  rw [List.append_assoc]
  exact closed height _ (closedToo height rest sound) outermost

theorem single {token : Token} (simple : token.operator.isBracket = false) :
    LoopsClose [token] := by
  intro height rest sound outermost
  obtain ⟨offset, operator⟩ := token
  cases operator with
  | act action => exact sound outermost
  | call => exact sound outermost
  | loopStart | loopEnd | functionStart | functionEnd => cases simple

theorem loop (closed : LoopsClose first) (opens closes : Nat) :
    LoopsClose (⟨opens, .loopStart⟩ :: (first ++ [⟨closes, .loopEnd⟩])) := by
  intro height rest sound outermost
  have ended : ∀ outermost, loopFault? outermost (height + 1) (⟨closes, .loopEnd⟩ :: rest) = none := by
    intro outermost
    simpa [loopFault?] using sound outermost
  have within := closed (height + 1) _ ended
  simpa [loopFault?] using within _

theorem loopFault?_eq_none (closed : LoopsClose first) : loopFault? 0 0 first = none := by
  have sound := closed 0 [] (fun _ => rfl) 0
  rwa [List.append_nil] at sound

end LoopsClose

theorem Block.loopsClose_of_isPlain {block : Block} (plain : block.isPlain = true) :
    LoopsClose block.tokens := by
  induction block with
  | done => exact .nil
  | act offset action next ih => exact (LoopsClose.single rfl).append (ih plain)
  | call offset next ih => exact (LoopsClose.single rfl).append (ih plain)
  | loop opens body closes next ihBody ihNext =>
    obtain ⟨inside, behind⟩ := Bool.and_eq_true_iff.mp plain
    have closed := ((ihBody inside).loop opens closes).append (ihNext behind)
    simpa using closed
  | define opens body closes next => cases plain

theorem Block.isParen_of_isPlain {block : Block} (plain : block.isPlain = true) :
    ∀ token ∈ block.tokens, token.operator.isParen = false := by
  induction block with
  | done => simp
  | act offset action next ih => simpa [Operator.isParen] using ih plain
  | call offset next ih => simpa [Operator.isParen] using ih plain
  | loop opens body closes next ihBody ihNext =>
    obtain ⟨inside, behind⟩ := Bool.and_eq_true_iff.mp plain
    intro token member
    simp only [tokens_loop, List.mem_cons, List.mem_append] at member
    rcases member with rfl | within | rfl | later
    · rfl
    · exact ihBody inside token within
    · rfl
    · exact ihNext behind token later
  | define opens body closes next => cases plain

namespace Outline

theorem read_cons (token : Token) (plain : token.operator.isParen = false)
    {rest : List Token} {behind : Outline} (read : Outline.read none rest = .ok behind) :
    Outline.read none (token :: rest) = .ok ⟨behind.definitions, token :: behind.top⟩ := by
  obtain ⟨offset, operator⟩ := token
  cases operator with
  | functionStart | functionEnd => cases plain
  | act _ | call | loopStart | loopEnd =>
    simp only [Outline.read, read]
    rfl

theorem read_body {inside : List Token} (plain : ∀ token ∈ inside, token.operator.isParen = false)
    {rest : List Token} {behind : Outline} (read : Outline.read none rest = .ok behind)
    (opens closes : Nat) (body : List Token) :
    Outline.read (some (opens, body)) (inside ++ ⟨closes, .functionEnd⟩ :: rest) =
      .ok ⟨⟨opens, body.reverse ++ inside, closes⟩ :: behind.definitions, behind.top⟩ := by
  induction inside generalizing body with
  | nil =>
    simp only [List.nil_append, List.append_nil, Outline.read, read]
    rfl
  | cons token inside ih =>
    have first := plain token (List.mem_cons_self ..)
    have onward := ih (fun other member => plain other (List.mem_cons_of_mem _ member)) (token :: body)
    have step : Outline.read (some (opens, body)) (token :: (inside ++ ⟨closes, .functionEnd⟩ :: rest)) =
        Outline.read (some (opens, token :: body)) (inside ++ ⟨closes, .functionEnd⟩ :: rest) := by
      obtain ⟨offset, operator⟩ := token
      cases operator with
      | functionStart | functionEnd => cases first
      | act _ | call | loopStart | loopEnd => rfl
    rw [List.cons_append, step, onward]
    simp

/-- The outline has these definitions and operators in front, and all is in order with them. -/
structure Extends (behind outline : Outline) : Prop where
  definitions : ∃ added, outline.definitions = added ++ behind.definitions ∧
    ∀ definition ∈ added, definition.isBare = false ∧ definition.fault? = none
  top : ∃ added, outline.top = added ++ behind.top ∧ LoopsClose added

namespace Extends

variable {behind middle outline : Outline}

theorem refl (outline : Outline) : Extends outline outline :=
  ⟨⟨[], rfl, nofun⟩, [], rfl, .nil⟩

theorem trans (first : Extends behind middle) (second : Extends middle outline) :
    Extends behind outline := by
  obtain ⟨⟨defined, sameDefined, sound⟩, top, sameTop, closed⟩ := first
  obtain ⟨⟨definedToo, sameDefinedToo, soundToo⟩, topToo, sameTopToo, closedToo⟩ := second
  refine ⟨⟨definedToo ++ defined, ?_, ?_⟩, topToo ++ top, ?_, closedToo.append closed⟩
  · rw [sameDefinedToo, sameDefined, List.append_assoc]
  · intro definition member
    rcases List.mem_append.mp member with new | old
    · exact soundToo definition new
    · exact sound definition old
  · rw [sameTopToo, sameTop, List.append_assoc]

theorem simple {token : Token} (simple : token.operator.isBracket = false) (outline : Outline) :
    Extends outline ⟨outline.definitions, token :: outline.top⟩ :=
  ⟨⟨[], rfl, nofun⟩, [token], rfl, .single simple⟩

theorem define {definition : Definition} (filled : definition.isBare = false)
    (sound : definition.fault? = none) (outline : Outline) :
    Extends outline ⟨definition :: outline.definitions, outline.top⟩ := by
  refine ⟨⟨[definition], rfl, ?_⟩, [], rfl, .nil⟩
  intro other member
  obtain rfl := List.mem_singleton.mp member
  exact ⟨filled, sound⟩

theorem loop (opens : Nat) {closes : Nat}
    (inside : Extends ⟨behind.definitions, ⟨closes, .loopEnd⟩ :: behind.top⟩ middle) :
    Extends behind ⟨middle.definitions, ⟨opens, .loopStart⟩ :: middle.top⟩ := by
  obtain ⟨defined, top, sameTop, closed⟩ := inside
  refine ⟨defined, ⟨opens, .loopStart⟩ :: (top ++ [⟨closes, .loopEnd⟩]), ?_, closed.loop opens closes⟩
  simp [sameTop]

theorem fault? (ordered : Extends ⟨[], []⟩ outline) : outline.fault? = none := by
  obtain ⟨⟨defined, sameDefined, sound⟩, top, sameTop, closed⟩ := ordered
  simp only [List.append_nil] at sameDefined sameTop
  have bare : outline.definitions.find? Definition.isBare = none := by
    rw [List.find?_eq_none, sameDefined]
    intro definition member
    simp [(sound definition member).1]
  have bodies : outline.definitions.findSome? Definition.fault? = none := by
    rw [List.findSome?_eq_none_iff, sameDefined]
    exact fun definition member => (sound definition member).2
  unfold Outline.fault?
  rw [bare, bodies, sameTop, closed.loopFault?_eq_none]
  rfl

end Extends

end Outline

/-- A function that is not empty is not bare, since its operators stand between its parentheses. -/
theorem Definition.isBare_eq_false {opens closes : Nat} {body rest : List Token} (filled : body ≠ [])
    (increasing : Increasing (⟨opens, .functionStart⟩ :: (body ++ ⟨closes, .functionEnd⟩ :: rest))) :
    (Definition.mk opens body closes).isBare = false := by
  obtain ⟨token, member⟩ := List.exists_mem_of_ne_nil body filled
  obtain ⟨behindOpening, apart⟩ := List.pairwise_cons.mp increasing
  have after : opens < token.offset := behindOpening token (List.mem_append_left _ member)
  have before : token.offset < closes :=
    (List.pairwise_append.mp apart).2.2 token member _ (List.mem_cons_self ..)
  have distant : closes ≠ opens + 1 := by omega
  simpa [Definition.isBare] using distant

theorem Definition.fault?_eq_none {body : Block} (plain : body.isPlain = true)
    (filled : body ≠ .done) (opens closes : Nat) : (Definition.mk opens body.tokens closes).fault? = none := by
  have written : ¬ body.tokens.isEmpty = true := by
    simpa using Block.tokens_ne_nil filled
  unfold Definition.fault?
  rw [if_neg written]
  exact (Block.loopsClose_of_isPlain plain).loopFault?_eq_none

/-- The outline of statements in front of operators that have one. -/
theorem Block.Tidy.exists_outline {block : Block} (tidy : block.Tidy)
    (increasing : Increasing block.tokens) {rest : List Token} {behind : Outline}
    (read : Outline.read none rest = .ok behind) :
    ∃ outline, Outline.read none (block.tokens ++ rest) = .ok outline ∧ behind.Extends outline := by
  induction block generalizing rest behind with
  | done => exact ⟨behind, read, .refl behind⟩
  | act offset action next ih =>
    obtain ⟨outline, readNext, extended⟩ := ih tidy increasing.of_cons read
    exact ⟨_, Outline.read_cons _ rfl readNext, extended.trans (.simple rfl outline)⟩
  | call offset next ih =>
    obtain ⟨outline, readNext, extended⟩ := ih tidy increasing.of_cons read
    exact ⟨_, Outline.read_cons _ rfl readNext, extended.trans (.simple rfl outline)⟩
  | loop opens body closes next ihBody ihNext =>
    rw [tokens_loop] at increasing ⊢
    have parts := List.pairwise_append.mp increasing.of_cons
    obtain ⟨middle, readNext, extendedNext⟩ := ihNext tidy.2 parts.2.1.of_cons read
    have readEnd := Outline.read_cons ⟨closes, .loopEnd⟩ rfl readNext
    obtain ⟨inner, readBody, extendedBody⟩ := ihBody tidy.1 parts.1 readEnd
    have readStart := Outline.read_cons ⟨opens, .loopStart⟩ rfl readBody
    refine ⟨_, ?_, extendedNext.trans (extendedBody.loop opens)⟩
    simpa using readStart
  | define opens body closes next _ ihNext =>
    obtain ⟨plain, filled, tidyNext⟩ := tidy
    rw [tokens_define] at increasing ⊢
    have parts := List.pairwise_append.mp increasing.of_cons
    obtain ⟨outline, readNext, extended⟩ := ihNext tidyNext parts.2.1.of_cons read
    have readBody := Outline.read_body (isParen_of_isPlain plain) readNext opens closes []
    have bare := Definition.isBare_eq_false (tokens_ne_nil filled) increasing
    have sound := Definition.fault?_eq_none plain filled opens closes
    refine ⟨_, ?_, extended.trans (.define bare sound outline)⟩
    simpa [Outline.read] using readBody

theorem Block.Tidy.bracketFault? {block : Block} (tidy : block.Tidy)
    (increasing : Increasing block.tokens) : bracketFault? block.tokens = none := by
  have nothing : Outline.read none [] = .ok ⟨[], []⟩ := rfl
  obtain ⟨outline, read, extended⟩ := tidy.exists_outline increasing nothing
  rw [List.append_nil] at read
  unfold TapeStepper.bracketFault? Outline.ofTokens
  rw [read]
  exact extended.fault?

/-- The brackets of operators in the order of a script are right exactly if the operators are a word
of the grammar. -/
theorem bracketFault?_eq_none_iff {given : List Token} (increasing : Increasing given) :
    bracketFault? given = none ↔ IsProgram (operators given) := by
  constructor
  · intro sound
    obtain ⟨block, found⟩ := Block.exists_ofTokens?_of_bracketFault? sound
    have isProgram := (Block.tidy_of_ofTokens? found).isProgram
    rwa [Block.tokens_ofTokens? found] at isProgram
  · intro isProgram
    obtain ⟨block, tidy, rfl⟩ := isProgram.exists_block rfl
    exact tidy.bracketFault? increasing

section Functions

/-- Two ways to cut a word at different operators: one cut is before the other. -/
theorem cut_cases {first second front back : List Operator} {here there : Operator}
    (distinct : here ≠ there) (same : first ++ here :: second = front ++ there :: back) :
    (∃ between, front = first ++ here :: between ∧ second = between ++ there :: back) ∨
      ∃ between, first = front ++ there :: between ∧ back = between ++ here :: second := by
  rcases List.append_eq_append_iff.mp same with ⟨rest, rfl, cut⟩ | ⟨rest, rfl, cut⟩
  · cases rest with
    | nil =>
      have clash : here = there := (List.cons.inj cut).1
      exact absurd clash distinct
    | cons operator between =>
      obtain ⟨rfl, rfl⟩ := List.cons.inj cut
      exact .inl ⟨between, rfl, rfl⟩
  · cases rest with
    | nil =>
      have clash : there = here := (List.cons.inj cut).1
      exact absurd clash.symm distinct
    | cons operator between =>
      obtain ⟨rfl, rfl⟩ := List.cons.inj cut
      exact .inr ⟨between, rfl, rfl⟩

/-- The same for a cut that is not at the first operator. -/
theorem cut_behind {first there : Operator} {second front back : List Operator}
    (distinct : first ≠ there) (same : first :: second = front ++ there :: back) :
    ∃ between, second = between ++ there :: back := by
  rcases List.cons_eq_append_iff.mp same with ⟨_, clash⟩ | ⟨between, _, cut⟩
  · exact absurd (List.cons.inj clash).1.symm distinct
  · exact ⟨between, cut⟩

variable {word : List Operator}

theorem IsBody.isParen_eq_false (isBody : IsBody word) : ∀ operator ∈ word, operator.isParen = false := by
  have written : operators (word.map (Token.mk 0)) = word := by
    simp [operators, Function.comp_def]
  obtain ⟨block, plain, spelled⟩ := isBody.exists_block written
  have plains := Block.isParen_of_isPlain plain
  rw [spelled] at plains
  simpa using plains

theorem IsBody.functionEnd_notMem (isBody : IsBody word) : .functionEnd ∉ word := by
  intro member
  cases isBody.isParen_eq_false _ member

/-- A word is cut at its first `)` in one way. -/
theorem eq_of_append_functionEnd {second front back : List Operator} (first : .functionEnd ∉ word)
    (firstToo : .functionEnd ∉ front)
    (same : word ++ .functionEnd :: second = front ++ .functionEnd :: back) : word = front := by
  rcases List.append_eq_append_iff.mp same with ⟨rest, rfl, ends⟩ | ⟨rest, rfl, ends⟩
  · rcases List.cons_eq_append_iff.mp ends with ⟨rfl, _⟩ | ⟨_, rfl, _⟩
    · simp
    · simp at firstToo
  · rcases List.cons_eq_append_iff.mp ends with ⟨rfl, _⟩ | ⟨_, rfl, _⟩
    · simp
    · simp at first

/-- Every `(` of a program is closed in it. -/
theorem IsProgram.functionEnd_mem (isProgram : IsProgram word) {front rest : List Operator}
    (cut : word = front ++ .functionStart :: rest) : .functionEnd ∈ rest := by
  induction isProgram generalizing front rest with
  | nil => simp at cut
  | act action _ ih =>
    obtain ⟨between, later⟩ := cut_behind (by simp) cut
    exact ih later
  | call _ ih =>
    obtain ⟨between, later⟩ := cut_behind (by simp) cut
    exact ih later
  | loop _ _ ihInside ihRest =>
    obtain ⟨between, later⟩ := cut_behind (by simp) cut
    rcases cut_cases (by simp) later with ⟨_, _, behind⟩ | ⟨_, within, rfl⟩
    · exact ihRest behind
    · exact List.mem_append_left _ (ihInside within)
  | function isBody nonempty _ ihRest =>
    rcases List.cons_eq_append_iff.mp cut with ⟨_, first⟩ | ⟨between, _, later⟩
    · rw [(List.cons.inj first).2]
      simp
    · rcases cut_cases (by simp) later with ⟨_, _, behind⟩ | ⟨_, rfl, _⟩
      · exact ihRest behind
      · have clash := isBody.isParen_eq_false .functionStart (by simp)
        cases clash

/-- What stands between a `(` of a program and the next `)` is the body of a function, so that
functions do not nest and no loop is open across a parenthesis. -/
theorem IsProgram.isBody_between (isProgram : IsProgram word) {front inside back : List Operator}
    (cut : word = front ++ .functionStart :: (inside ++ .functionEnd :: back))
    (next : .functionEnd ∉ inside) : IsBody inside ∧ inside ≠ [] := by
  induction isProgram generalizing front back with
  | nil => simp at cut
  | act action _ ih =>
    obtain ⟨between, later⟩ := cut_behind (by simp) cut
    exact ih later
  | call _ ih =>
    obtain ⟨between, later⟩ := cut_behind (by simp) cut
    exact ih later
  | loop around _ ihInside ihRest =>
    obtain ⟨between, later⟩ := cut_behind (by simp) cut
    rcases cut_cases (by simp) later with ⟨_, _, behind⟩ | ⟨start, within, crossing⟩
    · exact ihRest behind
    · -- The loop is closed behind the `)`, since the `(` inside it has a partner there.
      rcases cut_cases (by simp) crossing.symm with ⟨_, rfl, _⟩ | ⟨_, rfl, _⟩
      · have closed := around.functionEnd_mem within
        exact absurd (List.mem_append_left _ closed) next
      · exact ihInside within
  | function isBody nonempty _ ihRest =>
    rcases List.cons_eq_append_iff.mp cut with ⟨_, first⟩ | ⟨between, _, later⟩
    · have same := (List.cons.inj first).2
      obtain rfl := eq_of_append_functionEnd isBody.functionEnd_notMem next same.symm
      exact ⟨isBody, nonempty⟩
    · rcases cut_cases (by simp) later with ⟨_, _, behind⟩ | ⟨_, rfl, _⟩
      · exact ihRest behind
      · have clash := isBody.isParen_eq_false .functionStart (by simp)
        cases clash

end Functions

theorem valid_iff_isProgram (source : Text) :
    (bracketReport source).valid = true ↔ IsProgram (operators (tokens source)) :=
  valid_bracketReport_iff.trans (bracketFault?_eq_none_iff (increasing_tokensFrom 0 source))

theorem operators_tokensFrom (base : Nat) (source : Text) :
    operators (tokensFrom base source) = source.filterMap Operator.ofChar? := by
  induction source generalizing base with
  | nil => rfl
  | cons c rest ih =>
    unfold tokensFrom
    cases read : Operator.ofChar? c with
    | none => simp [read, ih]
    | some operator => simp [read, ih]

theorem filterMap_ofChar?_of_comment {comment : Text} (noCode : hasCode comment = false) :
    comment.filterMap Operator.ofChar? = [] := by
  simpa [hasCode, List.filterMap_eq_nil_iff] using noCode

/-- The brackets of a script are reported to be in order exactly if its operators are a word of the
grammar, whatever comments stand between them. Loops may hold functions: one can be put around any
such script. What stands between a `(` and the next `)` is not empty and closed in itself, so
functions do not nest and no loop crosses a parenthesis. Comments alone are no body. -/
theorem accepted_iff_isProgram (source : Text) :
    ((bracketReport source).valid = true ↔ IsProgram (operators (tokens source))) ∧
    ((bracketReport source).valid = true →
      (bracketReport ('[' :: (source ++ [']']))).valid = true ∧
      (∀ front inside back, operators (tokens source) =
          front ++ .functionStart :: (inside ++ .functionEnd :: back) →
        .functionEnd ∉ inside → IsBody inside ∧ inside ≠ []) ∧
      ∀ front comment back, source = front ++ '(' :: (comment ++ ')' :: back) →
        hasCode comment = true) := by
  refine ⟨valid_iff_isProgram source, fun valid => ?_⟩
  have isProgram := (valid_iff_isProgram source).mp valid
  refine ⟨(valid_iff_isProgram _).mpr ?_, ?_, ?_⟩
  · have enclosed := IsProgram.loop isProgram .nil
    simpa [tokens, operators_tokensFrom, Operator.ofChar?] using enclosed
  · intro front inside back cut next
    exact isProgram.isBody_between cut next
  · intro front comment back cut
    cases code : hasCode comment with
    | true => rfl
    | false =>
      have nothing := filterMap_ofChar?_of_comment code
      have bare : operators (tokens source) = front.filterMap Operator.ofChar? ++
          .functionStart :: ([] ++ .functionEnd :: back.filterMap Operator.ofChar?) := by
        simp [cut, tokens, operators_tokensFrom, Operator.ofChar?, nothing]
      exact absurd rfl (isProgram.isBody_between bare List.not_mem_nil).2

/-- A function inside a loop, with a loop and comments of its own. -/
theorem accepted_iff_isProgram_nested :
    IsProgram (operators (tokens "[ ( + [-] ) : ]".toList)) ∧
      IsBody [.act .plus, .loopStart, .act .minus, .loopEnd] ∧
      (bracketReport "[[ ( + [-] ) : ]]".toList).valid = true := by
  have accepted := accepted_iff_isProgram "[ ( + [-] ) : ]".toList
  have valid : (bracketReport "[ ( + [-] ) : ]".toList).valid = true := by decide
  have inside := (accepted.2 valid).2.1 [.loopStart]
    [.act .plus, .loopStart, .act .minus, .loopEnd] [.call, .loopEnd] (by decide) (by decide)
  exact ⟨accepted.1.mp valid, inside.1, (accepted.2 valid).1⟩

end TapeStepper
