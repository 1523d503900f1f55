import TapeStepper.Script

namespace TapeStepper

/-- What may follow the statements of a body: nothing, or the operator that closes it. -/
def ClosedBy (rest : List Token) : Prop :=
  ∀ token ∈ rest.head?, token.operator = .loopEnd ∨ token.operator = .functionEnd

namespace Block

theorem closedBy_cons {token : Token} (rest : List Token)
    (closes : token.operator = .loopEnd ∨ token.operator = .functionEnd) :
    ClosedBy (token :: rest) := by
  intro other same
  cases same
  exact closes

theorem eq_done_of_closedBy {block : Block} {rest others : List Token} (closed : ClosedBy others)
    (same : block.tokens ++ rest = others) : block = done := by
  subst same
  cases block with
  | done => rfl
  | act _ _ _ | call _ _ | loop _ _ _ _ | define _ _ _ _ => simp [ClosedBy] at closed

/-- The statements can be read off the operators, whatever closes them. -/
theorem tokens_append_injective {first second : Block} {rest others : List Token}
    (closed : ClosedBy rest) (closedOthers : ClosedBy others)
    (same : first.tokens ++ rest = second.tokens ++ others) : first = second ∧ rest = others := by
  induction first generalizing second rest others with
  | done =>
    obtain rfl := eq_done_of_closedBy closed same.symm
    exact ⟨rfl, same⟩
  | act offset action next ih =>
    cases second with
    | act offset' action' next' =>
      simp only [tokens_act, List.cons_append, List.cons.injEq, Token.mk.injEq,
        Operator.act.injEq] at same
      obtain ⟨⟨rfl, rfl⟩, tail⟩ := same
      obtain ⟨rfl, rfl⟩ := ih closed closedOthers tail
      exact ⟨rfl, rfl⟩
    | done => cases eq_done_of_closedBy closedOthers same
    | call _ _ | loop _ _ _ _ | define _ _ _ _ => simp at same
  | call offset next ih =>
    cases second with
    | call offset' next' =>
      simp only [tokens_call, List.cons_append, List.cons.injEq, Token.mk.injEq, and_true] at same
      obtain ⟨rfl, tail⟩ := same
      obtain ⟨rfl, rfl⟩ := ih closed closedOthers tail
      exact ⟨rfl, rfl⟩
    | done => cases eq_done_of_closedBy closedOthers same
    | act _ _ _ | loop _ _ _ _ | define _ _ _ _ => simp at same
  | loop opens body closes next ihBody ihNext =>
    cases second with
    | loop opens' body' closes' next' =>
      simp only [tokens_loop, List.cons_append, List.append_assoc, List.cons.injEq, Token.mk.injEq,
        and_true] at same
      obtain ⟨rfl, inside⟩ := same
      obtain ⟨rfl, behind⟩ := ihBody (closedBy_cons _ (.inl rfl)) (closedBy_cons _ (.inl rfl)) inside
      simp only [List.cons.injEq, Token.mk.injEq, and_true] at behind
      obtain ⟨rfl, tail⟩ := behind
      obtain ⟨rfl, rfl⟩ := ihNext closed closedOthers tail
      exact ⟨rfl, rfl⟩
    | done => cases eq_done_of_closedBy closedOthers same
    | act _ _ _ | call _ _ | define _ _ _ _ => simp at same
  | define opens body closes next ihBody ihNext =>
    cases second with
    | define opens' body' closes' next' =>
      simp only [tokens_define, List.cons_append, List.append_assoc, List.cons.injEq,
        Token.mk.injEq, and_true] at same
      obtain ⟨rfl, inside⟩ := same
      obtain ⟨rfl, behind⟩ := ihBody (closedBy_cons _ (.inr rfl)) (closedBy_cons _ (.inr rfl)) inside
      simp only [List.cons.injEq, Token.mk.injEq, and_true] at behind
      obtain ⟨rfl, tail⟩ := behind
      obtain ⟨rfl, rfl⟩ := ihNext closed closedOthers tail
      exact ⟨rfl, rfl⟩
    | done => cases eq_done_of_closedBy closedOthers same
    | act _ _ _ | call _ _ | loop _ _ _ _ => simp at same

theorem tokens_injective {first second : Block} (same : first.tokens = second.tokens) :
    first = second := by
  have nothing : ClosedBy [] := fun _ absurd => by cases absurd
  exact (tokens_append_injective nothing nothing (by simpa using same)).1

end Block

def Operator.isParen : Operator → Bool
  | functionStart | functionEnd => true
  | act _ | call | loopStart | loopEnd => false

/-- Inside a function the outline is read on to the next `)`, with no `(` before it. -/
theorem Outline.read_function {opens : Nat} {body given : List Token} {outline : Outline}
    (read : Outline.read (some (opens, body)) given = .ok outline) :
    ∃ inside closes rest behind, given = inside ++ ⟨closes, .functionEnd⟩ :: rest ∧
      (∀ token ∈ inside, token.operator.isParen = false) ∧ Outline.read none rest = .ok behind ∧
      outline = ⟨⟨opens, body.reverse ++ inside, closes⟩ :: behind.definitions, behind.top⟩ := by
  induction given generalizing body with
  | nil => cases read
  | cons token rest ih =>
    obtain ⟨offset, operator⟩ := token
    have onward (plain : operator.isParen = false)
        (step : Outline.read (some (opens, ⟨offset, operator⟩ :: body)) rest = .ok outline) :
        ∃ inside closes later behind,
          ⟨offset, operator⟩ :: rest = inside ++ ⟨closes, .functionEnd⟩ :: later ∧
          (∀ token ∈ inside, token.operator.isParen = false) ∧ Outline.read none later = .ok behind ∧
          outline = ⟨⟨opens, body.reverse ++ inside, closes⟩ :: behind.definitions, behind.top⟩ := by
      obtain ⟨inside, closes, later, behind, split, plains, after, shape⟩ := ih step
      refine ⟨⟨offset, operator⟩ :: inside, closes, later, behind, ?_, ?_, after, ?_⟩
      · rw [split, List.cons_append]
      · intro token member
        rcases List.mem_cons.mp member with rfl | member
        · exact plain
        · exact plains token member
      · rw [shape]
        simp
    cases operator with
    | functionStart => cases read
    | functionEnd =>
      simp only [Outline.read] at read
      cases after : Outline.read none rest with
      | error fault => rw [after] at read; cases read
      | ok behind =>
        rw [after] at read
        cases read
        exact ⟨[], offset, rest, behind, rfl, by simp, after, by simp⟩
    | act action => exact onward rfl read
    | call => exact onward rfl read
    | loopStart => exact onward rfl read
    | loopEnd => exact onward rfl read

namespace Assembly

/-- Takes a sequence of operators in front, the last one first. -/
def addAll? (tokens : List Token) (assembly : Assembly) : Option Assembly :=
  tokens.foldr (fun token assembly => assembly.bind (add? token)) (some assembly)

theorem addAll?_cons (token : Token) (rest : List Token) (assembly : Assembly) :
    assembly.addAll? (token :: rest) = (assembly.addAll? rest).bind (add? token) := rfl

theorem addAll?_append (first second : List Token) (assembly : Assembly) :
    assembly.addAll? (first ++ second) = (assembly.addAll? second).bind (addAll? first) := by
  induction first with
  | nil => exact (Option.bind_fun_some _).symm
  | cons token rest ih => rw [List.cons_append, addAll?_cons, ih, Option.bind_assoc]; rfl

theorem tokens_addAll? {given : List Token} {assembly longer : Assembly}
    (read : assembly.addAll? given = some longer) : longer.tokens = given ++ assembly.tokens := by
  induction given generalizing longer with
  | nil =>
    cases read
    rfl
  | cons token rest ih =>
    obtain ⟨shorter, before, step⟩ := Option.bind_eq_some_iff.mp read
    rw [tokens_add? step, ih before, List.cons_append]

/-- The reading has left `height` loops open, and around them what was open before. -/
def LeavesOpen (around : List Closer) (height : Nat) (reading : Option Assembly) : Prop :=
  ∃ block closers, reading = some ⟨block, closers ++ around⟩ ∧ closers.length = height ∧
    ∀ closer ∈ closers, closer.token.operator = .loopEnd

/-- One more operator that is no parenthesis keeps the count of open loops. -/
theorem LeavesOpen.add? {token : Token} {rest : List Token} {around : List Closer}
    {reading : Option Assembly} {outermost height : Nat} (plain : token.operator.isParen = false)
    (later : ∀ outermost height, loopFault? outermost height rest = none →
      LeavesOpen around height reading)
    (sound : loopFault? outermost height (token :: rest) = none) :
    LeavesOpen around height (reading.bind (add? token)) := by
  obtain ⟨offset, operator⟩ := token
  cases operator with
  | functionStart | functionEnd => cases plain
  | act action =>
    obtain ⟨block, closers, rfl, count, ends⟩ := later _ _ sound
    exact ⟨.act offset action block, closers, rfl, count, ends⟩
  | call =>
    obtain ⟨block, closers, rfl, count, ends⟩ := later _ _ sound
    exact ⟨.call offset block, closers, rfl, count, ends⟩
  | loopStart =>
    obtain ⟨block, closers, rfl, count, ends⟩ := later _ _ sound
    match closers with
    | [] => cases count
    | ⟨⟨closes, operator⟩, next⟩ :: closers =>
      obtain rfl : operator = .loopEnd := ends _ (List.mem_cons_self ..)
      refine ⟨.loop offset block closes next, closers, rfl, Nat.succ.inj count, ?_⟩
      exact fun closer member => ends closer (List.mem_cons_of_mem _ member)
  | loopEnd =>
    simp only [loopFault?] at sound
    split at sound
    · cases sound
    · obtain ⟨block, closers, rfl, count, ends⟩ := later _ _ sound
      refine ⟨.done, ⟨⟨offset, .loopEnd⟩, block⟩ :: closers, rfl, ?_, ?_⟩
      · simp only [List.length_cons]
        omega
      · intro closer member
        rcases List.mem_cons.mp member with rfl | member
        · rfl
        · exact ends closer member

theorem leavesOpen_nil {outermost height : Nat} (sound : loopFault? outermost height [] = none)
    (around : List Closer) : LeavesOpen around height (some ⟨.done, around⟩) := by
  unfold loopFault? at sound
  split at sound
  · rename_i zero
    exact ⟨.done, [], rfl, zero.symm, by simp⟩
  · cases sound

/-- A body without parentheses is read if its loops are in order. -/
theorem leavesOpen_addAll? {given : List Token} {outermost height : Nat}
    (plain : ∀ token ∈ given, token.operator.isParen = false)
    (sound : loopFault? outermost height given = none) (around : List Closer) :
    LeavesOpen around height ((⟨.done, around⟩ : Assembly).addAll? given) := by
  induction given generalizing outermost height with
  | nil => exact leavesOpen_nil sound around
  | cons token rest ih =>
    refine LeavesOpen.add? (plain token (List.mem_cons_self ..)) ?_ sound
    intro outermost height
    exact ih fun other member => plain other (List.mem_cons_of_mem _ member)

/-- A function whose body is in order becomes a definition in front of what follows. -/
theorem exists_addAll?_function {opens closes : Nat} {inside : List Token} {assembly : Assembly}
    (plain : ∀ token ∈ inside, token.operator.isParen = false)
    (sound : (Definition.mk opens inside closes).fault? = none)
    (outside : assembly.inFunction = false) :
    ∃ block, assembly.addAll? (⟨opens, .functionStart⟩ :: (inside ++ [⟨closes, .functionEnd⟩])) =
      some ⟨block, assembly.closers⟩ := by
  have nonempty : inside ≠ [] := by
    rintro rfl
    cases sound
  have loops : loopFault? 0 0 inside = none := by
    unfold Definition.fault? at sound
    rwa [if_neg (by simpa using nonempty)] at sound
  obtain ⟨body, closers, read, count, _⟩ := leavesOpen_addAll? plain loops
    (⟨⟨closes, .functionEnd⟩, assembly.block⟩ :: assembly.closers)
  obtain rfl := List.eq_nil_of_length_eq_zero count
  rw [List.nil_append] at read
  have closed : assembly.addAll? [⟨closes, .functionEnd⟩] =
      some ⟨.done, ⟨⟨closes, .functionEnd⟩, assembly.block⟩ :: assembly.closers⟩ := by
    simp [addAll?, add?, outside]
  refine ⟨.define opens body closes assembly.block, ?_⟩
  rw [addAll?_cons, addAll?_append, closed, Option.bind_some, read, Option.bind_some]
  cases body with
  | done =>
    have spelled := tokens_addAll? read
    simp only [tokens, Block.tokens_done, List.nil_append] at spelled
    exact absurd (List.self_eq_append_left.mp spelled) nonempty
  | act _ _ _ | call _ _ | loop _ _ _ _ | define _ _ _ _ => rfl

theorem inFunction_eq_false (assembly : Assembly)
    (ends : ∀ closer ∈ assembly.closers, closer.token.operator = .loopEnd) :
    assembly.inFunction = false := by
  simp only [inFunction, List.any_eq_false, beq_iff_eq]
  intro closer member
  rw [ends closer member]
  simp

end Assembly

/-- An operator outside functions stands in front of the outline of the rest. -/
theorem Outline.read_plain {token : Token} {rest : List Token} {outline : Outline}
    (plain : token.operator.isParen = false)
    (read : Outline.read none (token :: rest) = .ok outline) :
    ∃ behind, Outline.read none rest = .ok behind ∧
      outline = ⟨behind.definitions, token :: behind.top⟩ := by
  obtain ⟨offset, operator⟩ := token
  have step : Outline.read none (⟨offset, operator⟩ :: rest) =
      (Outline.read none rest).bind fun outline =>
        .ok { outline with top := ⟨offset, operator⟩ :: outline.top } := by
    cases operator with
    | functionStart | functionEnd => cases plain
    | act _ | call | loopStart | loopEnd => rfl
  rw [step] at read
  cases after : Outline.read none rest with
  | error fault =>
    rw [after] at read
    cases read
  | ok behind =>
    rw [after] at read
    cases read
    exact ⟨behind, rfl, rfl⟩

namespace Assembly

/-- What the outline finds in order can be read, with as many loops left open as the
operators outside functions leave open. -/
theorem leavesOpen_ofTokens? {given : List Token} {outline : Outline} {outermost height : Nat}
    (read : Outline.read none given = .ok outline)
    (definitions : ∀ definition ∈ outline.definitions, definition.fault? = none)
    (top : loopFault? outermost height outline.top = none) :
    LeavesOpen [] height (ofTokens? given) := by
  -- A definition is taken in one piece, so the induction is on the length.
  induction length : given.length using Nat.strongRecOn
    generalizing given outline outermost height with
  | _ _ ih =>
    subst length
    match given with
    | [] =>
      cases read
      exact leavesOpen_nil top []
    | ⟨offset, operator⟩ :: rest =>
      cases plain : operator.isParen with
      | false =>
        obtain ⟨behind, readBehind, rfl⟩ := Outline.read_plain plain read
        refine LeavesOpen.add? plain ?_ top
        intro outermost height sound
        exact ih rest.length (Nat.lt_succ_self _) readBehind definitions sound rfl
      | true =>
        cases operator with
        | act _ | call | loopStart | loopEnd => cases plain
        | functionEnd => cases read
        | functionStart =>
          obtain ⟨inside, closes, later, behind, rfl, inner, readLater, rfl⟩ :=
            Outline.read_function read
          obtain ⟨block, closers, earlier, count, ends⟩ := ih later.length (by simp; omega) readLater
            (fun definition member => definitions definition (List.mem_cons_of_mem _ member)) top rfl
          rw [List.append_nil] at earlier
          obtain ⟨whole, defined⟩ := exists_addAll?_function inner
            (definitions _ (List.mem_cons_self ..)) (inFunction_eq_false ⟨block, closers⟩ ends)
          refine ⟨whole, closers, ?_, count, ends⟩
          have pieces : (⟨offset, .functionStart⟩ :: (inside ++ ⟨closes, .functionEnd⟩ :: later)) =
              (⟨offset, .functionStart⟩ :: (inside ++ [⟨closes, .functionEnd⟩])) ++ later := by simp
          rw [pieces, List.append_nil, ← defined]
          refine (addAll?_append _ _ _).trans ?_
          rw [show empty.addAll? later = _ from earlier, Option.bind_some]

end Assembly

/-- A script whose brackets are in order can be read. -/
theorem Block.exists_ofTokens?_of_bracketFault? {given : List Token} (sound : bracketFault? given = none) :
    ∃ block, Block.ofTokens? given = some block := by
  unfold bracketFault? at sound
  split at sound
  · cases sound
  · rename_i outline read
    obtain ⟨_, inside⟩ := Option.or_eq_none_iff.mp sound
    obtain ⟨definitions, top⟩ := Option.or_eq_none_iff.mp inside
    obtain ⟨block, closers, whole, count, _⟩ :=
      Assembly.leavesOpen_ofTokens? read (List.findSome?_eq_none_iff.mp definitions) top
    obtain rfl := List.eq_nil_of_length_eq_zero count
    exact ⟨block, by rw [Block.ofTokens?, whole]; rfl⟩

theorem parse_eq_ok_iff {source : Text} {block : Block} :
    parse source = .ok block ↔ bracketFault? (tokens source) = none ∧ block.tokens = tokens source := by
  unfold parse
  cases sound : bracketFault? (tokens source) with
  | some offset => simp
  | none =>
    obtain ⟨read, found⟩ := Block.exists_ofTokens?_of_bracketFault? sound
    have spelled := Block.tokens_ofTokens? found
    simp only [found, Except.ok.injEq, true_and]
    constructor
    · rintro rfl
      exact spelled
    · intro same
      exact Block.tokens_injective (spelled.trans same.symm)

/-- The scripts that are run are those with an operator and brackets in order, and
there is one sequence of statements that spells them. -/
theorem readScript_eq_ok_iff {source : Text} {block : Block} :
    readScript source = .ok block ↔
      hasCode source = true ∧ bracketFault? (tokens source) = none ∧ block.tokens = tokens source := by
  rw [← parse_eq_ok_iff]
  unfold readScript
  cases hasCode source with
  | false => simp
  | true => cases parse source <;> simp

theorem tokensFrom_ne_nil {source : Text} (base : Nat) (code : hasCode source = true) :
    tokensFrom base source ≠ [] := by
  induction source generalizing base with
  | nil => cases code
  | cons c rest ih =>
    unfold tokensFrom
    cases read : Operator.ofChar? c with
    | some operator => exact List.cons_ne_nil _ _
    | none => exact ih (base + 1) (by simpa [hasCode, read] using code)

theorem tokens_ne_nil_of_readScript {source : Text} {block : Block}
    (accepted : readScript source = .ok block) : block.tokens ≠ [] := by
  obtain ⟨code, _, spelled⟩ := readScript_eq_ok_iff.mp accepted
  rw [spelled]
  exact tokensFrom_ne_nil 0 code

end TapeStepper
