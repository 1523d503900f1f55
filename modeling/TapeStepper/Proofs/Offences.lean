import TapeStepper.Proofs.Grammar

namespace TapeStepper

/-- How many loops are opened in the code. -/
def loopStarts (code : List Token) : Nat :=
  (operators code).count .loopStart

/-- How many loops are closed in the code. -/
def loopEnds (code : List Token) : Nat :=
  (operators code).count .loopEnd

/-- A loop that is open in front of the code is open behind it too, since no front part of the code
closes more loops than it opens. -/
def StaysOpen (code : List Token) : Prop :=
  ∀ part, part <+: code → loopEnds part ≤ loopStarts part

/-- No loop that is opened in the code is open at its end. -/
def ClosesLoops (code : List Token) : Prop :=
  ∀ front opens back, code = front ++ ⟨opens, .loopStart⟩ :: back → ¬ StaysOpen back

/-- Operators whose parentheses match, with their definitions and what is left without them. -/
inductive Outlines : List Token → Outline → Prop
  | nil : Outlines [] ⟨[], []⟩
  | keep {token rest outline} : token.operator.isParen = false → Outlines rest outline →
      Outlines (token :: rest) ⟨outline.definitions, token :: outline.top⟩
  | cut {opens body closes rest outline} : (∀ token ∈ body, token.operator.isParen = false) →
      Outlines rest outline →
      Outlines (⟨opens, .functionStart⟩ :: (body ++ ⟨closes, .functionEnd⟩ :: rest))
        ⟨⟨opens, body, closes⟩ :: outline.definitions, outline.top⟩

/-- The region in which an operator stands, in two parts around it: its function, or all that is
outside functions. -/
inductive Region (before after : List Token) : List Token → List Token → Prop
  | function {outer opens left right closes behind} :
      before = outer ++ ⟨opens, .functionStart⟩ :: left →
      after = right ++ ⟨closes, .functionEnd⟩ :: behind →
      (∀ token ∈ left ++ right, token.operator.isParen = false) → Region before after left right
  | outside {first second} : Outlines before first → Outlines after second →
      Region before after first.top second.top

/-- A loop operator that has no partner in its region. Of several loops that are left open it is the
first. -/
inductive Unpaired (left : List Token) : Token → List Token → Prop
  | loopEnd {offset right} : ClosesLoops left → Unpaired left ⟨offset, .loopEnd⟩ right
  | loopStart {offset right} : StaysOpen right →
      (∀ front opens back, left = front ++ ⟨opens, .loopStart⟩ :: back →
        ¬ StaysOpen (back ++ ⟨offset, .loopStart⟩ :: right)) →
      Unpaired left ⟨offset, .loopStart⟩ right

/-- An operator that is out of place between what stands before and after it. -/
inductive Misplaced (before : List Token) : Token → List Token → Prop
  | nested {outer opens inside offset after} : before = outer ++ ⟨opens, .functionStart⟩ :: inside →
      .functionEnd ∉ operators inside → Misplaced before ⟨offset, .functionStart⟩ after
  | unclosed {offset after} : .functionEnd ∉ operators after →
      Misplaced before ⟨offset, .functionStart⟩ after
  | stray {offset after} :
      (∀ outer opens inside, before = outer ++ ⟨opens, .functionStart⟩ :: inside →
        .functionEnd ∈ operators inside) → Misplaced before ⟨offset, .functionEnd⟩ after
  | empty {outer opens offset after} : before = outer ++ [⟨opens, .functionStart⟩] →
      Misplaced before ⟨offset, .functionEnd⟩ after
  | unpaired {left token right after} : Region before after left right → Unpaired left token right →
      Misplaced before token after

section Loops

variable {code first second back : List Token} {token : Token}

@[simp]
theorem loopStarts_nil : loopStarts [] = 0 := rfl

@[simp]
theorem loopEnds_nil : loopEnds [] = 0 := rfl

@[simp]
theorem loopStarts_cons (token : Token) (code : List Token) :
    loopStarts (token :: code) = loopStarts code + if token.operator = .loopStart then 1 else 0 := by
  simp [loopStarts, List.count_cons]

@[simp]
theorem loopEnds_cons (token : Token) (code : List Token) :
    loopEnds (token :: code) = loopEnds code + if token.operator = .loopEnd then 1 else 0 := by
  simp [loopEnds, List.count_cons]

@[simp]
theorem loopStarts_append (first second : List Token) :
    loopStarts (first ++ second) = loopStarts first + loopStarts second := by
  simp [loopStarts]

@[simp]
theorem loopEnds_append (first second : List Token) :
    loopEnds (first ++ second) = loopEnds first + loopEnds second := by
  simp [loopEnds]

theorem loopStarts_concat_loopStart (offset : Nat) :
    loopStarts (code ++ [⟨offset, .loopStart⟩]) = loopStarts code + 1 := by
  simp

theorem loopEnds_concat_loopStart (offset : Nat) :
    loopEnds (code ++ [⟨offset, .loopStart⟩]) = loopEnds code := by
  simp

theorem loopStarts_concat_loopEnd (offset : Nat) :
    loopStarts (code ++ [⟨offset, .loopEnd⟩]) = loopStarts code := by
  simp

theorem loopEnds_concat_loopEnd (offset : Nat) :
    loopEnds (code ++ [⟨offset, .loopEnd⟩]) = loopEnds code + 1 := by
  simp

/-- Two ways to cut a row of tokens: at the same place, or one before the other. -/
theorem split_cases {front rest : List Token} {here there : Token}
    (same : first ++ here :: second = front ++ there :: rest) :
    (first = front ∧ here = there ∧ second = rest) ∨
      (∃ between, front = first ++ here :: between ∧ second = between ++ there :: rest) ∨
      ∃ between, first = front ++ there :: between ∧ rest = between ++ here :: second := by
  rcases List.append_eq_append_iff.mp same with ⟨between, rfl, cut⟩ | ⟨between, rfl, cut⟩
  · cases between with
    | nil =>
      obtain ⟨rfl, rfl⟩ := List.cons.inj cut
      exact .inl ⟨(List.append_nil _).symm, rfl, rfl⟩
    | cons token between =>
      obtain ⟨rfl, rfl⟩ := List.cons.inj cut
      exact .inr (.inl ⟨between, rfl, rfl⟩)
  · cases between with
    | nil =>
      obtain ⟨rfl, rfl⟩ := List.cons.inj cut
      exact .inl ⟨List.append_nil _, rfl, rfl⟩
    | cons token between =>
      obtain ⟨rfl, rfl⟩ := List.cons.inj cut
      exact .inr (.inr ⟨between, rfl, rfl⟩)

/-- A cut of a row of tokens that is not at its last one. -/
theorem split_concat {front : List Token} {there : Token} (distinct : token ≠ there)
    (cut : code ++ [token] = front ++ there :: back) :
    ∃ rest, code = front ++ there :: rest ∧ back = rest ++ [token] := by
  rcases split_cases cut with ⟨_, same, _⟩ | ⟨_, _, nothing⟩ | ⟨rest, whole, behind⟩
  · exact absurd same distinct
  · simp at nothing
  · exact ⟨rest, whole, behind⟩

theorem StaysOpen.of_append (opened : StaysOpen (first ++ second)) : StaysOpen first :=
  fun part front => opened part (front.trans (List.prefix_append first second))

theorem staysOpen_nil : StaysOpen [] := by
  intro part front
  rw [List.prefix_nil.mp front]
  exact Nat.le_refl _

theorem StaysOpen.concat (opened : StaysOpen code)
    (count : loopEnds (code ++ [token]) ≤ loopStarts (code ++ [token])) :
    StaysOpen (code ++ [token]) := by
  intro part front
  rcases List.prefix_concat_iff.mp front with rfl | within
  · exact count
  · exact opened part within

theorem closesLoops_nil : ClosesLoops [] := by
  intro front opens back cut
  simp at cut

theorem ClosesLoops.concat (closed : ClosesLoops code) (other : token.operator ≠ .loopStart) :
    ClosesLoops (code ++ [token]) := by
  intro front opens back cut opened
  have distinct : token ≠ ⟨opens, .loopStart⟩ := fun same => other (congrArg Token.operator same)
  obtain ⟨rest, rfl, rfl⟩ := split_concat distinct cut
  exact closed front opens rest rfl opened.of_append

/-- Behind the only loop that is open, a `]` leaves nothing open. -/
theorem ClosesLoops.close {opens offset : Nat} (closed : ClosesLoops first) (opened : StaysOpen back)
    (level : loopStarts back = loopEnds back) :
    ClosesLoops (first ++ ⟨opens, .loopStart⟩ :: back ++ [⟨offset, .loopEnd⟩]) := by
  intro front other rest cut stays
  obtain ⟨behind, same, rfl⟩ := split_concat (by simp) cut
  rcases split_cases same with ⟨_, _, rfl⟩ | ⟨between, _, rfl⟩ | ⟨between, rfl, rfl⟩
  · have whole := stays _ (List.prefix_refl _)
    rw [loopStarts_concat_loopEnd, loopEnds_concat_loopEnd] at whole
    omega
  · -- A loop that was opened inside is closed there, since as many are closed as are opened.
    have before := opened between (List.prefix_append ..)
    have after := stays behind (List.prefix_append ..)
    simp only [loopStarts_append, loopEnds_append, loopStarts_cons, loopEnds_cons, reduceCtorEq,
      if_true, if_false] at level
    omega
  · rw [List.append_assoc] at stays
    exact closed front other between rfl stays.of_append

end Loops

/-- The loops of a region that are open when a part of it has been read: none, or `height` of them
since the one at `outermost`. What is found behind the part depends on nothing else. -/
structure LoopsOpen (part : List Token) (outermost height : Nat) : Prop where
  onward : ∀ rest, loopFault? 0 0 (part ++ rest) = loopFault? outermost height rest
  closed : height = 0 → ClosesLoops part
  opened : 0 < height → ∃ front back, part = front ++ ⟨outermost, .loopStart⟩ :: back ∧
    ClosesLoops front ∧ StaysOpen back ∧ loopStarts back + 1 = loopEnds back + height

namespace LoopsOpen

variable {part : List Token} {outermost height : Nat}

theorem nil : LoopsOpen [] 0 0 :=
  ⟨fun _ => rfl, fun _ => closesLoops_nil, nofun⟩

theorem loopStart (reached : LoopsOpen part outermost height) (offset : Nat) :
    LoopsOpen (part ++ [⟨offset, .loopStart⟩]) (if height = 0 then offset else outermost)
      (height + 1) where
  onward := by
    intro rest
    rw [List.append_assoc, reached.onward]
    rfl
  closed := nofun
  opened := by
    intro _
    by_cases none : height = 0
    · rw [if_pos none, none]
      exact ⟨part, [], rfl, reached.closed none, staysOpen_nil, rfl⟩
    · obtain ⟨front, back, rfl, closed, opened, level⟩ := reached.opened (Nat.pos_of_ne_zero none)
      rw [if_neg none]
      refine ⟨front, back ++ [⟨offset, .loopStart⟩], by simp, closed, opened.concat ?_, ?_⟩
      · have whole := opened back (List.prefix_refl _)
        rw [loopStarts_concat_loopStart, loopEnds_concat_loopStart]
        omega
      · rw [loopStarts_concat_loopStart, loopEnds_concat_loopStart]
        omega

theorem loopEnd (reached : LoopsOpen part outermost (height + 1)) (offset : Nat) :
    LoopsOpen (part ++ [⟨offset, .loopEnd⟩]) outermost height := by
  obtain ⟨front, back, rfl, closed, opened, level⟩ := reached.opened (Nat.succ_pos height)
  refine ⟨?_, ?_, ?_⟩
  · intro rest
    rw [List.append_assoc, reached.onward]
    rfl
  · rintro rfl
    exact closed.close opened (by omega)
  · intro positive
    refine ⟨front, back ++ [⟨offset, .loopEnd⟩], by simp, closed, opened.concat ?_, ?_⟩
    · rw [loopStarts_concat_loopEnd, loopEnds_concat_loopEnd]
      omega
    · rw [loopStarts_concat_loopEnd, loopEnds_concat_loopEnd]
      omega

theorem other (reached : LoopsOpen part outermost height) {token : Token}
    (noStart : token.operator ≠ .loopStart) (noEnd : token.operator ≠ .loopEnd) :
    LoopsOpen (part ++ [token]) outermost height := by
  refine ⟨?_, ?_, ?_⟩
  · intro rest
    obtain ⟨offset, operator⟩ := token
    rw [List.append_assoc, reached.onward]
    cases operator with
    | loopStart => exact absurd rfl noStart
    | loopEnd => exact absurd rfl noEnd
    | act _ | call | functionStart | functionEnd => rfl
  · intro none
    exact (reached.closed none).concat noStart
  · intro positive
    obtain ⟨front, back, rfl, closed, opened, level⟩ := reached.opened positive
    refine ⟨front, back ++ [token], by simp, closed, opened.concat ?_, ?_⟩
    · have whole := opened back (List.prefix_refl _)
      simp [noStart, noEnd, whole]
    · simp [noStart, noEnd, level]

/-- The first of the loops that are left open has no partner. -/
theorem unpaired (reached : LoopsOpen part outermost (height + 1)) :
    ∃ left right, part = left ++ ⟨outermost, .loopStart⟩ :: right ∧
      Unpaired left ⟨outermost, .loopStart⟩ right := by
  obtain ⟨left, right, rfl, closed, opened, _⟩ := reached.opened (Nat.succ_pos height)
  refine ⟨left, right, rfl, .loopStart opened ?_⟩
  intro front opens back cut stays
  exact closed front opens back cut stays.of_append

end LoopsOpen

/-- What is reported of the loops of a region has no partner in it. -/
theorem unpaired_of_loopFault? {part rest : List Token} {outermost height offset : Nat}
    (reached : LoopsOpen part outermost height) (found : loopFault? outermost height rest = some offset) :
    ∃ left token right, part ++ rest = left ++ token :: right ∧ token.offset = offset ∧
      Unpaired left token right := by
  induction rest generalizing part outermost height with
  | nil =>
    cases height with
    | zero => cases found
    | succ height =>
      obtain rfl := Option.some.inj found
      obtain ⟨left, right, rfl, unpaired⟩ := reached.unpaired
      exact ⟨left, _, right, List.append_nil _, rfl, unpaired⟩
  | cons token rest ih =>
    rw [List.append_cons]
    obtain ⟨place, operator⟩ := token
    cases operator with
    | loopStart => exact ih (reached.loopStart place) found
    | loopEnd =>
      cases height with
      | zero =>
        obtain rfl := Option.some.inj found
        exact ⟨part, _, rest, by simp, rfl, .loopEnd (reached.closed rfl)⟩
      | succ height => exact ih (reached.loopEnd place) found
    | act _ | call | functionStart | functionEnd => exact ih (reached.other nofun nofun) found

namespace Outlines

variable {given : List Token} {outline : Outline}

theorem read (outlines : Outlines given outline) : Outline.read none given = .ok outline := by
  induction outlines with
  | nil => rfl
  | keep plain _ ih => exact Outline.read_cons _ plain ih
  | @cut opens body closes rest outline plain _ ih =>
    have whole := Outline.read_body plain ih opens closes []
    simpa [Outline.read] using whole

theorem of_read (read : Outline.read none given = .ok outline) : Outlines given outline := by
  -- A definition is taken in one piece, so the induction is on the length.
  induction length : given.length using Nat.strongRecOn generalizing given outline with
  | _ _ ih =>
    subst length
    match given with
    | [] =>
      cases read
      exact .nil
    | ⟨offset, operator⟩ :: rest =>
      cases plain : operator.isParen with
      | false =>
        obtain ⟨behind, readBehind, rfl⟩ := Outline.read_plain plain read
        exact .keep plain (ih rest.length (Nat.lt_succ_self _) readBehind rfl)
      | true =>
        cases operator with
        | act _ | call | loopStart | loopEnd => cases plain
        | functionEnd => cases read
        | functionStart =>
          obtain ⟨inside, closes, later, behind, rfl, plains, readLater, rfl⟩ :=
            Outline.read_function read
          exact .cut plains (ih later.length (by simp; omega) readLater rfl)

/-- Where a definition stands. -/
theorem exists_definition (outlines : Outlines given outline) {definition : Definition}
    (listed : definition ∈ outline.definitions) :
    ∃ outer behind, given = outer ++ ⟨definition.opens, .functionStart⟩ ::
        (definition.body ++ ⟨definition.closes, .functionEnd⟩ :: behind) ∧
      ∀ token ∈ definition.body, token.operator.isParen = false := by
  induction outlines with
  | nil => cases listed
  | @keep token rest outline _ _ ih =>
    obtain ⟨outer, behind, rfl, plain⟩ := ih listed
    exact ⟨token :: outer, behind, rfl, plain⟩
  | @cut opens body closes rest outline plain _ ih =>
    rcases List.mem_cons.mp listed with rfl | later
    · exact ⟨[], rest, rfl, plain⟩
    · obtain ⟨outer, behind, rfl, plains⟩ := ih later
      exact ⟨⟨opens, .functionStart⟩ :: (body ++ ⟨closes, .functionEnd⟩ :: outer), behind,
        by simp, plains⟩

/-- Where an operator outside functions stands. -/
theorem exists_split (outlines : Outlines given outline) {left right : List Token} {token : Token}
    (cut : outline.top = left ++ token :: right) :
    ∃ before after, given = before ++ token :: after ∧ Region before after left right := by
  suffices found : ∃ before after first second, given = before ++ token :: after ∧
      Outlines before first ∧ Outlines after second ∧ first.top = left ∧ second.top = right by
    obtain ⟨before, after, first, second, rfl, outlinesFirst, outlinesSecond, rfl, rfl⟩ := found
    exact ⟨before, after, rfl, .outside outlinesFirst outlinesSecond⟩
  induction outlines generalizing left with
  | nil => simp at cut
  | @keep other rest outline plain outlinesRest ih =>
    cases left with
    | nil =>
      obtain ⟨rfl, rfl⟩ := List.cons.inj cut
      exact ⟨[], rest, _, outline, rfl, .nil, outlinesRest, rfl, rfl⟩
    | cons head left =>
      obtain ⟨rfl, later⟩ := List.cons.inj cut
      obtain ⟨before, after, first, second, rfl, outlinesFirst, outlinesSecond, rfl, same⟩ := ih later
      exact ⟨other :: before, after, _, second, rfl, .keep plain outlinesFirst, outlinesSecond, rfl, same⟩
  | @cut opens body closes rest outline plain _ ih =>
    obtain ⟨before, after, first, second, rfl, outlinesFirst, outlinesSecond, same, sameToo⟩ := ih cut
    exact ⟨⟨opens, .functionStart⟩ :: (body ++ ⟨closes, .functionEnd⟩ :: before), after, _, second,
      by simp, .cut plain outlinesFirst, outlinesSecond, same, sameToo⟩

end Outlines

/-- Whether a function is open when these operators have been read, and its body so far, last
operator first. -/
inductive Outline.Opened (before : List Token) : Option (Nat × List Token) → Prop
  | outside : (∀ outer opens inside, before = outer ++ ⟨opens, .functionStart⟩ :: inside →
      .functionEnd ∈ operators inside) → Opened before none
  | inside {outer opens body} : before = outer ++ ⟨opens, .functionStart⟩ :: body.reverse →
      (∀ token ∈ body, token.operator.isParen = false) → Opened before (some (opens, body))

namespace Outline.Opened

variable {before : List Token} {opens : Nat} {body : List Token}

theorem functionEnd (before : List Token) (offset : Nat) :
    Opened (before ++ [⟨offset, .functionEnd⟩]) none := by
  refine .outside fun outer opens inside cut => ?_
  obtain ⟨rest, _, rfl⟩ := split_concat (by simp) cut
  simp

theorem other (opened : Opened before none) {token : Token} (plain : token.operator.isParen = false) :
    Opened (before ++ [token]) none := by
  cases opened with
  | outside closed =>
    refine .outside fun outer opens inside cut => ?_
    have distinct : token ≠ ⟨opens, .functionStart⟩ := by
      rintro rfl
      cases plain
    obtain ⟨rest, same, rfl⟩ := split_concat distinct cut
    have within := closed outer opens rest same
    simp [within]

theorem otherInside (opened : Opened before (some (opens, body))) {token : Token}
    (plain : token.operator.isParen = false) :
    Opened (before ++ [token]) (some (opens, token :: body)) := by
  cases opened with
  | @inside outer _ _ same plains =>
    have longer : before ++ [token] =
        outer ++ ⟨opens, .functionStart⟩ :: (token :: body).reverse := by simp [same]
    refine .inside longer ?_
    intro other member
    rcases List.mem_cons.mp member with rfl | earlier
    · exact plain
    · exact plains other earlier

theorem functionEnd_notMem (plains : ∀ token ∈ body, token.operator.isParen = false) :
    .functionEnd ∉ operators body.reverse := by
  intro member
  obtain ⟨token, listed, closes⟩ := List.mem_map.mp member
  have plain := plains token (List.mem_reverse.mp listed)
  rw [closes] at plain
  cases plain

end Outline.Opened

/-- What is put in front of an outline does not fail. -/
theorem Outline.error_of_bind {reading : Except Nat Outline} {change : Outline → Outline} {offset : Nat}
    (failed : (reading.bind fun outline => .ok (change outline)) = .error offset) :
    reading = .error offset := by
  cases reading with
  | ok outline => cases failed
  | error fault => exact congrArg _ (Except.error.inj failed)

/-- A parenthesis at which an outline cannot be read is out of place. -/
theorem misplaced_of_read {before rest : List Token} {opened : Option (Nat × List Token)} {offset : Nat}
    (reached : Outline.Opened before opened) (failed : Outline.read opened rest = .error offset) :
    ∃ front token behind, before ++ rest = front ++ token :: behind ∧ token.offset = offset ∧
      Misplaced front token behind := by
  induction rest generalizing before opened with
  | nil =>
    cases reached with
    | outside closed => cases failed
    | @inside outer opens body same plains =>
      obtain rfl := Except.error.inj failed
      refine ⟨outer, ⟨opens, .functionStart⟩, body.reverse, by rw [same, List.append_nil], rfl, ?_⟩
      exact .unclosed (Outline.Opened.functionEnd_notMem plains)
  | cons token rest ih =>
    have onward {opened : Option (Nat × List Token)} (next : Outline.Opened (before ++ [token]) opened)
        (later : Outline.read opened rest = .error offset) :
        ∃ front other behind, before ++ token :: rest = front ++ other :: behind ∧
          other.offset = offset ∧ Misplaced front other behind := by
      rw [List.append_cons]
      exact ih next later
    obtain ⟨place, operator⟩ := token
    cases reached with
    | outside closed =>
      have outside : Outline.Opened before none := .outside closed
      cases operator with
      | functionStart => exact onward (.inside rfl (by simp)) failed
      | functionEnd =>
        obtain rfl := Except.error.inj failed
        exact ⟨before, _, rest, rfl, rfl, .stray closed⟩
      | act _ | call | loopStart | loopEnd =>
        exact onward (outside.other rfl) (Outline.error_of_bind failed)
    | @inside outer opens body same plains =>
      have inside : Outline.Opened before (some (opens, body)) := .inside same plains
      cases operator with
      | functionStart =>
        obtain rfl := Except.error.inj failed
        exact ⟨before, _, rest, rfl, rfl, .nested same (Outline.Opened.functionEnd_notMem plains)⟩
      | functionEnd => exact onward (.functionEnd before place) (Outline.error_of_bind failed)
      | act _ | call | loopStart | loopEnd => exact onward (inside.otherInside rfl) failed

/-- A definition whose body is empty, or whose loops do not match. -/
theorem Outlines.misplaced_of_definition {given : List Token} {outline : Outline}
    (outlines : Outlines given outline) {definition : Definition} {offset : Nat}
    (listed : definition ∈ outline.definitions) (found : definition.fault? = some offset) :
    ∃ front token behind, given = front ++ token :: behind ∧ token.offset = offset ∧
      Misplaced front token behind := by
  obtain ⟨outer, behind, rfl, plain⟩ := outlines.exists_definition listed
  unfold Definition.fault? at found
  split at found
  · rename_i empty
    obtain rfl := Option.some.inj found
    refine ⟨outer ++ [⟨definition.opens, .functionStart⟩], ⟨definition.closes, .functionEnd⟩, behind,
      ?_, rfl, .empty rfl⟩
    rw [List.isEmpty_iff.mp empty]
    simp
  · obtain ⟨left, token, right, body, same, unpaired⟩ := unpaired_of_loopFault? .nil found
    rw [List.nil_append] at body
    refine ⟨outer ++ ⟨definition.opens, .functionStart⟩ :: left, token,
      right ++ ⟨definition.closes, .functionEnd⟩ :: behind, by simp [body], same,
      .unpaired (.function rfl rfl ?_) unpaired⟩
    intro other member
    refine plain other ?_
    rw [body]
    rcases List.mem_append.mp member with before | after
    · exact List.mem_append_left _ before
    · exact List.mem_append_right _ (List.mem_cons_of_mem _ after)

/-- A bare `()` has an empty body. -/
theorem Outlines.fault?_of_isBare {given : List Token} {outline : Outline}
    (outlines : Outlines given outline) (increasing : Increasing given) {definition : Definition}
    (listed : definition ∈ outline.definitions) (bare : definition.isBare = true) :
    definition.fault? = some definition.closes := by
  obtain ⟨outer, behind, rfl, _⟩ := outlines.exists_definition listed
  have within := (List.pairwise_append.mp increasing).2.1
  by_cases filled : definition.body = []
  · simp [Definition.fault?, filled]
  · cases bare.symm.trans (Definition.isBare_eq_false filled within)

theorem misplaced_of_bracketFault? {given : List Token} (increasing : Increasing given) {offset : Nat}
    (found : bracketFault? given = some offset) :
    ∃ front token behind, given = front ++ token :: behind ∧ token.offset = offset ∧
      Misplaced front token behind := by
  unfold bracketFault? at found
  split at found
  · rename_i place failed
    obtain rfl := Option.some.inj found
    have nothing : Outline.Opened [] none := .outside fun _ _ _ cut => by simp at cut
    exact misplaced_of_read nothing failed
  · rename_i outline read
    have outlines := Outlines.of_read read
    rcases Option.or_eq_some_iff.mp found with bare | ⟨_, behind⟩
    · obtain ⟨definition, first, rfl⟩ := Option.map_eq_some_iff.mp bare
      have listed := List.mem_of_find?_eq_some first
      have empty := outlines.fault?_of_isBare increasing listed (List.find?_some first)
      exact outlines.misplaced_of_definition listed empty
    · rcases Option.or_eq_some_iff.mp behind with body | ⟨_, top⟩
      · obtain ⟨definition, listed, fault⟩ := List.exists_of_findSome?_eq_some body
        exact outlines.misplaced_of_definition listed fault
      · obtain ⟨left, token, right, cut, same, unpaired⟩ := unpaired_of_loopFault? .nil top
        obtain ⟨before, after, whole, region⟩ := outlines.exists_split cut
        exact ⟨before, token, after, whole, same, .unpaired region unpaired⟩

/-- What is reported of a script is out of place: the offset is that of a token, and this is a `(`
inside a function or one that is never closed, a `)` that closes nothing or an empty body, a `]`
before which no loop of its region is open, or the first `[` of its region that stays open. A script
in order is reported with the offset 0. -/
theorem reported_operator_is_misplaced (source : Text) :
    ((bracketReport source).valid = false → ∃ before token after,
      tokens source = before ++ token :: after ∧ token.offset = (bracketReport source).errorOffset ∧
      Misplaced before token after) ∧
    ((bracketReport source).valid = true → (bracketReport source).errorOffset = 0) := by
  cases found : bracketFault? (tokens source) with
  | none =>
    rw [bracketReport_of_sound found]
    exact ⟨nofun, fun _ => rfl⟩
  | some offset =>
    rw [bracketReport_of_fault found]
    refine ⟨fun _ => ?_, nofun⟩
    exact misplaced_of_bracketFault? (increasing_tokensFrom 0 source) found

/-- In a function two loops are left open, of which the first is reported, although there is a `]` too
many outside functions. -/
theorem reported_operator_is_misplaced_in_a_function :
    bracketReport "](+[-][.[)".toList = ⟨false, 6⟩ ∧
      ∃ before token after, tokens "](+[-][.[)".toList = before ++ token :: after ∧ token.offset = 6 ∧
        Misplaced before token after := by
  have report : bracketReport "](+[-][.[)".toList = ⟨false, 6⟩ := by decide
  have reported := (reported_operator_is_misplaced "](+[-][.[)".toList).1
  rw [report] at reported
  exact ⟨report, reported rfl⟩

end TapeStepper
