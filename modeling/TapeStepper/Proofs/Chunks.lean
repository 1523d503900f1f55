import TapeStepper.Proofs.Ahead

namespace TapeStepper

section Offsets

variable {base offset : Nat} {chunks : List Text}

theorem offset_lt_of_mem_tokensFrom {source : Text} {token : Token}
    (listed : token ∈ tokensFrom base source) : token.offset < base + source.length := by
  obtain ⟨index, offset, read⟩ := operatorAt?_of_mem_tokensFrom listed
  have inside : index < source.length := by
    by_contra outside
    rw [operatorAt?, List.getElem?_eq_none (by omega)] at read
    cases read
  omega

/-- The marked offsets are those of the first operators of chunks. -/
theorem mem_firstOffsets_iff : offset ∈ firstOffsets base chunks ↔ ∃ index chunk token,
    chunks[index]? = some chunk ∧
      (tokensFrom (base + (chunks.take index).flatten.length) chunk).head? = some token ∧
      token.offset = offset := by
  induction chunks generalizing base with
  | nil => simp [firstOffsets]
  | cons first rest ih =>
    rw [firstOffsets, List.mem_append, ih]
    constructor
    · rintro (here | ⟨index, chunk, token, listed, begins, same⟩)
      · obtain ⟨token, begins, same⟩ := Option.map_eq_some_iff.mp (Option.mem_toList.mp here)
        exact ⟨0, first, token, rfl, begins, same⟩
      · refine ⟨index + 1, chunk, token, listed, ?_, same⟩
        rw [List.take_succ_cons, List.flatten_cons, List.length_append, ← Nat.add_assoc]
        exact begins
    · rintro ⟨index, chunk, token, listed, begins, same⟩
      cases index with
      | zero =>
        obtain rfl := Option.some.inj listed
        exact .inl (Option.mem_toList.mpr (Option.map_eq_some_iff.mpr ⟨token, begins, same⟩))
      | succ index =>
        rw [List.take_succ_cons, List.flatten_cons, List.length_append, ← Nat.add_assoc] at begins
        exact .inr ⟨index, chunk, token, listed, begins, same⟩

theorem le_of_mem_firstOffsets (listed : offset ∈ firstOffsets base chunks) : base ≤ offset := by
  obtain ⟨index, chunk, token, _, begins, rfl⟩ := mem_firstOffsets_iff.mp listed
  have bound := le_offset_of_mem_tokensFrom (List.mem_of_mem_head? begins)
  omega

theorem Token.marked_cons (offset : Nat) (offsets : List Nat) (token : Token) :
    token.marked (offset :: offsets) = (token.offset == offset || token.marked offsets) :=
  List.contains_cons

theorem unmarked_of_lt {token : Token} (before : token.offset < base) :
    token.marked (firstOffsets base chunks) = false := by
  refine eq_false_of_ne_true fun marked => ?_
  have bound := le_of_mem_firstOffsets (List.contains_iff_mem.mp marked)
  omega

/-- The first operator is the only marked one, when the other marks are none of these. -/
theorem countP_marked_first {token : Token} {others : List Token} {offsets : List Nat}
    (increasing : Increasing (token :: others))
    (unmarked : ∀ other ∈ others, other.marked offsets = false) :
    (token :: others).countP (Token.marked (token.offset :: offsets)) = 1 := by
  have later : others.countP (Token.marked (token.offset :: offsets)) = 0 := by
    rw [List.countP_eq_zero]
    intro other listed
    have behind := (List.pairwise_cons.mp increasing).1 other listed
    simp [Token.marked_cons, unmarked other listed, Nat.ne_of_gt behind]
  rw [List.countP_cons, later]
  simp [Token.marked_cons]

/-- Each of some chunks with code has one marked operator. -/
theorem countP_firstOffsets (code : ∀ chunk ∈ chunks, hasCode chunk = true) {count : Nat}
    (bound : count ≤ chunks.length) :
    (tokensFrom base (chunks.take count).flatten).countP (Token.marked (firstOffsets base chunks)) =
      count := by
  induction chunks generalizing base count with
  | nil =>
    obtain rfl := Nat.le_zero.mp bound
    rfl
  | cons first rest ih =>
    cases count with
    | zero => rfl
    | succ count =>
      obtain ⟨token, others, spelled⟩ :=
        List.exists_cons_of_ne_nil (tokensFrom_ne_nil base (code first (List.mem_cons_self ..)))
      have marks : firstOffsets base (first :: rest) =
          token.offset :: firstOffsets (base + first.length) rest := by
        simp [firstOffsets, spelled]
      have ends (other : Token) (listed : other ∈ token :: others) :
          other.offset < base + first.length := by
        rw [← spelled] at listed
        exact offset_lt_of_mem_tokensFrom listed
      have here : (tokensFrom base first).countP (Token.marked (firstOffsets base (first :: rest))) = 1 := by
        have increasing := increasing_tokensFrom base first
        rw [spelled] at increasing ⊢
        rw [marks]
        exact countP_marked_first increasing fun other listed =>
          unmarked_of_lt (ends other (List.mem_cons_of_mem _ listed))
      have behind : (tokensFrom (base + first.length) (rest.take count).flatten).countP
          (Token.marked (firstOffsets base (first :: rest))) = count := by
        have counted := @ih (base + first.length)
          (fun chunk listed => code chunk (List.mem_cons_of_mem _ listed)) count
          (Nat.le_of_succ_le_succ bound)
        refine Eq.trans (List.countP_congr fun other listed => ?_) counted
        have before := ends token (List.mem_cons_self ..)
        have after := le_offset_of_mem_tokensFrom listed
        have apart : other.offset ≠ token.offset := by omega
        simp [marks, Token.marked_cons, apart]
      rw [List.take_succ_cons, List.flatten_cons, tokensFrom_append, List.countP_append, here, behind,
        Nat.add_comm]

theorem mem_chunkBreakpoints_iff : offset ∈ chunkBreakpoints chunks ↔ ∃ count chunk token,
    chunks[count + 1]? = some chunk ∧
      (tokensFrom (chunks.take (count + 1)).flatten.length chunk).head? = some token ∧
      token.offset = offset := by
  cases chunks with
  | nil => simp [chunkBreakpoints]
  | cons first rest =>
    rw [chunkBreakpoints, mem_firstOffsets_iff]
    simp only [List.getElem?_cons_succ, List.take_succ_cons, List.flatten_cons, List.length_append]

/-- The first of the chunks has no marked operator. -/
theorem countP_chunkBreakpoints (code : ∀ chunk ∈ chunks.tail, hasCode chunk = true) {count : Nat}
    (bound : count < chunks.length) :
    (tokens (chunks.take (count + 1)).flatten).countP (Token.marked (chunkBreakpoints chunks)) =
      count := by
  cases chunks with
  | nil => cases bound
  | cons first rest =>
    have none : (tokensFrom 0 first).countP (Token.marked (firstOffsets first.length rest)) = 0 := by
      rw [List.countP_eq_zero]
      intro token listed
      have before := offset_lt_of_mem_tokensFrom listed
      rw [unmarked_of_lt (by omega)]
      exact Bool.false_ne_true
    have later := @countP_firstOffsets first.length rest code count (Nat.le_of_lt_succ bound)
    rw [tokens, List.take_succ_cons, List.flatten_cons, tokensFrom_append, Nat.zero_add,
      List.countP_append, chunkBreakpoints, none, later, Nat.zero_add]

end Offsets

section Cuts

variable {chunks : List Text} {chunk : Text} {block : Block} {count : Nat} {token : Token}

/-- Where the chunks up to one are closed in themselves, the statements are cut there as the text is. -/
theorem exists_cut (spelled : block.tokens = tokens chunks.flatten)
    (sound : bracketFault? (tokens (chunks.take count).flatten) = none)
    (listed : chunks[count]? = some chunk)
    (begins : (tokensFrom (chunks.take count).flatten.length chunk).head? = some token) :
    ∃ first second : Block, block = first.append second ∧
      first.tokens = tokens (chunks.take count).flatten ∧ second.first? = some token := by
  obtain ⟨first, found⟩ := Block.exists_ofTokens?_of_bracketFault? sound
  have front := Block.tokens_ofTokens? found
  have text : chunks.flatten =
      (chunks.take count).flatten ++ (chunk ++ (chunks.drop (count + 1)).flatten) := by
    obtain ⟨inside, rfl⟩ := List.getElem?_eq_some_iff.mp listed
    rw [← List.flatten_cons, ← List.drop_eq_getElem_cons inside, ← List.flatten_append,
      List.take_append_drop]
  have cut : block.tokens = first.tokens ++ tokensFrom (chunks.take count).flatten.length
      (chunk ++ (chunks.drop (count + 1)).flatten) := by
    rw [spelled, text, front, tokens, tokens, tokensFrom_append, Nat.zero_add]
  obtain ⟨second, rfl, behind⟩ := Block.exists_append cut
  refine ⟨first, second, rfl, front, ?_⟩
  rw [← Block.head?_tokens, behind, tokensFrom_append, List.head?_append, begins]
  rfl

/-- No breakpoint stands inside a statement of the script. -/
theorem unmarked_inside (spelled : block.tokens = tokens chunks.flatten)
    (sound : ∀ count, bracketFault? (tokens (chunks.take count).flatten) = none) :
    ∀ token ∈ block.inside, token.marked (chunkBreakpoints chunks) = false := by
  intro token within
  refine eq_false_of_ne_true fun marked => ?_
  obtain ⟨count, chunk, cut, listed, begins, same⟩ :=
    mem_chunkBreakpoints_iff.mp (List.contains_iff_mem.mp marked)
  obtain ⟨first, second, rfl, _, cutAt⟩ := exists_cut spelled (sound _) listed begins
  have increasing : Increasing (first.append second).tokens := by
    rw [spelled]
    exact increasing_tokensFrom 0 _
  exact Block.offset_ne_of_inside increasing cutAt within same.symm

end Cuts

/-- Two results with the same tape, output, operations and functions. -/
structure Result.SameState (first second : Result) : Prop where
  tape : first.tape = second.tape
  output : first.output = second.output
  operations : first.operations = second.operations
  functions : first.functions = second.functions

/-- The result shows this state. -/
structure Result.HasState (store : Store) (result : Result) : Prop where
  tape : result.tape = store.tape
  output : result.output = store.output.chars
  operations : result.operations = store.operations
  functions : result.functions = store.functions.listing

theorem Result.HasState.same {store : Store} {first second : Result} (shown : first.HasState store)
    (shownToo : second.HasState store) : first.SameState second :=
  ⟨shown.tape.trans shownToo.tape.symm, shown.output.trans shownToo.output.symm,
    shown.operations.trans shownToo.operations.symm, shown.functions.trans shownToo.functions.symm⟩

/-- The session has paused in front of the chunk number `count`: at its first operator, in the state in
which a run of the chunks before it ends. -/
structure Session.PausesBefore (config : Config) (chunks : List Text) (input : Text) (count : Nat)
    (session : Session) : Prop where
  continues : session.canContinue = true
  breakpoint : ∃ chunk token, chunks[count]? = some chunk ∧
    (tokensFrom (chunks.take count).flatten.length chunk).head? = some token ∧
    session.result.breakpoint = some token.offset
  ends : ∃ fuel watch result, run fuel watch config (chunks.take count).flatten input = .ok (some result)
  same : ∀ fuel watch result, run fuel watch config (chunks.take count).flatten input =
    .ok (some result) → result.SameState session.result

/-- A run of statements that come to their end shows the state they end in. Where there are none, it
shows the start. -/
theorem run_hasState {config : Config} {source input : Text} {first : Block} {left : Store}
    (valid : config.validate = .ok ()) (unbounded : config.budget = none)
    (sound : bracketFault? (tokens source) = none) (spelled : first.tokens = tokens source)
    (means : Means config.mode 1 (.statements first) (.start (.blank config.tapeSize) input) left none)
    (watch : Stopwatch) :
    (∃ fuel result, run fuel watch config source input = .ok (some result)) ∧
      ∀ fuel result, run fuel watch config source input = .ok (some result) → result.HasState left := by
  simp only [run_eq_runOn valid]
  cases code : hasCode source with
  | true =>
    have accepted := readScript_eq_ok_iff.mpr ⟨code, sound, spelled⟩
    obtain ⟨ends, reports⟩ := follows_runOn unbounded accepted input (.blank config.tapeSize) watch
    refine ⟨ends.mpr ⟨left, none, means⟩, fun fuel result ran => ?_⟩
    have shown := reports fuel result left none ran means
    exact ⟨shown.tape, shown.output, shown.operations, shown.functions⟩
  | false =>
    have nothing : first = .done := by
      by_contra filled
      have silent : operators first.tokens = [] := by
        rw [spelled, tokens, operators_tokensFrom, filterMap_ofChar?_of_comment code]
      exact Block.tokens_ne_nil filled (List.map_eq_nil_iff.mp silent)
    subst nothing
    cases means
    have ran (fuel : Nat) : runOn fuel watch config source input (.blank config.tapeSize) =
        some (Rejection.noCode.result source (.blank config.tapeSize)) := by
      simp [runOn, readScript, code]
    simp only [ran]
    refine ⟨⟨0, _, rfl⟩, fun fuel result shown => ?_⟩
    cases shown
    exact ⟨rfl, rfl, rfl, rfl⟩

section Closed

variable {config : Config} {chunks : List Text} {input : Text} {block : Block} {last : Store} {count : Nat}
  (accepted : readScript chunks.flatten = .ok block)
  (means : Means config.mode 1 (.statements block) (.start (.blank config.tapeSize) input) last none)
  (code : ∀ chunk ∈ chunks.tail, hasCode chunk = true)
  (sound : ∀ count, bracketFault? (tokens (chunks.take count).flatten) = none)

include accepted means code sound

/-- The run comes to the first operator of a chunk as to the hit of its number, in the state in which
the chunks before it end. -/
theorem exists_hit_of_cut {chunk : Text} {token : Token} (listed : chunks[count + 1]? = some chunk)
    (begins : (tokensFrom (chunks.take (count + 1)).flatten.length chunk).head? = some token) :
    ∃ first left place stack, Block.tokens first = tokens (chunks.take (count + 1)).flatten ∧
      Means config.mode 1 (.statements first) (.start (.blank config.tapeSize) input) left none ∧
      IsHit (chunkBreakpoints chunks)
        (plainRun config.mode block input (.blank config.tapeSize)) count place ∧
      plainRun config.mode block input (.blank config.tapeSize) place =
        .running ⟨left, stack, true⟩ ∧
      stack.inner.current? = some token := by
  obtain ⟨_, _, spelled⟩ := readScript_eq_ok_iff.mp accepted
  have unmarked := unmarked_inside spelled sound
  have whole := tidy_of_readScript accepted
  obtain ⟨final, ended⟩ := means.finishes
  obtain ⟨first, second, rfl, front, cutAt⟩ := exists_cut spelled (sound _) listed begins
  obtain ⟨left, meansFirst, leads⟩ := means.front
  obtain ⟨place, reached⟩ := leads (.top _) rfl rfl
  have here : ((Stack.top (first.append second)).skipTo second).inner.current? = some token :=
    Level.current?_of_rest rfl cutAt
  refine ⟨first, left, place, _, front, meansFirst, ⟨?_, ?_⟩, reached, here⟩
  · have marked : token.offset ∈ chunkBreakpoints chunks :=
      mem_chunkBreakpoints_iff.mpr ⟨count, chunk, token, listed, begins, rfl⟩
    rw [plainRun, Machine.launch, reached, Progress.hits, Progress.upcoming?, here]
    exact List.contains_iff_mem.mpr marked
  · have total := hitsBefore_add_ahead whole unmarked ended place
    have ahead : (plainRun config.mode (first.append second) input (.blank config.tapeSize)
        place).ahead = second := by
      rw [plainRun, Machine.launch, reached]
      rfl
    have inside := (List.getElem?_eq_some_iff.mp listed).1
    have passed := countP_chunkBreakpoints code (Nat.lt_of_succ_lt inside)
    rw [ahead, Block.tokens_append, List.countP_append, front, passed] at total
    exact Nat.add_right_cancel total

/-- There are fewer hits than chunks. -/
theorem hitsBefore_lt_length (place : Nat) :
    hitsBefore (chunkBreakpoints chunks)
      (plainRun config.mode block input (.blank config.tapeSize)) place < chunks.length := by
  obtain ⟨coded, _, spelled⟩ := readScript_eq_ok_iff.mp accepted
  obtain ⟨final, ended⟩ := means.finishes
  have nonempty : 0 < chunks.length := by
    cases chunks with
    | nil => cases coded
    | cons chunk rest => exact Nat.succ_pos _
  have whole := tidy_of_readScript accepted
  have total := hitsBefore_add_ahead whole (unmarked_inside spelled sound) ended place
  have all := countP_chunkBreakpoints code (Nat.sub_one_lt_of_lt nonempty)
  rw [Nat.sub_add_cancel nonempty, List.take_length, ← spelled] at all
  omega

/-- After so many requests to resume the session has paused in front of the next chunk. -/
theorem pausesBefore_of_resumed (valid : config.validate = .ok ()) (unbounded : config.budget = none)
    (more : count + 1 < chunks.length) :
    (∃ session, Session.Reached config chunks input (List.replicate count .resume) session) ∧
      ∀ session, Session.Reached config chunks input (List.replicate count .resume) session →
        session.PausesBefore config chunks input (count + 1) := by
  have size := Config.tapeSize_pos valid
  obtain ⟨chunk, listed⟩ : ∃ chunk, chunks[count + 1]? = some chunk :=
    ⟨_, List.getElem?_eq_some_iff.mpr ⟨more, rfl⟩⟩
  have coded : hasCode chunk = true := by
    rw [← List.getElem?_tail] at listed
    exact code chunk (List.mem_of_getElem? listed)
  obtain ⟨token, others, begins⟩ := List.exists_cons_of_ne_nil
    (tokensFrom_ne_nil (chunks.take (count + 1)).flatten.length coded)
  have begins := congrArg List.head? begins
  obtain ⟨first, left, place, stack, front, meansFirst, hit, stands, here⟩ :=
    exists_hit_of_cut accepted means code sound listed begins
  refine ⟨exists_reached_of_hit size unbounded accepted hit, fun session reached => ?_⟩
  obtain ⟨continues, shows⟩ := reached.continues_iff_hit size unbounded accepted
  obtain ⟨machine, shown, standsToo, upcoming, breakpoint, state⟩ := shows place hit
  obtain rfl := Progress.running.inj (stands.symm.trans standsToo)
  obtain rfl : token = shown := by
    rw [standsToo] at upcoming
    exact Option.some.inj (here.symm.trans upcoming)
  have alone := run_hasState valid unbounded (sound _) front meansFirst
  refine ⟨continues.mpr ⟨place, hit⟩, ⟨chunk, token, listed, begins, breakpoint⟩, ?_, ?_⟩
  · obtain ⟨fuel, result, ran⟩ := (alone fun _ => 0).1
    exact ⟨fuel, _, result, ran⟩
  · intro fuel watch result ran
    obtain ⟨tape, output, operations, functions⟩ := state
    exact ((alone watch).2 fuel result ran).same ⟨tape, output, operations, functions⟩

end Closed

/-- Every chunk but the first has an operator, and the chunks up to each one are closed in themselves.
If the whole script is run with success and without a budget, a session that is resumed again and again
pauses once in front of every chunk but the first, and nowhere else: at the first operator of the chunk
and in the state in which a run of the chunks before it ends. It can continue until the last chunk is
done. -/
theorem chunks_pause_once_each (config : Config) (chunks : List Text) (input : Text)
    (unbounded : config.budget = none) (code : ∀ chunk ∈ chunks.tail, hasCode chunk = true)
    (accepts : ∀ count, (bracketReport (chunks.take count).flatten).valid = true) (fuel : Nat)
    (watch : Stopwatch) (result : Result)
    (ran : run fuel watch config chunks.flatten input = .ok (some result))
    (success : result.exitCode.isSuccess = true) (count : Nat) :
    (count < chunks.length →
      ∃ session, Session.Reached config chunks input (List.replicate count .resume) session) ∧
    ∀ session, Session.Reached config chunks input (List.replicate count .resume) session →
      count < chunks.length ∧
      (count + 1 < chunks.length → session.PausesBefore config chunks input (count + 1)) ∧
      (count + 1 = chunks.length → session.canContinue = false ∧ result.Agrees session.result) := by
  obtain ⟨valid, ranOn⟩ := runOn_of_run ran
  obtain ⟨block, last, accepted, means, _⟩ := means_of_success ranOn success
  have size := Config.tapeSize_pos valid
  have sound (count : Nat) := valid_bracketReport_iff.mp (accepts count)
  have pauses (count : Nat) (more : count + 1 < chunks.length) :=
    pausesBefore_of_resumed accepted means code sound valid unbounded more
  have few := hitsBefore_lt_length accepted means code sound
  refine ⟨fun within => ?_, fun session reached => ⟨?_, ?_, ?_⟩⟩
  · cases count with
    | zero =>
      obtain ⟨fuel, session, started⟩ := exists_start_of_run size unbounded ran watch
      exact ⟨session, .start started⟩
    | succ count =>
      obtain ⟨⟨session, reached⟩, shown⟩ := pauses count within
      obtain ⟨fuel, next, served⟩ := reached.exists_serve_of_run size unbounded ran
        (shown session reached).continues .resume watch
      exact ⟨next, .serve reached served⟩
  · obtain ⟨place, _, _, counted⟩ := reached.count_hits size unbounded accepted
    exact lt_of_eq_of_lt counted.symm (few place)
  · exact fun more => (pauses count more).2 session reached
  · intro final
    have stuck : session.canContinue = false := by
      refine eq_false_of_ne_true fun continues => ?_
      obtain ⟨place, hit⟩ := (reached.continues_iff_hit size unbounded accepted).1.mp continues
      have another : hitsBefore _ _ (place + 1) = count + 1 :=
        (hitsBefore_succ_of_hit hit.1).trans (congrArg (· + 1) hit.2)
      have bound := few (place + 1)
      exact Nat.lt_irrefl _ (lt_of_eq_of_lt (another.trans final).symm bound)
    exact ⟨stuck, (reached.agrees size unbounded stuck watch).2 fuel result ran⟩

/-- A function, its call, and a loop behind a comment. -/
theorem chunks_pause_once_each_of_three :
    ∃ first second third,
      Session.Reached ⟨.byte, 1, none⟩ ["(+)".toList, ":".toList, "then +[-]".toList] [] [] first ∧
      first.PausesBefore ⟨.byte, 1, none⟩ ["(+)".toList, ":".toList, "then +[-]".toList] [] 1 ∧
      Session.Reached ⟨.byte, 1, none⟩ ["(+)".toList, ":".toList, "then +[-]".toList] [] [.resume]
        second ∧
      second.PausesBefore ⟨.byte, 1, none⟩ ["(+)".toList, ":".toList, "then +[-]".toList] [] 2 ∧
      Session.Reached ⟨.byte, 1, none⟩ ["(+)".toList, ":".toList, "then +[-]".toList] []
        [.resume, .resume] third ∧ third.canContinue = false := by
  have code : ∀ chunk ∈ [":".toList, "then +[-]".toList], hasCode chunk = true := by decide
  have accepts (count : Nat) : (bracketReport
      (["(+)".toList, ":".toList, "then +[-]".toList].take count).flatten).valid = true := by
    match count with
    | 0 | 1 | 2 => decide
    | count + 3 =>
      rw [List.take_of_length_le (by simp)]
      decide
  have pauses := chunks_pause_once_each ⟨.byte, 1, none⟩ ["(+)".toList, ":".toList, "then +[-]".toList] []
    rfl code accepts 9 (fun _ => 0) _ rfl (by decide)
  obtain ⟨first, reachedFirst⟩ := (pauses 0).1 (by decide)
  obtain ⟨second, reachedSecond⟩ := (pauses 1).1 (by decide)
  obtain ⟨third, reachedThird⟩ := (pauses 2).1 (by decide)
  exact ⟨first, second, third, reachedFirst, ((pauses 0).2 first reachedFirst).2.1 (by decide),
    reachedSecond, ((pauses 1).2 second reachedSecond).2.1 (by decide), reachedThird,
    (((pauses 2).2 third reachedThird).2.2 rfl).1⟩

end TapeStepper
