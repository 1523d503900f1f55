import TapeStepper.CommandLine
import TapeStepper.Proofs.Chunks

namespace TapeStepper

/-- The offset of the first of the tokens at or behind `start`. -/
def firstFrom? (start : Nat) (tokens : List Token) : Option Nat :=
  (tokens.find? fun token => decide (start ≤ token.offset)).map Token.offset

/-- The offset at which a line begins, counted from one: all lines before it and their line ends are
passed. -/
def lineStart (source : Text) (line : Nat) : Nat :=
  (((textLines source).take (line - 1)).flatMap fun text => text ++ ['\n']).length

/-- The offsets at which the chunks begin. -/
def chunkStarts (base : Nat) : List Text → List Nat
  | [] => []
  | chunk :: chunks => base :: chunkStarts (base + chunk.length) chunks

section First

variable {base start offset : Nat} {chunks : List Text}

theorem firstFrom?_append {front : List Token} (before : ∀ token ∈ front, token.offset < start)
    (tokens : List Token) : firstFrom? start (front ++ tokens) = firstFrom? start tokens := by
  have none : front.find? (fun token => decide (start ≤ token.offset)) = none := by
    rw [List.find?_eq_none]
    intro token listed
    have bound := before token listed
    simp only [decide_eq_true_eq]
    omega
  rw [firstFrom?, List.find?_append, none, Option.none_or, firstFrom?]

theorem firstFrom?_base (base : Nat) (source : Text) :
    firstFrom? base (tokensFrom base source) = (tokensFrom base source).head?.map Token.offset := by
  cases code : tokensFrom base source with
  | nil => rfl
  | cons token rest =>
    have listed : token ∈ tokensFrom base source := code ▸ List.mem_cons_self ..
    have bound := le_offset_of_mem_tokensFrom listed
    simp [firstFrom?, bound]

theorem exists_token_of_firstFrom? {tokens : List Token} (found : firstFrom? start tokens = some offset) :
    ∃ token ∈ tokens, token.offset = offset := by
  obtain ⟨token, first, same⟩ := Option.map_eq_some_iff.mp found
  exact ⟨token, List.mem_of_find?_eq_some first, same⟩

theorem le_of_mem_chunkStarts (listed : start ∈ chunkStarts base chunks) : base ≤ start := by
  induction chunks generalizing base with
  | nil => cases listed
  | cons chunk chunks ih =>
    rcases List.mem_cons.mp listed with rfl | later
    · exact Nat.le_refl _
    · exact Nat.le_trans (Nat.le_add_right ..) (ih later)

/-- Chunks behind a text are as if the text was not there. -/
theorem firstFrom?_behind (chunk source : Text) (behind : base + chunk.length ≤ start) :
    firstFrom? start (tokensFrom base (chunk ++ source)) =
      firstFrom? start (tokensFrom (base + chunk.length) source) := by
  rw [tokensFrom_append]
  refine firstFrom?_append (fun token listed => ?_) _
  have bound := offset_lt_of_mem_tokensFrom listed
  omega

/-- A chunk without operators has no breakpoint of its own, but there is one at the next operator. -/
theorem mem_firstOffsets_iff_starts : offset ∈ firstOffsets base chunks ↔
    ∃ start ∈ chunkStarts base chunks, firstFrom? start (tokensFrom base chunks.flatten) = some offset := by
  induction chunks generalizing base with
  | nil => simp [firstOffsets, chunkStarts]
  | cons chunk chunks ih =>
    have later {start : Nat} (listed : start ∈ chunkStarts (base + chunk.length) chunks) :
        firstFrom? start (tokensFrom base (chunk ++ chunks.flatten)) =
          firstFrom? start (tokensFrom (base + chunk.length) chunks.flatten) :=
      firstFrom?_behind chunk chunks.flatten (le_of_mem_chunkStarts listed)
    rw [firstOffsets, List.mem_append, Option.mem_toList, ih, chunkStarts, List.flatten_cons]
    constructor
    · rintro (here | ⟨start, listed, found⟩)
      · refine ⟨base, List.mem_cons_self .., ?_⟩
        obtain ⟨token, first, same⟩ := Option.map_eq_some_iff.mp here
        rw [firstFrom?_base, tokensFrom_append, List.head?_append, first, Option.some_or]
        exact congrArg some same
      · exact ⟨start, List.mem_cons_of_mem _ listed, (later listed).trans found⟩
    · rintro ⟨start, listed, found⟩
      rcases List.mem_cons.mp listed with rfl | listed
      · rw [firstFrom?_base, tokensFrom_append, List.head?_append] at found
        cases first : (tokensFrom start chunk).head? with
        | some token => exact .inl (by rwa [first] at found)
        | none =>
          rw [first, Option.none_or] at found
          cases chunks with
          | nil => cases found
          | cons second rest =>
            exact .inr ⟨start + chunk.length, List.mem_cons_self .., (firstFrom?_base _ _).trans found⟩
      · exact .inr ⟨start, listed, (later listed).symm.trans found⟩

theorem pairwise_firstOffsets (base : Nat) (chunks : List Text) :
    (firstOffsets base chunks).Pairwise (· < ·) := by
  induction chunks generalizing base with
  | nil => exact .nil
  | cons chunk chunks ih =>
    refine List.pairwise_append.mpr ⟨?_, ih _, ?_⟩
    · cases (tokensFrom base chunk).head? <;> simp
    · intro first here second later
      obtain ⟨token, begins, rfl⟩ := Option.map_eq_some_iff.mp (Option.mem_toList.mp here)
      have inside := offset_lt_of_mem_tokensFrom (List.mem_of_mem_head? begins)
      have behind := le_of_mem_firstOffsets later
      omega

theorem pairwise_chunkBreakpoints (chunks : List Text) : (chunkBreakpoints chunks).Pairwise (· < ·) := by
  cases chunks with
  | nil => exact .nil
  | cons chunk chunks => exact pairwise_firstOffsets _ _

/-- The breakpoints of chunks are the first operators at or behind the starts of the later ones. -/
theorem mem_chunkBreakpoints_iff_starts : offset ∈ chunkBreakpoints chunks ↔
    ∃ start ∈ (chunkStarts 0 chunks).tail, firstFrom? start (tokens chunks.flatten) = some offset := by
  cases chunks with
  | nil => simp [chunkBreakpoints, chunkStarts]
  | cons chunk chunks =>
    rw [chunkBreakpoints, mem_firstOffsets_iff_starts, chunkStarts, List.tail_cons, Nat.zero_add]
    refine exists_congr fun start => and_congr_right fun listed => ?_
    have behind := le_of_mem_chunkStarts listed
    rw [tokens, List.flatten_cons, firstFrom?_behind chunk chunks.flatten (by omega), Nat.zero_add]

end First

section Lines

variable {c : Char} {rest : Text}

@[simp]
theorem lineStart_one (source : Text) : lineStart source 1 = 0 := rfl

theorem lineStart_newline (rest : Text) (line : Nat) :
    lineStart ('\n' :: rest) (line + 2) = lineStart rest (line + 1) + 1 := by
  simp [lineStart, textLines]

theorem lineStart_cons (inside : c ≠ '\n') (line : Nat) :
    lineStart (c :: rest) (line + 2) = lineStart rest (line + 2) + 1 := by
  unfold lineStart
  rw [textLines, if_neg inside]
  cases lines : textLines rest with
  | nil => exact absurd lines (textLines_ne_nil rest)
  | cons first others =>
    simp only [consFirst, List.take_succ_cons, List.flatMap_cons, List.length_append, List.length_cons,
      Nat.add_one_sub_one]
    omega

theorem splitLinesFrom_ne_nil (line : Nat) (asked : List Nat) (source : Text) :
    splitLinesFrom line asked source ≠ [] := by
  have consFirst_ne_nil (c : Char) (pieces : List Text) : consFirst c pieces ≠ [] := by
    cases pieces <;> simp [consFirst]
  cases source with
  | nil => simp [splitLinesFrom]
  | cons c rest =>
    unfold splitLinesFrom
    split
    · dsimp only
      split
      · simp
      · exact consFirst_ne_nil _ _
    · exact consFirst_ne_nil _ _

theorem tail_chunkStarts_consFirst (base : Nat) (c : Char) {chunks : List Text} (nonempty : chunks ≠ []) :
    (chunkStarts base (consFirst c chunks)).tail = (chunkStarts (base + 1) chunks).tail := by
  cases chunks with
  | nil => exact absurd rfl nonempty
  | cons chunk chunks =>
    simp only [consFirst, chunkStarts, List.tail_cons, List.length_cons]
    congr 1
    omega

theorem chunkStarts_eq_cons (base : Nat) {chunks : List Text} (nonempty : chunks ≠ []) :
    chunkStarts base chunks = base :: (chunkStarts base chunks).tail := by
  cases chunks with
  | nil => exact absurd rfl nonempty
  | cons chunk chunks => rfl

/-- The later chunks begin where the lines begin that are asked for. -/
theorem mem_tail_chunkStarts_iff {line base start : Nat} {asked : List Nat} {source : Text} :
    start ∈ (chunkStarts base (splitLinesFrom line asked source)).tail ↔
      ∃ index < source.count '\n', line + 1 + index ∈ asked ∧
        start = base + lineStart source (index + 2) := by
  induction source generalizing line base with
  | nil => simp [splitLinesFrom, chunkStarts]
  | cons c rest ih =>
    have nonempty (line : Nat) := splitLinesFrom_ne_nil line asked rest
    unfold splitLinesFrom
    split
    · rename_i ends
      subst ends
      -- The line that begins here is the first of those to come, the others are one further.
      have further : (∃ index < rest.count '\n', line + 1 + 1 + index ∈ asked ∧
            start = base + 1 + lineStart rest (index + 2)) ↔
          ∃ index < rest.count '\n', line + 1 + (index + 1) ∈ asked ∧
            start = base + lineStart ('\n' :: rest) (index + 1 + 2) := by
        refine exists_congr fun index => and_congr_right fun _ => ?_
        rw [lineStart_newline, show line + 1 + 1 + index = line + 1 + (index + 1) by omega,
          show base + 1 + lineStart rest (index + 2) = base + (lineStart rest (index + 1 + 1) + 1) by
            rw [Nat.add_assoc base, Nat.add_comm 1]]
      rw [List.count_cons_self, Nat.exists_lt_succ_left, lineStart_newline, lineStart_one, ← further, ← ih]
      dsimp only
      split
      · rename_i wanted
        rw [chunkStarts, List.tail_cons, List.length_singleton, chunkStarts_eq_cons _ (nonempty _),
          List.mem_cons, List.tail_cons]
        simp [wanted]
      · rename_i unwanted
        rw [tail_chunkStarts_consFirst _ _ (nonempty _)]
        simp [unwanted]
    · rename_i inside
      rw [tail_chunkStarts_consFirst _ _ (nonempty _), ih, List.count_cons_of_ne inside]
      refine exists_congr fun index => and_congr_right fun _ => and_congr_right fun _ => ?_
      rw [lineStart_cons inside, Nat.add_assoc base, Nat.add_comm 1]

theorem mem_tail_chunkStarts_splitAtLines {start : Nat} {asked : List Nat} {source : Text} :
    start ∈ (chunkStarts 0 (splitAtLines source asked)).tail ↔
      ∃ line ∈ asked, 2 ≤ line ∧ line ≤ 1 + source.count '\n' ∧ start = lineStart source line := by
  rw [splitAtLines, mem_tail_chunkStarts_iff]
  constructor
  · rintro ⟨index, bound, wanted, same⟩
    refine ⟨1 + 1 + index, wanted, by omega, by omega, ?_⟩
    rw [same, Nat.zero_add, Nat.add_comm index]
  · rintro ⟨line, wanted, second, bound, same⟩
    obtain ⟨index, rfl⟩ := Nat.exists_eq_add_of_le second
    exact ⟨index, by omega, wanted, by rw [same, Nat.zero_add, Nat.add_comm 2]⟩

end Lines

/-- The breakpoints are the first operators at or behind the starts of the lines asked for, in order. -/
structure BreaksAtLines (source : Text) (asked breakpoints : List Nat) : Prop where
  ascending : breakpoints.Pairwise (· < ·)
  listed : ∀ offset, offset ∈ breakpoints ↔ ∃ line ∈ asked, 2 ≤ line ∧ line ≤ 1 + source.count '\n' ∧
    firstFrom? (lineStart source line) (tokens source) = some offset
  spelled : ∀ offset ∈ breakpoints, ∃ token ∈ tokens source, token.offset = offset

theorem breaksAtLines_splitAtLines (source : Text) (asked : List Nat) :
    BreaksAtLines source asked (chunkBreakpoints (splitAtLines source asked)) := by
  have listed (offset : Nat) : offset ∈ chunkBreakpoints (splitAtLines source asked) ↔
      ∃ line ∈ asked, 2 ≤ line ∧ line ≤ 1 + source.count '\n' ∧
        firstFrom? (lineStart source line) (tokens source) = some offset := by
    rw [mem_chunkBreakpoints_iff_starts, flatten_splitAtLines]
    constructor
    · rintro ⟨start, begins, found⟩
      obtain ⟨line, wanted, second, bound, rfl⟩ := mem_tail_chunkStarts_splitAtLines.mp begins
      exact ⟨line, wanted, second, bound, found⟩
    · rintro ⟨line, wanted, second, bound, found⟩
      exact ⟨_, mem_tail_chunkStarts_splitAtLines.mpr ⟨line, wanted, second, bound, rfl⟩, found⟩
  refine ⟨pairwise_chunkBreakpoints _, listed, fun offset marked => ?_⟩
  obtain ⟨line, _, _, _, found⟩ := (listed offset).mp marked
  exact exists_token_of_firstFrom? found

/-- A session of a script that was read keeps the breakpoints of its chunks. -/
theorem Session.Reached.breakpoints_eq {config : Config} {chunks : List Text} {input : Text}
    {requests : List Session.Request} {session : Session} {block : Block}
    (accepted : readScript chunks.flatten = .ok block)
    (reached : Reached config chunks input requests session) :
    session.breakpoints = chunkBreakpoints chunks := by
  obtain ⟨elapsed, store, outcome, rfl, _⟩ := reached.attains accepted
  rfl

/-- Breaking at lines means what it says. A script that can be run is cut into chunks that make it up
again; a session of these chunks is set up under every configuration in order, and from then on it has its
breakpoints at the first operators at or behind the starts of the lines asked for, apart from the first line
and from lines that the script does not have. -/
theorem break_at_lines_marks_lines (source : Text) (block : Block)
    (accepted : readScript source = .ok block) (asked : List Nat) :
    (splitAtLines source asked).flatten = source ∧
    (∀ config input, config.validate = .ok () → ∃ plan,
      Session.prepare config (splitAtLines source asked) input =
        .ok (.inr (plan, .launch block (.start (.blank config.tapeSize) input))) ∧
      BreaksAtLines source asked plan.breakpoints) ∧
    ∀ config input requests session,
      Session.Reached config (splitAtLines source asked) input requests session →
      BreaksAtLines source asked session.breakpoints := by
  have whole := flatten_splitAtLines source asked
  have breaks := breaksAtLines_splitAtLines source asked
  rw [← whole] at accepted
  refine ⟨whole, fun config input valid => ?_, fun config input requests session reached => ?_⟩
  · exact ⟨_, prepare_of_accepted valid accepted, breaks⟩
  · rw [reached.breakpoints_eq accepted]
    exact breaks

/-- Lines asked for twice, out of order, beyond the end and with nothing but a comment on them, in a text
with a character of two bytes. -/
theorem break_at_lines_marks_lines_behind_a_comment :
    ∃ session, Session.Reached ⟨.short, 1, none⟩
        (splitAtLines "+é\n\nso\n-\n+".toList [5, 2, 3, 5, 1, 9]) [] [] session ∧
      session.breakpoints = [7, 9] ∧
      BreaksAtLines "+é\n\nso\n-\n+".toList [5, 2, 3, 5, 1, 9] session.breakpoints ∧
      ∃ plan machine, Session.prepare ⟨.short, 1, none⟩
          (splitAtLines "+é\n\nso\n-\n+".toList [5, 2, 3, 5, 1, 9]) [] = .ok (.inr (plan, machine)) ∧
        BreaksAtLines "+é\n\nso\n-\n+".toList [5, 2, 3, 5, 1, 9] plan.breakpoints := by
  obtain ⟨_, prepares, keeps⟩ := break_at_lines_marks_lines "+é\n\nso\n-\n+".toList _ rfl
    [5, 2, 3, 5, 1, 9]
  have reached := @Session.Reached.start ⟨.short, 1, none⟩
    (splitAtLines "+é\n\nso\n-\n+".toList [5, 2, 3, 5, 1, 9]) [] 9 (fun _ => 0) _ rfl
  obtain ⟨plan, prepared, breaks⟩ := prepares ⟨.short, 1, none⟩ [] rfl
  exact ⟨_, reached, rfl, keeps _ _ _ _ reached, plan, _, prepared, breaks⟩

end TapeStepper
