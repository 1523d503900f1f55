import TapeStepper.Proofs.Failures
import TapeStepper.Proofs.Lines

namespace TapeStepper

namespace Pane

/-- Whether the offset is in an ascending list, where only the places from `base` on are left, `size` in
number. Each question is about the middle and halves their number. -/
def searchFrom (offsets : List Nat) (offset base size : Nat) : Bool :=
  if 1 < size then
    let half := size / 2
    if offset < offsets.getD (base + half) 0 then searchFrom offsets offset base (size - half)
    else searchFrom offsets offset (base + half) (size - half)
  else offsets[base]? == some offset
termination_by size
decreasing_by all_goals omega

def search (offsets : List Nat) (offset : Nat) : Bool :=
  searchFrom offsets offset 0 offsets.length

/-- A piece of a line in one style. -/
structure Span where
  text : Text
  style : Style

def Span.glyphs (span : Span) : List Glyph :=
  styled span.style span.text

/-- The comment gathered so far as a piece, unless there is none. -/
def commentSpan (comment : Text) : List Span :=
  if comment = [] then [] else [⟨comment, Style.color Theme.comment⟩]

namespace SourceView

/-- The background of the stop. -/
def stopColor (view : SourceView) : Color :=
  if view.isError then Theme.error else Theme.secondary

/-- The style of an operator, with the breakpoints searched by halves. -/
def searchedStyle (view : SourceView) (offset : Nat) (operator : Operator) : Style :=
  let plain := (Style.color (Theme.operator operator)).strong
  let style := if search view.breakpoints offset then { plain with underlined := true } else plain
  if view.stop = some offset then
    { style with foreground := some .black, background := some view.stopColor }
  else style

/-- The pieces of what is left of a line, behind the comment that has been gathered. -/
def spansFrom (view : SourceView) (offset : Nat) (comment : Text) : Text → List Span
  | [] => commentSpan comment
  | c :: rest =>
    match Operator.ofChar? c with
    | some operator => commentSpan comment ++
        ⟨[c], view.searchedStyle offset operator⟩ :: view.spansFrom (offset + 1) [] rest
    | none => view.spansFrom (offset + 1) (comment ++ [c]) rest

def spans (view : SourceView) (start : Nat) (line : Text) : List Span :=
  view.spansFrom start [] (trimReturns line)

/-- The character of the text at this offset is drawn as the glyph, in this column of the line of this
index, both counted from zero. -/
def Draws (view : SourceView) (index column offset : Nat) (glyph : Glyph) : Prop :=
  ∃ start line, (indexedLines view.source)[index]? = some (start, line) ∧ start + column = offset ∧
    ((view.spans start line).flatMap Span.glyphs)[column]? = some glyph

end SourceView

section Search

variable {offsets : List Nat} {offset : Nat}

theorem le_of_ascending (ascending : offsets.Pairwise (· ≤ ·)) {first second low high : Nat}
    (order : first ≤ second) (atFirst : offsets[first]? = some low)
    (atSecond : offsets[second]? = some high) : low ≤ high := by
  obtain ⟨_, rfl⟩ := List.getElem?_eq_some_iff.mp atFirst
  obtain ⟨_, rfl⟩ := List.getElem?_eq_some_iff.mp atSecond
  obtain rfl | before := Nat.eq_or_lt_of_le order
  · exact Nat.le_refl _
  · exact List.pairwise_iff_getElem.mp ascending _ _ _ _ before

/-- The offset stays among the places that are left, if it is in the list. -/
theorem searchFrom_eq_contains (ascending : offsets.Pairwise (· ≤ ·)) {base size : Nat}
    (bound : base + size ≤ offsets.length)
    (within : offset ∈ offsets → ∃ index, base ≤ index ∧ index < base + size ∧
      offsets[index]? = some offset) :
    searchFrom offsets offset base size = offsets.contains offset := by
  fun_induction searchFrom offsets offset base size with
  | case1 base size many half below ih =>
    have middle : offsets[base + half]? = some (offsets.getD (base + half) 0) := by
      rw [List.getD_eq_getElem?_getD, List.getElem?_eq_getElem (by omega), Option.getD_some]
    refine ih (by omega) fun listed => ?_
    obtain ⟨index, above, _, here⟩ := within listed
    have before : index < base + half := by
      by_contra behind
      have order := le_of_ascending ascending (Nat.le_of_not_lt behind) middle here
      omega
    exact ⟨index, above, by omega, here⟩
  | case2 base size many half above ih =>
    have middle : offsets[base + half]? = some (offsets.getD (base + half) 0) := by
      rw [List.getD_eq_getElem?_getD, List.getElem?_eq_getElem (by omega), Option.getD_some]
    refine ih (by omega) fun listed => ?_
    obtain ⟨index, _, below, here⟩ := within listed
    by_cases before : index < base + half
    · -- An equal entry before the middle makes the middle equal as well.
      have order := le_of_ascending ascending (Nat.le_of_lt before) here middle
      exact ⟨base + half, Nat.le_refl _, by omega, middle.trans (congrArg some (by omega))⟩
    · exact ⟨index, by omega, by omega, here⟩
  | case3 base size few =>
    rw [Bool.eq_iff_iff, beq_iff_eq, List.contains_iff_mem]
    refine ⟨List.mem_of_getElem?, fun listed => ?_⟩
    obtain ⟨index, above, below, here⟩ := within listed
    obtain rfl : index = base := by omega
    exact here

theorem search_eq_contains (ascending : offsets.Pairwise (· ≤ ·)) (offset : Nat) :
    search offsets offset = offsets.contains offset := by
  refine searchFrom_eq_contains ascending (by omega) fun listed => ?_
  obtain ⟨index, here⟩ := List.mem_iff_getElem?.mp listed
  obtain ⟨inside, _⟩ := List.getElem?_eq_some_iff.mp here
  exact ⟨index, Nat.zero_le _, by omega, here⟩

end Search

section Pieces

variable {view : SourceView}

theorem searchedStyle_eq (ascending : view.breakpoints.Pairwise (· ≤ ·)) (offset : Nat)
    (operator : Operator) : view.searchedStyle offset operator = view.operatorStyle offset operator := by
  unfold SourceView.searchedStyle SourceView.operatorStyle
  rw [search_eq_contains ascending]
  cases view.breakpoints.contains offset <;> rfl

theorem glyphs_commentSpan (comment : Text) :
    (commentSpan comment).flatMap Span.glyphs = styled (Style.color Theme.comment) comment := by
  unfold commentSpan
  split
  · rename_i empty
    rw [empty]
    rfl
  · exact List.append_nil _

/-- Gathering comments changes no glyph. -/
theorem glyphs_spansFrom (ascending : view.breakpoints.Pairwise (· ≤ ·)) (offset : Nat)
    (comment rest : Text) :
    (view.spansFrom offset comment rest).flatMap Span.glyphs =
      styled (Style.color Theme.comment) comment ++
        (rest.zipIdx offset).map fun (c, offset) => view.highlightChar offset c := by
  induction rest generalizing offset comment with
  | nil => exact (glyphs_commentSpan comment).trans (List.append_nil _).symm
  | cons c rest ih =>
    rw [SourceView.spansFrom, List.zipIdx_cons, List.map_cons]
    cases read : Operator.ofChar? c with
    | none => simp [ih, SourceView.highlightChar, read, styled]
    | some operator =>
      simp [ih, glyphs_commentSpan, searchedStyle_eq ascending, SourceView.highlightChar, read, styled,
        Span.glyphs]

theorem glyphs_spans (ascending : view.breakpoints.Pairwise (· ≤ ·)) (start : Nat) (line : Text) :
    (view.spans start line).flatMap Span.glyphs = view.highlightLine start line :=
  glyphs_spansFrom ascending start [] _

theorem text_spansFrom (offset : Nat) (comment rest : Text) :
    (view.spansFrom offset comment rest).flatMap Span.text = comment ++ rest := by
  have gathered (comment : Text) : (commentSpan comment).flatMap Span.text = comment := by
    unfold commentSpan
    split <;> simp_all
  induction rest generalizing offset comment with
  | nil => exact (gathered comment).trans (List.append_nil _).symm
  | cons c rest ih =>
    rw [SourceView.spansFrom]
    cases Operator.ofChar? c with
    | none => simp [ih]
    | some operator => simp [ih, gathered]

/-- A comment is one piece, and the carriage return is in none. -/
example : (view.spans 0 ['a', 'b', '+', '-', 'c', '\r']).map Span.text =
    [['a', 'b'], ['+'], ['-'], ['c']] := rfl

end Pieces

section Glyphs

variable {view : SourceView} {offset : Nat} {c : Char} {operator : Operator}

theorem highlightChar_of_ofChar? (read : Operator.ofChar? c = some operator) :
    view.highlightChar offset c = ⟨c, view.operatorStyle offset operator⟩ := by
  rw [SourceView.highlightChar, read]

theorem char_highlightChar : (view.highlightChar offset c).char = c := by
  unfold SourceView.highlightChar
  split <;> rfl

theorem background_operatorStyle : (view.operatorStyle offset operator).background =
    if view.stop = some offset then some view.stopColor else none := by
  unfold SourceView.operatorStyle
  split <;> rfl

theorem underlined_operatorStyle :
    (view.operatorStyle offset operator).underlined = view.breakpoints.contains offset := by
  unfold SourceView.operatorStyle
  split <;> rfl

/-- Only the stop has a background. -/
theorem stop_of_background (marked : (view.highlightChar offset c).style.background ≠ none) :
    view.stop = some offset := by
  cases read : Operator.ofChar? c with
  | none => simp [SourceView.highlightChar, read, Style.color, Style.plain] at marked
  | some operator =>
    rw [highlightChar_of_ofChar? read, background_operatorStyle] at marked
    by_contra elsewhere
    exact marked (if_neg elsewhere)

end Glyphs

namespace SourceView

variable {view : SourceView} {index column offset : Nat} {glyph : Glyph}

theorem getElem?_highlightLine (view : SourceView) (start column : Nat) (line : Text) :
    (view.highlightLine start line)[column]? =
      (trimReturns line)[column]?.map (view.highlightChar (start + column)) := by
  rw [highlightLine, List.getElem?_map, List.getElem?_zipIdx, Option.map_map]
  rfl

/-- What is drawn in a place is the character that the text has there. -/
theorem Draws.spec (ascending : view.breakpoints.Pairwise (· ≤ ·))
    (draws : view.Draws index column offset glyph) :
    view.source[offset]? = some glyph.char ∧ lineOfOffset view.source offset = index + 1 ∧
      glyph = view.highlightChar offset glyph.char := by
  obtain ⟨start, line, listed, rfl, shown⟩ := draws
  rw [glyphs_spans ascending, getElem?_highlightLine, Option.map_eq_some_iff] at shown
  obtain ⟨c, here, rfl⟩ := shown
  rw [char_highlightChar]
  have holds := hasLine_of_indexedLines listed
  obtain ⟨returns, whole⟩ := exists_returns line
  obtain ⟨inside, _⟩ := List.getElem?_eq_some_iff.mp here
  have bound := length_trimReturns_le line
  have spelled : (line)[column]? = some c := by
    rw [whole, List.getElem?_append_left inside, here]
  exact ⟨(holds.spelled column (by omega)).trans spelled, holds.counted column (by omega), rfl⟩

/-- A character of the text is drawn in one place at most. -/
theorem Draws.place_unique (ascending : view.breakpoints.Pairwise (· ≤ ·)) {otherIndex otherColumn : Nat}
    {otherGlyph : Glyph} (draws : view.Draws index column offset glyph)
    (other : view.Draws otherIndex otherColumn offset otherGlyph) :
    (index, column) = (otherIndex, otherColumn) := by
  obtain rfl : index = otherIndex :=
    Nat.succ.inj ((draws.spec ascending).2.1.symm.trans (other.spec ascending).2.1)
  obtain ⟨start, line, listed, place, _⟩ := draws
  obtain ⟨otherStart, otherLine, otherListed, otherPlace, _⟩ := other
  obtain ⟨rfl, -⟩ := Prod.mk.inj (Option.some.inj (listed.symm.trans otherListed))
  exact congrArg (Prod.mk index) (by omega)

/-- An operator ends no line, so it stands on the line that its offset is counted to. -/
theorem exists_line_of_operatorAt? {source : Text} {operator : Operator}
    (read : operatorAt? source offset = some operator) : ∃ start line column,
      (indexedLines source)[lineOfOffset source offset - 1]? = some (start, line) ∧
        (line)[column]? = some operator.symbol ∧ start + column = offset := by
  obtain ⟨c, here, read⟩ := Option.bind_eq_some_iff.mp read
  obtain rfl := Operator.symbol_of_ofChar? read
  refine exists_indexedLine here fun ends => ?_
  rw [ends] at read
  cases read

/-- Every operator is drawn, as it is no carriage return. -/
theorem exists_draws (ascending : view.breakpoints.Pairwise (· ≤ ·)) {operator : Operator}
    (read : operatorAt? view.source offset = some operator) :
    ∃ column, view.Draws (lineOfOffset view.source offset - 1) column offset
      ⟨operator.symbol, view.operatorStyle offset operator⟩ := by
  obtain ⟨start, line, column, listed, held, place⟩ := exists_line_of_operatorAt? read
  have visible : operator.symbol ≠ '\r' := fun returns => by
    have read := Operator.ofChar?_symbol operator
    rw [returns] at read
    cases read
  have kept : (trimReturns line)[column]? = some operator.symbol := by
    obtain ⟨returns, whole⟩ := exists_returns line
    by_cases before : column < (trimReturns line).length
    · rwa [whole, List.getElem?_append_left before] at held
    · rw [whole, List.getElem?_append_right (Nat.le_of_not_lt before)] at held
      exact absurd (List.eq_of_mem_replicate (List.mem_of_getElem? held)) visible
  refine ⟨column, start, line, listed, place, ?_⟩
  rw [glyphs_spans ascending, getElem?_highlightLine, kept, Option.map_some, place,
    highlightChar_of_ofChar? (Operator.ofChar?_symbol operator)]

/-- What has a background is drawn at the stop. -/
theorem Draws.eq_stop {stop : Nat} (ascending : view.breakpoints.Pairwise (· ≤ ·))
    (draws : view.Draws index column offset glyph) (stopped : view.stop = some stop)
    (colored : glyph.style.background ≠ none) : offset = stop := by
  rw [(draws.spec ascending).2.2] at colored
  exact Option.some.inj ((stop_of_background colored).symm.trans stopped)

theorem existsUnique_stop {stop : Nat} (ascending : view.breakpoints.Pairwise (· ≤ ·))
    (stopped : view.stop = some stop) {operator : Operator}
    (read : operatorAt? view.source stop = some operator) :
    ∃! place : Nat × Nat, ∃ offset glyph,
      view.Draws place.1 place.2 offset glyph ∧ glyph.style.background = some view.stopColor := by
  obtain ⟨column, draws⟩ := exists_draws ascending read
  refine ⟨(lineOfOffset view.source stop - 1, column), ⟨stop, _, draws, ?_⟩, ?_⟩
  · exact background_operatorStyle.trans (if_pos stopped)
  · rintro ⟨otherIndex, otherColumn⟩ ⟨offset, glyph, other, colored⟩
    obtain rfl := other.eq_stop ascending stopped (colored ▸ Option.some_ne_none _)
    exact other.place_unique ascending draws

section Breakpoints

variable (operators : ∀ offset ∈ view.breakpoints,
  ∃ operator, operatorAt? view.source offset = some operator)

include operators

theorem Draws.underlined_iff (ascending : view.breakpoints.Pairwise (· ≤ ·))
    (draws : view.Draws index column offset glyph) :
    glyph.style.underlined = true ↔ offset ∈ view.breakpoints := by
  obtain ⟨here, _, drawn⟩ := draws.spec ascending
  rw [drawn]
  cases named : Operator.ofChar? glyph.char with
  | none =>
    -- A comment is not underlined, and it is no breakpoint.
    refine iff_of_false (by simp [highlightChar, named, Style.color, Style.plain]) fun member => ?_
    obtain ⟨operator, same⟩ := operators offset member
    rw [operatorAt?, here, Option.bind_some, named] at same
    cases same
  | some operator =>
    rw [highlightChar_of_ofChar? named, underlined_operatorStyle, List.contains_iff_mem]

/-- The lines with a breakpoint are those that one is counted to. -/
theorem hasBreakpoint_iff {start : Nat} {line : Text}
    (listed : (indexedLines view.source)[index]? = some (start, line)) :
    view.hasBreakpoint start line = true ↔
      ∃ offset ∈ view.breakpoints, lineOfOffset view.source offset = index + 1 := by
  have holds := hasLine_of_indexedLines listed
  simp only [hasBreakpoint, List.any_eq_true, Bool.and_eq_true, decide_eq_true_eq]
  constructor
  · rintro ⟨offset, member, above, below⟩
    have counted := holds.counted (offset - start) (by omega)
    rw [Nat.add_sub_cancel' above] at counted
    exact ⟨offset, member, counted⟩
  · rintro ⟨offset, member, counted⟩
    obtain ⟨operator, read⟩ := operators offset member
    obtain ⟨begins, other, column, otherListed, held, place⟩ := exists_line_of_operatorAt? read
    rw [counted, Nat.add_sub_cancel, listed] at otherListed
    obtain ⟨rfl, rfl⟩ := Prod.mk.inj (Option.some.inj otherListed)
    obtain ⟨bound, _⟩ := List.getElem?_eq_some_iff.mp held
    exact ⟨offset, member, by omega, by omega⟩

end Breakpoints

theorem marked_row_iff (number start : Nat) (line : Text) :
    (view.row number start line).head?.map Glyph.char = some '●' ↔
      view.hasBreakpoint start line = true := by
  rw [row]
  cases view.hasBreakpoint start line <;> simp

/-- How the pane shows a text with a stop and breakpoints. The pieces of its lines are the glyphs that
are drawn and they spell the lines; one place of all has the background of the stop, the underlined
places are those of the breakpoints, and the marked lines are those of the breakpoints. -/
structure Highlights (view : SourceView) (stop : Nat) : Prop where
  rendered : ∀ start line, (view.spans start line).flatMap Span.glyphs = view.highlightLine start line
  spelled : ∀ start line, (start, line) ∈ indexedLines view.source →
    (∃ returns, line = (view.spans start line).flatMap Span.text ++ List.replicate returns '\r') ∧
      ((view.spans start line).flatMap Span.text).getLast? ≠ some '\r'
  stopped : ∃! place : Nat × Nat, ∃ offset glyph,
    view.Draws place.1 place.2 offset glyph ∧ glyph.style.background = some view.stopColor
  located : ∀ index column offset glyph, view.Draws index column offset glyph →
    glyph.style.background ≠ none → offset = stop ∧ lineOfOffset view.source stop = index + 1 ∧
      ∃ operator, operatorAt? view.source stop = some operator ∧ glyph.char = operator.symbol
  underlined : ∀ index column offset glyph, view.Draws index column offset glyph →
    (glyph.style.underlined = true ↔ offset ∈ view.breakpoints)
  drawn : ∀ offset ∈ stop :: view.breakpoints, ∃ operator column style,
    operatorAt? view.source offset = some operator ∧
      view.Draws (lineOfOffset view.source offset - 1) column offset ⟨operator.symbol, style⟩
  marked : ∀ index start line, (indexedLines view.source)[index]? = some (start, line) →
    ((view.row (index + 1) start line).head?.map Glyph.char = some '●' ↔
      ∃ offset ∈ view.breakpoints, lineOfOffset view.source offset = index + 1)

end SourceView

end Pane

/-- The pane shows a text with a stop and with breakpoints in ascending order, all of them at operators. -/
theorem pane_highlights_the_stop (view : Pane.SourceView) (stop : Nat) (stopped : view.stop = some stop)
    (ascending : view.breakpoints.Pairwise (· ≤ ·))
    (operators : ∀ offset ∈ stop :: view.breakpoints, offset ∈ (tokens view.source).map Token.offset) :
    view.Highlights stop := by
  have read : ∀ offset ∈ stop :: view.breakpoints,
      ∃ operator, operatorAt? view.source offset = some operator := by
    intro offset member
    obtain ⟨token, listed, rfl⟩ := List.mem_map.mp (operators offset member)
    exact ⟨token.operator, operatorAt?_of_mem_tokens listed⟩
  obtain ⟨⟨operator, here⟩, others⟩ := List.forall_mem_cons.mp read
  refine
    { rendered := Pane.glyphs_spans ascending
      spelled := ?_
      stopped := Pane.SourceView.existsUnique_stop ascending stopped here
      located := ?_
      underlined := fun _ _ _ _ draws => draws.underlined_iff others ascending
      drawn := ?_
      marked := ?_ }
  · intro start line _
    rw [Pane.SourceView.spans, Pane.text_spansFrom, List.nil_append]
    exact ⟨Pane.exists_returns line, Pane.getLast?_trimReturns line⟩
  · intro index column offset glyph draws colored
    obtain rfl := draws.eq_stop ascending stopped colored
    obtain ⟨held, counted, _⟩ := draws.spec ascending
    refine ⟨rfl, counted, operator, here, ?_⟩
    rw [operatorAt?, held, Option.bind_some] at here
    exact (Operator.symbol_of_ofChar? here).symm
  · intro offset member
    obtain ⟨operator, here⟩ := read offset member
    obtain ⟨column, draws⟩ := Pane.SourceView.exists_draws ascending here
    exact ⟨operator, column, _, here, draws⟩
  · intro index start line listed
    exact (Pane.SourceView.marked_row_iff _ start line).trans
      (Pane.SourceView.hasBreakpoint_iff others listed)

/-- The line of the stop is the third one, behind an empty line and one with a carriage return, and it
begins with a comment. -/
theorem pane_highlights_the_stop_behind_an_empty_line :
    Pane.lineOfOffset ['é', '+', '\r', '\n', '\n', 'x', '[', '-', ']', '\r', '\r'] 7 = 3 ∧
      Pane.SourceView.Highlights
        ⟨['é', '+', '\r', '\n', '\n', 'x', '[', '-', ']', '\r', '\r'], some 7, false, [1, 7]⟩ 7 :=
  ⟨by decide, pane_highlights_the_stop _ _ rfl (by decide) (by decide)⟩

end TapeStepper
