import TapeStepper.Proofs.Checked
import TapeStepper.Proofs.Lines

namespace TapeStepper

/-- The largest height of an area, 2^16 - 1. -/
def heightLimit : Nat := 65535

namespace Checked

open Pane (SourceView SourceScroll TapeScroll visibleRows)

def clampScroll? (offset total visible : Nat) : Option Nat :=
  if visible < total then (sub? total visible).map (min offset) else some 0

def lineOfOffset? (source : Text) (offset : Nat) : Option Nat :=
  add? ((source.take offset).count '\n') 1

/-- The line of the stop, if there is one. -/
def currentLine? (view : SourceView) : Option (Option Nat) :=
  match view.stop with
  | some offset => (lineOfOffset? view.source offset).map some
  | none => some none

def startedLines? (start : Nat) : List Text → Option (List (Nat × Text))
  | [] => some []
  | line :: lines => do
    let width ← add? line.length 1
    let next ← add? start width
    let others ← startedLines? next lines
    return (start, line) :: others

def highlightLine? (view : SourceView) (start : Nat) (line : Text) : Option (List Glyph) :=
  (SourceView.trimReturns line).zipIdx.mapM fun (c, index) => do
    let offset ← add? start index
    return view.highlightChar offset c

def row? (view : SourceView) (index start : Nat) (line : Text) : Option (List Glyph) := do
  let number ← add? index 1
  let stop ← add? start line.length
  let content ← highlightLine? view start line
  let isCurrent := view.currentLine? == some number
  let marked := view.breakpoints.any fun offset => start ≤ offset && offset < stop
  let numberStyle :=
    if isCurrent then (Style.color Theme.secondary).strong else Style.color Theme.comment
  return ⟨if marked then '●' else ' ', Style.color Theme.error⟩ ::
    styled numberStyle (Decimal.rightAligned 4 number ++ [' ']) ++
      (if isCurrent then content.map SourceView.onCurrentLine else content)

/-- The scroll state after the source is shown, and the rows that are drawn. -/
def showSource? (view : SourceView) (area : Area) (scroll : SourceScroll) :
    Option (SourceScroll × List (List Glyph)) := do
  let visible := visibleRows area
  let lines ← startedLines? 0 (textLines view.source)
  let current? ← currentLine? view
  let row := min (scroll.row.getD (visible / 2)) (visible - 1)
  let wanted := match current? with
    | some line => line - 1 - row
    | none => scroll.offset
  let offset ← clampScroll? wanted lines.length visible
  let rows ← ((lines.zipIdx.drop offset).take visible).mapM
    fun ((start, line), index) => row? view index start line
  return (⟨offset, some row⟩, rows)

/-- Whether the pointer is out of sight. The sum is not asked for when it is above the first row. -/
def isHidden? (position offset visible : Nat) : Option Bool :=
  if position < offset then some true
  else (add? offset visible).map fun bottom => decide (bottom ≤ position)

/-- The scroll state after the tape is shown. -/
def showTape? (tape : Tape) (area : Area) (scroll : TapeScroll) : Option TapeScroll := do
  let visible := visibleRows area
  let hidden ← if scroll.last = some tape.position then some false
    else isHidden? tape.position scroll.offset visible
  let wanted := if hidden then tape.position - visible / 2 else scroll.offset
  let offset ← clampScroll? wanted tape.size visible
  return ⟨offset, some tape.position⟩

end Checked

namespace Pane

theorem visibleRows_pos (area : Area) : 0 < visibleRows area :=
  Nat.lt_of_lt_of_le Nat.one_pos (Nat.le_max_right ..)

theorem visibleRows_le {area : Area} (bound : area.height ≤ heightLimit) :
    visibleRows area ≤ heightLimit := by
  unfold visibleRows heightLimit at *
  omega

section Clamp

variable {offset total visible point : Nat}

theorem clampScroll_eq_min (offset total visible : Nat) :
    clampScroll offset total visible = min offset (total - visible) := by
  unfold clampScroll
  split <;> omega

theorem clampScroll_le_sub (offset total visible : Nat) :
    clampScroll offset total visible ≤ total - visible := by
  rw [clampScroll_eq_min]
  exact Nat.min_le_right ..

theorem clampScroll_idem (offset total visible : Nat) :
    clampScroll (clampScroll offset total visible) total visible = clampScroll offset total visible := by
  rw [clampScroll_eq_min, Nat.min_eq_left (clampScroll_le_sub ..)]

/-- A point that is in sight stays so when the last page is filled. -/
theorem clampScroll_keeps (above : offset ≤ point) (below : point < offset + visible)
    (inside : point < total) :
    clampScroll offset total visible ≤ point ∧ point < clampScroll offset total visible + visible := by
  rw [clampScroll_eq_min]
  omega

theorem checked_clampScroll? (offset total visible : Nat) :
    Checked.clampScroll? offset total visible = some (clampScroll offset total visible) := by
  unfold Checked.clampScroll? clampScroll
  split
  · rename_i long
    rw [Checked.sub?_of_le (Nat.le_of_lt long)]
    rfl
  · rfl

end Clamp

section Source

variable {view : SourceView}

theorem checked_startedLines? {start : Nat} {lines : List Text}
    (bound : ∀ begins line, (begins, line) ∈ startedLines start lines →
      begins + (line.length + 1) ≤ lastOffset) :
    Checked.startedLines? start lines = some (startedLines start lines) := by
  induction lines generalizing start with
  | nil => rfl
  | cons line lines ih =>
    have here := bound start line (List.mem_cons_self ..)
    have width := Checked.add?_of_le (by omega : line.length + 1 ≤ lastOffset)
    have others := ih fun begins other listed => bound begins other (List.mem_cons_of_mem _ listed)
    rw [Nat.add_assoc] at others
    rw [Checked.startedLines?, width, Option.bind_eq_bind, Option.bind_some, Checked.add?_of_le here,
      Option.bind_some, others]
    rfl

theorem mapM_eq_some {α β : Type} {change? : α → Option β} {change : α → β} {things : List α}
    (each : ∀ thing ∈ things, change? thing = some (change thing)) :
    things.mapM change? = some (things.map change) := by
  induction things with
  | nil => rfl
  | cons thing things ih =>
    rw [List.mapM_cons, each thing (List.mem_cons_self ..),
      ih fun other listed => each other (List.mem_cons_of_mem _ listed)]
    rfl

theorem checked_highlightLine? {start : Nat} {line : Text} (bound : start + line.length ≤ lastOffset) :
    Checked.highlightLine? view start line = some (view.highlightLine start line) := by
  have shorter := length_trimReturns_le line
  rw [Checked.highlightLine?, SourceView.highlightLine, List.zipIdx_eq_map_add (i := start), List.map_map]
  refine mapM_eq_some fun (c, index) listed => ?_
  have inside : index < (SourceView.trimReturns line).length := List.snd_lt_of_mem_zipIdx listed
  dsimp only
  rw [Checked.add?_of_le (by omega)]
  rfl

theorem checked_row? {index start : Nat} {line : Text} (number : index + 1 ≤ lastOffset)
    (bound : start + line.length ≤ lastOffset) :
    Checked.row? view index start line = some (view.row (index + 1) start line) := by
  rw [Checked.row?, Checked.add?_of_le number, Option.bind_eq_bind, Option.bind_some,
    Checked.add?_of_le bound, Option.bind_some, checked_highlightLine? bound]
  rfl

/-- The rows with the lines counted from zero. -/
theorem rows_eq (view : SourceView) (visible : Nat) (scroll : SourceScroll) :
    view.rows visible scroll = (((indexedLines view.source).zipIdx.drop scroll.offset).take visible).map
      fun ((start, line), index) => view.row (index + 1) start line := by
  rw [SourceView.rows, List.zipIdx_eq_map_add (i := 1), ← List.map_drop, ← List.map_take, List.map_map]
  congr 1
  funext ⟨⟨start, line⟩, index⟩
  exact congrArg (view.row · start line) (Nat.add_comm 1 index)

theorem getElem?_rows {visible index : Nat} {scroll : SourceScroll} {start : Nat} {line : Text}
    (listed : (indexedLines view.source)[index]? = some (start, line)) (above : scroll.offset ≤ index)
    (below : index < scroll.offset + visible) :
    (view.rows visible scroll)[index - scroll.offset]? = some (view.row (index + 1) start line) := by
  have place : scroll.offset + (index - scroll.offset) = index := by omega
  rw [rows_eq, List.getElem?_map, List.getElem?_take_of_lt (by omega), List.getElem?_drop, place,
    List.getElem?_zipIdx, listed, Option.map_some, Option.map_some, Nat.zero_add]

theorem length_textLines_le (source : Text) : (textLines source).length ≤ source.length + 1 := by
  rw [length_textLines]
  exact Nat.succ_le_succ List.count_le_length

theorem checked_rows? (fits : view.source.length < lastOffset) (visible : Nat) (scroll : SourceScroll) :
    (((indexedLines view.source).zipIdx.drop scroll.offset).take visible).mapM
        (fun ((start, line), index) => Checked.row? view index start line) =
      some (view.rows visible scroll) := by
  rw [rows_eq]
  refine mapM_eq_some fun ((start, line), index) listed => ?_
  have here : (indexedLines view.source)[index]? = some (start, line) :=
    List.mem_zipIdx_iff_getElem?.mp (List.mem_of_mem_drop (List.mem_of_mem_take listed))
  obtain ⟨listed, _⟩ := List.getElem?_eq_some_iff.mp here
  have within := (hasLine_of_indexedLines here).within
  have few := length_textLines_le view.source
  rw [length_indexedLines] at listed
  exact checked_row? (by omega) (by omega)

theorem checked_currentLine? (fits : view.source.length < lastOffset) :
    Checked.currentLine? view = some view.currentLine? := by
  unfold Checked.currentLine? SourceView.currentLine?
  cases view.stop with
  | none => rfl
  | some offset =>
    have counted := lineOfOffset_le view.source offset
    have few := length_textLines_le view.source
    rw [lineOfOffset] at counted
    exact congrArg (Option.map some) (Checked.add?_of_le (by omega))

/-- The source is shown without a sum or a difference out of range. -/
theorem checked_showSource? (fits : view.source.length < lastOffset) (area : Area)
    (scroll : SourceScroll) :
    Checked.showSource? view area scroll = some (view.scrolled (visibleRows area) scroll,
      view.rows (visibleRows area) (view.scrolled (visibleRows area) scroll)) := by
  have lines : Checked.startedLines? 0 (textLines view.source) = some (indexedLines view.source) := by
    refine checked_startedLines? fun begins line listed => ?_
    obtain ⟨index, here⟩ := List.mem_iff_getElem?.mp listed
    have within := (hasLine_of_indexedLines here).within
    omega
  have drawn := checked_rows? fits (visibleRows area) (view.scrolled (visibleRows area) scroll)
  simp only [Checked.showSource?, lines, checked_currentLine? fits, Option.bind_eq_bind,
    Option.bind_some, checked_clampScroll?, length_indexedLines]
  exact congrArg (Option.bind · _) drawn

theorem sighted_of_scrolled {stop visible : Nat} (stopped : view.stop = some stop) (room : 0 < visible)
    (scroll : SourceScroll) :
    (view.scrolled visible scroll).offset ≤ lineOfOffset view.source stop - 1 ∧
      lineOfOffset view.source stop - 1 < (view.scrolled visible scroll).offset + visible := by
  have counted := lineOfOffset_le view.source stop
  have first := lineOfOffset_pos view.source stop
  rw [SourceView.scrolled, SourceView.currentLine?, stopped]
  -- The row of the line is one of those that can be seen, also when the rows above it do not exist.
  refine clampScroll_keeps ?_ ?_ (by omega) <;> dsimp only [Option.map_some] <;> omega

theorem scrolled_scrolled (visible : Nat) (scroll : SourceScroll) :
    view.scrolled visible (view.scrolled visible scroll) = view.scrolled visible scroll := by
  have row : min (min (scroll.row.getD (visible / 2)) (visible - 1)) (visible - 1) =
      min (scroll.row.getD (visible / 2)) (visible - 1) := by omega
  unfold SourceView.scrolled
  cases view.currentLine? with
  | none => simp only [Option.getD_some, row, clampScroll_idem]
  | some line => simp only [Option.getD_some, row]

end Source

section Tape

theorem checked_isHidden? {position visible : Nat} (bound : position + visible ≤ lastOffset)
    (offset : Nat) : Checked.isHidden? position offset visible =
      some (decide (position < offset ∨ offset + visible ≤ position)) := by
  unfold Checked.isHidden?
  split
  · rename_i above
    simp [above]
  · rename_i below
    rw [Checked.add?_of_le (by omega)]
    simp [below]

/-- The tape is shown without a sum or a difference out of range. -/
theorem checked_showTape? {tape : Tape} {area : Area} (fits : 2 * tape.size ≤ memoryLimit)
    (bound : area.height ≤ heightLimit) (scroll : TapeScroll) :
    Checked.showTape? tape area scroll =
      some (scroll.shown tape.position tape.size (visibleRows area)) := by
  have inside := tape.position_lt_size
  have rows := visibleRows_le bound
  have small : tape.position + visibleRows area ≤ lastOffset := by
    unfold memoryLimit heightLimit lastOffset at *
    omega
  have seen := checked_isHidden? small scroll.offset
  by_cases still : scroll.last = some tape.position
  · simp [Checked.showTape?, TapeScroll.shown, still, checked_clampScroll?]
  · simp [Checked.showTape?, TapeScroll.shown, still, seen, checked_clampScroll?]

theorem sighted_of_shown {scroll : TapeScroll} {position size visible : Nat}
    (moved : scroll.last ≠ some position) (inside : position < size) (room : 0 < visible) :
    (scroll.shown position size visible).offset ≤ position ∧
      position < (scroll.shown position size visible).offset + visible := by
  unfold TapeScroll.shown
  dsimp only
  by_cases hidden : position < scroll.offset ∨ scroll.offset + visible ≤ position
  · rw [if_pos ⟨moved, hidden⟩]
    exact clampScroll_keeps (by omega) (by omega) inside
  · rw [if_neg fun both => hidden both.2]
    exact clampScroll_keeps (by omega) (by omega) inside

theorem shown_of_last {scroll : TapeScroll} {position : Nat} (still : scroll.last = some position)
    (size visible : Nat) :
    scroll.shown position size visible = ⟨clampScroll scroll.offset size visible, some position⟩ := by
  simp [TapeScroll.shown, still]

end Tape

/-- What the source pane does to its scroll state. The stop may lie past the end of the text; the line
that it is counted to is in sight and drawn. -/
structure SourceView.KeepsSight (view : SourceView) (area : Area) (before after : SourceScroll) :
    Prop where
  sighted : ∀ stop, view.stop = some stop →
    after.offset ≤ lineOfOffset view.source stop - 1 ∧
      lineOfOffset view.source stop - 1 < after.offset + visibleRows area
  drawn : ∀ stop, view.stop = some stop → ∃ start line,
    (indexedLines view.source)[lineOfOffset view.source stop - 1]? = some (start, line) ∧
      (view.rows (visibleRows area) after)[lineOfOffset view.source stop - 1 - after.offset]? =
        some (view.row (lineOfOffset view.source stop) start line)
  filled : after.offset ≤ (indexedLines view.source).length - visibleRows area
  settled : view.scrolled (visibleRows area) after = after
  computed : view.source.length ≤ memoryLimit →
    Checked.showSource? view area before = some (after, view.rows (visibleRows area) after)

/-- What the tape pane does to its scroll state. -/
structure TapeScroll.KeepsSight (tape : Tape) (area : Area) (before after : TapeScroll) : Prop where
  sighted : before.last ≠ some tape.position →
    after.offset ≤ tape.position ∧ tape.position < after.offset + visibleRows area
  still : before.last = some tape.position →
    after.offset = min before.offset (tape.size - visibleRows area)
  noted : after.last = some tape.position
  filled : after.offset ≤ tape.size - visibleRows area
  settled : after.shown tape.position tape.size (visibleRows area) = after
  computed : 2 * tape.size ≤ memoryLimit → area.height ≤ heightLimit →
    Checked.showTape? tape area before = some after

theorem SourceView.keepsSight (view : SourceView) (area : Area) (before : SourceScroll) :
    view.KeepsSight area before (view.scrolled (visibleRows area) before) where
  sighted _ stopped := sighted_of_scrolled stopped (visibleRows_pos area) before
  drawn stop stopped := by
    obtain ⟨above, below⟩ := sighted_of_scrolled stopped (visibleRows_pos area) before
    have counted := lineOfOffset_le view.source stop
    have first := lineOfOffset_pos view.source stop
    have inside : lineOfOffset view.source stop - 1 < (indexedLines view.source).length := by
      rw [length_indexedLines]
      omega
    have listed := List.getElem?_eq_getElem inside
    exact ⟨_, _, listed, getElem?_rows listed above below⟩
  filled := by
    rw [length_indexedLines]
    exact clampScroll_le_sub ..
  settled := scrolled_scrolled ..
  computed fits := checked_showSource? (by unfold memoryLimit at fits; unfold lastOffset; omega) area before

theorem TapeScroll.keepsSight (tape : Tape) (area : Area) (before : TapeScroll) :
    KeepsSight tape area before (before.shown tape.position tape.size (visibleRows area)) where
  sighted moved := sighted_of_shown moved tape.position_lt_size (visibleRows_pos area)
  still same := by rw [shown_of_last same, clampScroll_eq_min]
  noted := rfl
  filled := clampScroll_le_sub ..
  settled := by
    have noted : (before.shown tape.position tape.size (visibleRows area)).last = some tape.position := rfl
    rw [shown_of_last noted]
    exact congrArg (TapeScroll.mk · _) (clampScroll_idem ..)
  computed fits bound := checked_showTape? fits bound before

end Pane

/-- From whatever scroll state, the source pane shows the line of the stop and the tape pane shows the
pointer when it has moved; otherwise the tape pane leaves its offset if the last page is filled by it.
Neither goes further than to the last page, both stay where they are when the same is shown again, and
nothing that they compute is out of range. -/
theorem panes_keep_sight :
    (∀ (view : Pane.SourceView) (area : Area) (before : Pane.SourceScroll),
      view.KeepsSight area before (view.scrolled (Pane.visibleRows area) before)) ∧
    ∀ (tape : Tape) (area : Area) (before : Pane.TapeScroll),
      Pane.TapeScroll.KeepsSight tape area before
        (before.shown tape.position tape.size (Pane.visibleRows area)) :=
  ⟨Pane.SourceView.keepsSight, Pane.TapeScroll.keepsSight⟩

/-- A stop past the end of three lines that are shown in one row, and the fourth of five cells shown in
two rows after the pointer has moved there, both scrolled to the far end before. -/
theorem panes_keep_sight_from_the_far_end :
    (∃ after rows, Checked.showSource? ⟨['+', '\n', '-', '\n'], some 9, false, []⟩ ⟨0, 0, 9, 3⟩
        ⟨lastOffset, some lastOffset⟩ = some (after, rows) ∧
      after.offset ≤ Pane.lineOfOffset ['+', '\n', '-', '\n'] 9 - 1 ∧
      Pane.lineOfOffset ['+', '\n', '-', '\n'] 9 - 1 < after.offset + 1) ∧
    ∃ after, Checked.showTape? ⟨[0, 0, 0], 7, [0]⟩ ⟨0, 0, 9, 4⟩ ⟨lastOffset, some 0⟩ = some after ∧
      after.offset ≤ 3 ∧ 3 < after.offset + 2 ∧ after.last = some 3 := by
  have source := panes_keep_sight.1 ⟨['+', '\n', '-', '\n'], some 9, false, []⟩ ⟨0, 0, 9, 3⟩
    ⟨lastOffset, some lastOffset⟩
  have tape := panes_keep_sight.2 ⟨[0, 0, 0], 7, [0]⟩ ⟨0, 0, 9, 4⟩ ⟨lastOffset, some 0⟩
  have moved : some 0 ≠ some 3 := by decide
  obtain ⟨above, below⟩ := tape.sighted moved
  refine ⟨⟨_, _, source.computed (by decide), source.sighted 9 rfl⟩, ?_⟩
  exact ⟨_, tape.computed (by decide) (by decide), above, below, tape.noted⟩

end TapeStepper
