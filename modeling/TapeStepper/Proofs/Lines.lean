import Mathlib.Data.List.DropRight
import TapeStepper.Pane.Source

namespace TapeStepper.Pane

/-- What the line of this index, counted from zero, has to do with the text: where it begins there and
what it holds, and that its places are counted to it. -/
structure HasLine (source : Text) (index start : Nat) (line : Text) : Prop where
  within : start + line.length ≤ source.length
  spelled : ∀ column < line.length, source[start + column]? = (line)[column]?
  counted : ∀ column ≤ line.length, lineOfOffset source (start + column) = index + 1

section Offsets

variable {c : Char} {rest : Text}

theorem lineOfOffset_pos (source : Text) (offset : Nat) : 0 < lineOfOffset source offset :=
  Nat.succ_pos _

theorem lineOfOffset_newline (rest : Text) (offset : Nat) :
    lineOfOffset ('\n' :: rest) (offset + 1) = lineOfOffset rest offset + 1 := by
  simp [lineOfOffset]

theorem lineOfOffset_cons (inside : c ≠ '\n') (offset : Nat) :
    lineOfOffset (c :: rest) (offset + 1) = lineOfOffset rest offset := by
  simp [lineOfOffset, List.count_cons_of_ne inside]

theorem lineOfOffset_le (source : Text) (offset : Nat) :
    lineOfOffset source offset ≤ (textLines source).length := by
  have counted := (List.take_prefix offset source).sublist.count_le '\n'
  rw [length_textLines, lineOfOffset]
  omega

end Offsets

theorem length_startedLines (start : Nat) (lines : List Text) :
    (startedLines start lines).length = lines.length := by
  induction lines generalizing start with
  | nil => rfl
  | cons line lines ih => rw [startedLines, List.length_cons, ih, List.length_cons]

theorem length_indexedLines (source : Text) :
    (indexedLines source).length = (textLines source).length :=
  length_startedLines 0 _

/-- A character in front of the first line moves the beginning of no other. -/
theorem startedLines_cons {c : Char} (inside : c ≠ '\n') (start : Nat) (rest : Text) :
    ∃ first later, startedLines (start + 1) (textLines rest) = (start + 1, first) :: later ∧
      startedLines start (textLines (c :: rest)) = (start, c :: first) :: later := by
  rw [textLines, if_neg inside]
  cases lines : textLines rest with
  | nil => exact absurd lines (textLines_ne_nil rest)
  | cons first others =>
    refine ⟨first, startedLines (start + 1 + first.length + 1) others, rfl, ?_⟩
    have same : start + (c :: first).length + 1 = start + 1 + first.length + 1 := by
      rw [List.length_cons]
      omega
    rw [consFirst, startedLines, same]

section Places

variable {source rest : Text} {c : Char} {index start : Nat} {line : Text}

theorem HasLine.newline (holds : HasLine rest index start line) :
    HasLine ('\n' :: rest) (index + 1) (start + 1) line where
  within := by
    have within := holds.within
    rw [List.length_cons]
    omega
  spelled column bound := by
    rw [Nat.add_right_comm, List.getElem?_cons_succ]
    exact holds.spelled column bound
  counted column bound := by
    rw [Nat.add_right_comm, lineOfOffset_newline, holds.counted column bound]

theorem HasLine.behind (holds : HasLine rest index start line) (inside : c ≠ '\n') :
    HasLine (c :: rest) index (start + 1) line where
  within := by
    have within := holds.within
    rw [List.length_cons]
    omega
  spelled column bound := by
    rw [Nat.add_right_comm, List.getElem?_cons_succ]
    exact holds.spelled column bound
  counted column bound := by
    rw [Nat.add_right_comm, lineOfOffset_cons inside, holds.counted column bound]

/-- The first line with a character in front of it. -/
theorem HasLine.extend (holds : HasLine rest 0 0 line) (inside : c ≠ '\n') :
    HasLine (c :: rest) 0 0 (c :: line) where
  within := by
    have within := holds.within
    rw [List.length_cons, List.length_cons]
    omega
  spelled column bound := by
    cases column with
    | zero => rfl
    | succ column =>
      have same := holds.spelled column (Nat.lt_of_succ_lt_succ bound)
      rw [Nat.zero_add] at same ⊢
      rw [List.getElem?_cons_succ, List.getElem?_cons_succ, same]
  counted column bound := by
    cases column with
    | zero => rfl
    | succ column =>
      have same := holds.counted column (Nat.le_of_succ_le_succ bound)
      rw [Nat.zero_add] at same ⊢
      rw [lineOfOffset_cons inside, same]

theorem hasLine_of_startedLines {base begins : Nat}
    (listed : (startedLines base (textLines source))[index]? = some (begins, line)) :
    ∃ start, begins = base + start ∧ HasLine source index start line := by
  induction source generalizing base index begins line with
  | nil =>
    cases index with
    | zero =>
      cases listed
      exact ⟨0, rfl, Nat.le_refl _, nofun, fun column _ => by simp [lineOfOffset]⟩
    | succ index => cases listed
  | cons c rest ih =>
    by_cases ends : c = '\n'
    · subst ends
      rw [textLines, if_pos rfl, startedLines] at listed
      cases index with
      | zero =>
        cases listed
        refine ⟨0, rfl, Nat.zero_le _, nofun, ?_⟩
        intro column bound
        obtain rfl := Nat.le_zero.mp bound
        rfl
      | succ index =>
        obtain ⟨start, rfl, holds⟩ := ih listed
        exact ⟨start + 1, by rw [List.length_nil]; omega, holds.newline⟩
    · obtain ⟨first, later, before, after⟩ := startedLines_cons ends base rest
      rw [after] at listed
      cases index with
      | zero =>
        cases listed
        have top : (startedLines (base + 1) (textLines rest))[0]? = some (base + 1, first) := by
          rw [before]
          rfl
        obtain ⟨start, same, holds⟩ := ih top
        obtain rfl : start = 0 := by omega
        exact ⟨0, rfl, holds.extend ends⟩
      | succ index =>
        have lower : (startedLines (base + 1) (textLines rest))[index + 1]? = some (begins, line) := by
          rw [before]
          exact listed
        obtain ⟨start, rfl, holds⟩ := ih lower
        exact ⟨start + 1, by omega, holds.behind ends⟩

theorem hasLine_of_indexedLines (listed : (indexedLines source)[index]? = some (start, line)) :
    HasLine source index start line := by
  obtain ⟨begins, same, holds⟩ := hasLine_of_startedLines listed
  rw [Nat.zero_add] at same
  exact same ▸ holds

/-- Every character that ends no line stands on the line that its offset is counted to. -/
theorem exists_startedLine {offset : Nat} (here : source[offset]? = some c) (inside : c ≠ '\n')
    (base : Nat) : ∃ begins line column,
      (startedLines base (textLines source))[lineOfOffset source offset - 1]? = some (begins, line) ∧
      (line)[column]? = some c ∧ begins + column = base + offset := by
  induction source generalizing base offset with
  | nil => cases here
  | cons d rest ih =>
    by_cases ends : d = '\n'
    · subst ends
      cases offset with
      | zero => exact absurd (Option.some.inj here).symm inside
      | succ offset =>
        obtain ⟨begins, line, column, listed, held, place⟩ := ih here (base + 0 + 1)
        have positive := lineOfOffset_pos rest offset
        have index : lineOfOffset ('\n' :: rest) (offset + 1) - 1 =
            lineOfOffset rest offset - 1 + 1 := by
          rw [lineOfOffset_newline]
          omega
        refine ⟨begins, line, column, ?_, held, by omega⟩
        rw [index, textLines, if_pos rfl, startedLines, List.getElem?_cons_succ]
        exact listed
    · obtain ⟨first, later, before, after⟩ := startedLines_cons ends base rest
      cases offset with
      | zero =>
        refine ⟨base, d :: first, 0, ?_, here, rfl⟩
        rw [after]
        rfl
      | succ offset =>
        obtain ⟨begins, line, column, listed, held, place⟩ := ih here (base + 1)
        rw [before] at listed
        rw [lineOfOffset_cons ends, after]
        cases index : lineOfOffset rest offset - 1 with
        | zero =>
          rw [index] at listed
          cases listed
          exact ⟨base, d :: first, column + 1, rfl, held, by omega⟩
        | succ lower =>
          rw [index] at listed
          exact ⟨begins, line, column, listed, held, by omega⟩

theorem exists_indexedLine {offset : Nat} (here : source[offset]? = some c) (inside : c ≠ '\n') :
    ∃ start line column,
      (indexedLines source)[lineOfOffset source offset - 1]? = some (start, line) ∧
      (line)[column]? = some c ∧ start + column = offset := by
  obtain ⟨start, line, column, listed, held, place⟩ := exists_startedLine here inside 0
  exact ⟨start, line, column, listed, held, by omega⟩

end Places

section Returns

variable (line : Text)

theorem exists_returns : ∃ returns, line = SourceView.trimReturns line ++ List.replicate returns '\r' := by
  have ends : line.rtakeWhile (· == '\r') =
      List.replicate (line.rtakeWhile (· == '\r')).length '\r' := by
    refine List.eq_replicate_of_mem fun c listed => ?_
    have returns := List.mem_rtakeWhile_imp listed
    exact eq_of_beq returns
  refine ⟨(line.rtakeWhile (· == '\r')).length, ?_⟩
  rw [← ends]
  exact List.rdropWhile_append_rtakeWhile.symm

theorem getLast?_trimReturns : (SourceView.trimReturns line).getLast? ≠ some '\r' := by
  intro last
  have nonempty : SourceView.trimReturns line ≠ [] := fun empty => by
    rw [empty] at last
    cases last
  rw [List.getLast?_eq_some_getLast nonempty] at last
  exact List.rdropWhile_last_not (· == '\r') line nonempty (beq_iff_eq.mpr (Option.some.inj last))

theorem length_trimReturns_le : (SourceView.trimReturns line).length ≤ line.length :=
  (List.rdropWhile_prefix (· == '\r') line).length_le

end Returns

end TapeStepper.Pane
