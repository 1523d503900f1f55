namespace TapeStepper

/-- A set of offsets to pause at, as a row of marks. -/
structure Breakpoints where
  marks : Array Bool

namespace Breakpoints

def empty : Breakpoints :=
  ⟨#[]⟩

def has (breakpoints : Breakpoints) (offset : Nat) : Bool :=
  breakpoints.marks.getD offset false

def mark (marks : Array Bool) (offset : Nat) : Array Bool :=
  marks.setIfInBounds offset true

def ofList (offsets : List Nat) : Breakpoints :=
  ⟨offsets.foldl mark (Array.replicate (offsets.foldl max 0 + 1) false)⟩

@[simp]
theorem has_empty (offset : Nat) : empty.has offset = false := by
  simp [has, empty]

theorem getD_mark {marks : Array Bool} {offset : Nat} (room : offset < marks.size) (other : Nat) :
    (mark marks offset).getD other false = (marks.getD other false || other == offset) := by
  by_cases same : other = offset
  · subst same
    simp [mark, Array.getD_eq_getD_getElem?, room]
  · simp [mark, Array.getD_eq_getD_getElem?, same, Ne.symm same]

theorem getD_foldl_mark (offsets : List Nat) (marks : Array Bool)
    (room : ∀ offset ∈ offsets, offset < marks.size) (other : Nat) :
    (offsets.foldl mark marks).getD other false =
      (marks.getD other false || offsets.contains other) := by
  induction offsets generalizing marks with
  | nil => simp
  | cons offset rest ih =>
    have here := room offset (List.mem_cons_self ..)
    have later : ∀ offset' ∈ rest, offset' < (mark marks offset).size := by
      intro offset' member
      simpa [mark] using room offset' (List.mem_cons_of_mem offset member)
    rw [List.foldl_cons, ih _ later, getD_mark here, List.contains_cons, Bool.or_assoc]

theorem le_foldl_max (offsets : List Nat) (least : Nat) :
    least ≤ offsets.foldl max least ∧ ∀ offset ∈ offsets, offset ≤ offsets.foldl max least := by
  induction offsets generalizing least with
  | nil => simp
  | cons first rest ih =>
    obtain ⟨start, others⟩ := ih (max least first)
    refine ⟨by simp only [List.foldl_cons]; omega, ?_⟩
    intro offset member
    rcases List.mem_cons.mp member with same | member
    · subst same
      simp only [List.foldl_cons]
      omega
    · exact others offset member

/-- The marks say what the list says. -/
theorem has_ofList (offsets : List Nat) (offset : Nat) :
    (ofList offsets).has offset = offsets.contains offset := by
  have room : ∀ other ∈ offsets,
      other < (Array.replicate (offsets.foldl max 0 + 1) false).size := by
    intro other member
    have bound := (le_foldl_max offsets 0).2 other member
    simp only [Array.size_replicate]
    omega
  have unmarked : (Array.replicate (offsets.foldl max 0 + 1) false).getD offset false = false := by
    rw [Array.getD_eq_getD_getElem?, Array.getElem?_replicate]
    split <;> rfl
  unfold has ofList
  rw [getD_foldl_mark offsets _ room, unmarked, Bool.false_or]

end Breakpoints

end TapeStepper
