namespace TapeStepper

/-- Scripts, input and output are lists of characters, so an offset is an index. -/
abbrev Text := List Char

/-- The sum of the sizes of some things. -/
def totalOf {α : Type} (size : α → Nat) (things : List α) : Nat :=
  things.foldl (fun total thing => total + size thing) 0

/-- The length of a text in bytes. -/
def byteLength (text : Text) : Nat :=
  totalOf Char.utf8Size text

/-- Puts a character in front of the first of some pieces of text. -/
def consFirst (c : Char) : List Text → List Text
  | [] => [[c]]
  | piece :: pieces => (c :: piece) :: pieces

/-- The lines of a text without their line ends. There is always a last line. -/
def textLines : Text → List Text
  | [] => [[]]
  | c :: rest => if c = '\n' then [] :: textLines rest else consFirst c (textLines rest)

section Total

variable {α : Type} (size : α → Nat)

@[simp]
theorem totalOf_concat (things : List α) (last : α) :
    totalOf size (things ++ [last]) = totalOf size things + size last := by
  simp [totalOf, List.foldl_append]

theorem foldl_add_eq (things : List α) (start : Nat) :
    things.foldl (fun total thing => total + size thing) start = start + totalOf size things := by
  induction things generalizing start with
  | nil => rfl
  | cons first things ih => rw [totalOf, List.foldl_cons, List.foldl_cons, ih, ih, Nat.zero_add, Nat.add_assoc]

theorem totalOf_cons (first : α) (things : List α) :
    totalOf size (first :: things) = size first + totalOf size things := by
  rw [totalOf, List.foldl_cons, foldl_add_eq, Nat.zero_add]

end Total

@[simp]
theorem byteLength_nil : byteLength [] = 0 := rfl

theorem byteLength_cons (c : Char) (rest : Text) :
    byteLength (c :: rest) = c.utf8Size + byteLength rest :=
  totalOf_cons Char.utf8Size c rest

@[simp]
theorem flatten_consFirst (c : Char) (pieces : List Text) :
    (consFirst c pieces).flatten = c :: pieces.flatten := by
  cases pieces <;> rfl

theorem length_consFirst {pieces : List Text} (c : Char) (nonempty : pieces ≠ []) :
    (consFirst c pieces).length = pieces.length := by
  cases pieces with
  | nil => exact absurd rfl nonempty
  | cons => rfl

theorem textLines_ne_nil (text : Text) : textLines text ≠ [] := by
  cases text with
  | nil => simp [textLines]
  | cons c rest =>
    unfold textLines
    split
    · simp
    · cases textLines rest <;> simp [consFirst]

theorem length_textLines (text : Text) : (textLines text).length = text.count '\n' + 1 := by
  induction text with
  | nil => rfl
  | cons c rest ih =>
    unfold textLines
    split
    · rename_i ends
      simp [ends, ih]
    · rename_i inside
      rw [length_consFirst c (textLines_ne_nil rest), ih]
      simp [inside]

end TapeStepper
