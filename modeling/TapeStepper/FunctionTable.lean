import TapeStepper.Limits
import TapeStepper.Fault

namespace TapeStepper

/-- The functions defined so far, each under the cell value it is called by.
The table never looks inside a body. -/
structure FunctionTable (Body : Type) where
  entries : List (Nat × Body)

namespace FunctionTable

variable {Body : Type}

def empty : FunctionTable Body :=
  ⟨[]⟩

/-- The body of the first entry with this key. -/
def bodyOf? (key : Nat) : List (Nat × Body) → Option Body
  | [] => none
  | entry :: rest => if key = entry.1 then some entry.2 else bodyOf? key rest

def get? (table : FunctionTable Body) (key : Nat) : Option Body :=
  bodyOf? key table.entries

def contains (table : FunctionTable Body) (key : Nat) : Bool :=
  (table.get? key).isSome

/-- Puts an entry before the first one with a larger key. -/
def insertEntry (key : Nat) (body : Body) : List (Nat × Body) → List (Nat × Body)
  | [] => [(key, body)]
  | entry :: rest =>
    if key < entry.1 then (key, body) :: entry :: rest else entry :: insertEntry key body rest

/-- A key is bound once; a second definition is reported before a full table is. -/
def define (table : FunctionTable Body) (key : Nat) (body : Body) :
    Except Fault (FunctionTable Body) :=
  if table.contains key then .error (.duplicateFunction key)
  else if table.entries.length < functionLimit then .ok ⟨insertEntry key body table.entries⟩
  else .error .functionLimit

theorem length_insertEntry (key : Nat) (body : Body) (entries : List (Nat × Body)) :
    (insertEntry key body entries).length = entries.length + 1 := by
  induction entries with
  | nil => rfl
  | cons entry rest ih =>
    unfold insertEntry
    split
    · rfl
    · simp [ih]

theorem mem_insertEntry {key : Nat} {body : Body} {entries : List (Nat × Body)}
    {entry : Nat × Body} :
    entry ∈ insertEntry key body entries ↔ entry = (key, body) ∨ entry ∈ entries := by
  induction entries with
  | nil => simp [insertEntry]
  | cons first rest ih =>
    unfold insertEntry
    split
    · simp
    · simp only [List.mem_cons, ih]
      exact or_left_comm

theorem bodyOf?_insertEntry {key other : Nat} {body : Body} {entries : List (Nat × Body)}
    (unbound : bodyOf? key entries = none) :
    bodyOf? other (insertEntry key body entries) =
      if other = key then some body else bodyOf? other entries := by
  induction entries with
  | nil => rfl
  | cons entry rest ih =>
    have fresh : key ≠ entry.1 := by
      intro same
      simp [bodyOf?, same] at unbound
    have unboundRest : bodyOf? key rest = none := by
      simpa only [bodyOf?, if_neg fresh] using unbound
    unfold insertEntry
    split
    · rfl
    · by_cases atEntry : other = entry.1
      · have apart : other ≠ key := fun same => fresh (same.symm.trans atEntry)
        simp only [bodyOf?, if_pos atEntry, if_neg apart]
      · simp only [bodyOf?, if_neg atEntry, ih unboundRest]

theorem define_ok_iff {table defined : FunctionTable Body} {key : Nat} {body : Body} :
    table.define key body = .ok defined ↔
      table.get? key = none ∧ table.entries.length < functionLimit ∧
        defined = ⟨insertEntry key body table.entries⟩ := by
  unfold define contains
  cases bound : table.get? key with
  | some old => simp
  | none =>
    by_cases room : table.entries.length < functionLimit
    · simp [room, eq_comm]
    · simp [room]

theorem get?_define {table defined : FunctionTable Body} {key other : Nat} {body : Body}
    (step : table.define key body = .ok defined) :
    defined.get? other = if other = key then some body else table.get? other := by
  obtain ⟨unbound, _, rfl⟩ := define_ok_iff.mp step
  exact bodyOf?_insertEntry unbound

/-- What holds of every body in a table and of a body that is added holds of every body then. -/
theorem forall_define {table defined : FunctionTable Body} {key : Nat} {body : Body} {motive : Body → Prop}
    (old : ∀ other found, table.get? other = some found → motive found) (new : motive body)
    (step : table.define key body = .ok defined) :
    ∀ other found, defined.get? other = some found → motive found := by
  intro other found bound
  rw [get?_define step] at bound
  split at bound
  · cases bound
    exact new
  · exact old other found bound

end FunctionTable

end TapeStepper
