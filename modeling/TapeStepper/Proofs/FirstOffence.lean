import TapeStepper.Proofs.Offences
import Mathlib.Data.List.Induction
import Mathlib.Data.Nat.Find

namespace TapeStepper

/-- Whatever follows the text, the brackets are not in order. -/
def Hopeless (front : Text) : Prop :=
  ∀ more, (bracketReport (front ++ more)).valid = false

/-- The character at this index is the last one of the shortest hopeless front part. -/
structure FirstOffence (source : Text) (index : Nat) : Prop where
  inside : index < source.length
  hopeless : Hopeless (source.take (index + 1))
  before : ∀ count ≤ index, ¬ Hopeless (source.take count)

/-- The passes in which the brackets are checked. -/
inductive Check
  | parentheses | bare | bodies | loops
  deriving DecidableEq

namespace Check

/-- The passes that are made before this one. -/
def earlier : Check → List Check
  | parentheses => []
  | bare => [parentheses]
  | bodies => [parentheses, bare]
  | loops => [parentheses, bare, bodies]

/-- What the pass asks of an outline. That there is one is all that the first pass asks. -/
def Holds (outline : Outline) : Check → Prop
  | parentheses => True
  | bare => ∀ definition ∈ outline.definitions, definition.isBare = false
  | bodies => ∀ definition ∈ outline.definitions, definition.fault? = none
  | loops => loopFault? 0 0 outline.top = none

/-- The pass is made and finds nothing. Without an outline only the first pass is made. -/
def Passes (check : Check) (given : List Token) : Prop :=
  ∃ outline, Outline.ofTokens given = .ok outline ∧ check.Holds outline

/-- The first of the passes that the text cannot come through any more, whatever follows it. -/
structure Blocks (check : Check) (front : Text) : Prop where
  stuck : ∀ more, ¬ check.Passes (tokens (front ++ more))
  first : ∀ earlier ∈ check.earlier, ∃ more, earlier.Passes (tokens (front ++ more))

theorem eq_or_earlier (check other : Check) :
    check = other ∨ check ∈ other.earlier ∨ other ∈ check.earlier := by
  cases check <;> cases other <;> decide

theorem Blocks.unique {check other : Check} {front : Text} (blocks : check.Blocks front)
    (blocksToo : other.Blocks front) : check = other := by
  rcases eq_or_earlier check other with same | before | behind
  · exact same
  · obtain ⟨more, passes⟩ := blocksToo.first check before
    exact absurd passes (blocks.stuck more)
  · obtain ⟨more, passes⟩ := blocks.first other behind
    exact absurd passes (blocksToo.stuck more)

theorem passes_of_sound {given : List Token} (sound : bracketFault? given = none) (check : Check) :
    check.Passes given := by
  unfold bracketFault? at sound
  split at sound
  · cases sound
  · rename_i outline read
    refine ⟨outline, read, ?_⟩
    obtain ⟨noBare, behind⟩ := Option.or_eq_none_iff.mp sound
    obtain ⟨bodies, top⟩ := Option.or_eq_none_iff.mp behind
    cases check with
    | parentheses => trivial
    | bare =>
      intro definition listed
      exact eq_false_of_ne_true (List.find?_eq_none.mp (Option.map_eq_none_iff.mp noBare) definition listed)
    | bodies => exact List.findSome?_eq_none_iff.mp bodies
    | loops => exact top

end Check

/-- The function that is open behind these operators has a loop that is still open, and the first
such loop was opened at `place`. -/
def OpenLoop (before : List Token) (place : Nat) : Prop :=
  ∃ outer opens left right,
    before = outer ++ ⟨opens, .functionStart⟩ :: (left ++ ⟨place, .loopStart⟩ :: right) ∧
    (∀ token ∈ left ++ right, token.operator.isParen = false) ∧
    Unpaired left ⟨place, .loopStart⟩ right

theorem isParen_of_sides {left right : List Token}
    (plain : ∀ token ∈ left ++ right, token.operator.isParen = false) {place : Nat} {token : Token}
    (listed : token ∈ left ++ ⟨place, .loopStart⟩ :: right) : token.operator.isParen = false := by
  rcases List.mem_append.mp listed with before | behind
  · exact plain token (List.mem_append_left _ before)
  · rcases List.mem_cons.mp behind with rfl | behind
    · rfl
    · exact plain token (List.mem_append_right _ behind)

/-- The place that is to be reported for an operator behind which nothing can be put right: its own,
or that of the loop that was left open when it is a `)`. -/
structure Pointed (before : List Token) (token : Token) (place : Nat) : Prop where
  loop : token.operator = .functionEnd → (∃ opens, OpenLoop before opens) → OpenLoop before place
  itself : ¬ (token.operator = .functionEnd ∧ ∃ opens, OpenLoop before opens) → place = token.offset

/-- No continuation passes the check when this operator has been read, but each pass before it has
one. If these passes find nothing, `place` is what is reported. -/
structure Stops (check : Check) (before : List Token) (token : Token) (place : Nat) : Prop where
  stuck : ∀ after, ¬ check.Passes (before ++ token :: after)
  possible : ∀ earlier ∈ check.earlier, ∃ more : Text,
    Increasing (before ++ token :: tokensFrom (token.offset + 1) more) →
      earlier.Passes (before ++ token :: tokensFrom (token.offset + 1) more)
  reported : ∀ after, Increasing (before ++ token :: after) →
    (∀ earlier ∈ check.earlier, earlier.Passes (before ++ token :: after)) →
    bracketFault? (before ++ token :: after) = some place
  pointed : Pointed before token place

namespace Outline

def append (first second : Outline) : Outline :=
  ⟨first.definitions ++ second.definitions, first.top ++ second.top⟩

theorem ok_of_bind {reading : Except Nat Outline} {change : Outline → Outline} {whole : Outline}
    (read : reading.bind (fun outline => .ok (change outline)) = .ok whole) :
    ∃ outline, reading = .ok outline ∧ whole = change outline := by
  cases reading with
  | error offset => cases read
  | ok outline => exact ⟨outline, rfl, (Except.ok.inj read).symm⟩

theorem read_keep {token : Token} (plain : token.operator.isParen = false) (rest : List Token) :
    read none (token :: rest) =
      (read none rest).bind fun outline => .ok ⟨outline.definitions, token :: outline.top⟩ := by
  obtain ⟨offset, operator⟩ := token
  cases operator with
  | functionStart | functionEnd => cases plain
  | act _ | call | loopStart | loopEnd => rfl

theorem read_inside {body : List Token} (plain : ∀ token ∈ body, token.operator.isParen = false)
    (opens : Nat) (earlier rest : List Token) :
    read (some (opens, earlier)) (body ++ rest) =
      read (some (opens, body.reverse ++ earlier)) rest := by
  induction body generalizing earlier with
  | nil => rfl
  | cons token body ih =>
    have onward := ih (fun other member => plain other (List.mem_cons_of_mem _ member))
      (token :: earlier)
    have first := plain token (List.mem_cons_self ..)
    have step : read (some (opens, earlier)) (token :: (body ++ rest)) =
        read (some (opens, token :: earlier)) (body ++ rest) := by
      obtain ⟨offset, operator⟩ := token
      cases operator with
      | functionStart | functionEnd => cases first
      | act _ | call | loopStart | loopEnd => rfl
    rw [List.cons_append, step, onward]
    simp

end Outline

theorem Definition.find?_isBare_eq_none {definitions : List Definition}
    (filled : ∀ definition ∈ definitions, definition.isBare = false) :
    definitions.find? isBare = none := by
  rw [List.find?_eq_none]
  intro definition listed bare
  cases bare.symm.trans (filled definition listed)

namespace Outlines

variable {given : List Token} {outline : Outline}

theorem append {more : List Token} {behind : Outline} (outlines : Outlines given outline)
    (outlinesToo : Outlines more behind) : Outlines (given ++ more) (outline.append behind) := by
  induction outlines with
  | nil => exact outlinesToo
  | keep plain _ ih => exact .keep plain ih
  | @cut opens body closes rest outline plain _ ih =>
    rw [List.cons_append, List.append_assoc]
    exact .cut plain ih

/-- Operators whose parentheses match are read, whatever follows. -/
theorem read_append (outlines : Outlines given outline) (rest : List Token) :
    Outline.read none (given ++ rest) =
      (Outline.read none rest).bind fun behind => .ok (outline.append behind) := by
  induction outlines with
  | nil =>
    rw [List.nil_append]
    cases Outline.read none rest with
    | error offset => rfl
    | ok behind => rfl
  | keep plain _ ih =>
    rw [List.cons_append, Outline.read_keep plain, ih]
    cases Outline.read none rest with
    | error offset => rfl
    | ok behind => rfl
  | @cut opens body closes later outline plain _ ih =>
    have opening : Outline.read none (⟨opens, .functionStart⟩ ::
        (body ++ ⟨closes, .functionEnd⟩ :: (later ++ rest))) =
        Outline.read (some (opens, [])) (body ++ ⟨closes, .functionEnd⟩ :: (later ++ rest)) := rfl
    have closing : Outline.read (some (opens, body.reverse ++ []))
        (⟨closes, .functionEnd⟩ :: (later ++ rest)) =
        (Outline.read none (later ++ rest)).bind fun behind =>
          .ok ⟨⟨opens, (body.reverse ++ []).reverse, closes⟩ :: behind.definitions, behind.top⟩ := rfl
    rw [List.cons_append, List.append_assoc, List.cons_append, opening, Outline.read_inside plain,
      closing, ih]
    cases Outline.read none rest with
    | error offset => rfl
    | ok behind => simp [Except.bind, Outline.append]

/-- Every `(` has a `)` behind it. -/
theorem functionEnd_mem (outlines : Outlines given outline) {outer inside : List Token} {opens : Nat}
    (cut : given = outer ++ ⟨opens, .functionStart⟩ :: inside) : .functionEnd ∈ operators inside := by
  induction outlines generalizing outer with
  | nil => simp at cut
  | @keep token rest outline plain _ ih =>
    cases outer with
    | nil =>
      obtain ⟨rfl, _⟩ := List.cons.inj cut
      cases plain
    | cons first outer => exact ih (List.cons.inj cut).2
  | @cut start body closes rest outline plain _ ih =>
    cases outer with
    | nil =>
      rw [← (List.cons.inj cut).2]
      simp
    | cons first outer =>
      rcases split_cases (List.cons.inj cut).2 with ⟨_, clash, _⟩ | ⟨_, _, later⟩ | ⟨_, rfl, _⟩
      · cases clash
      · exact ih later
      · have paren := plain ⟨opens, .functionStart⟩ (by simp)
        cases paren

theorem isBare_eq_false (outlines : Outlines given outline) (increasing : Increasing given)
    {definition : Definition} (listed : definition ∈ outline.definitions)
    (sound : definition.fault? = none) : definition.isBare = false := by
  refine eq_false_of_ne_true fun bare => ?_
  cases sound.symm.trans (outlines.fault?_of_isBare increasing listed bare)

/-- Nothing is wrong when all passes find nothing. -/
theorem bracketFault?_eq_none (outlines : Outlines given outline) (increasing : Increasing given)
    (bodies : ∀ definition ∈ outline.definitions, definition.fault? = none)
    (top : loopFault? 0 0 outline.top = none) : bracketFault? given = none := by
  have noBare := Definition.find?_isBare_eq_none fun definition listed =>
    outlines.isBare_eq_false increasing listed (bodies definition listed)
  rw [bracketFault?, Outline.ofTokens, outlines.read]
  simp [Outline.fault?, noBare, top, List.findSome?_eq_none_iff.mpr bodies]

end Outlines

/-- Operators outside functions, with nothing wrong so far. -/
structure Begun (given : List Token) (outline : Outline) (outermost height : Nat) : Prop where
  outlines : Outlines given outline
  bodies : ∀ definition ∈ outline.definitions, definition.fault? = none
  loops : LoopsOpen outline.top outermost height

/-- Operators with nothing wrong so far, outside functions or inside one. -/
inductive Unbroken : List Token → Prop
  | outside {given outline outermost height} : Begun given outline outermost height → Unbroken given
  | inside {outer outline outermost height opens body innermost depth} :
      Begun outer outline outermost height → (∀ token ∈ body, token.operator.isParen = false) →
      LoopsOpen body innermost depth → Unbroken (outer ++ ⟨opens, .functionStart⟩ :: body)

namespace Begun

variable {given body : List Token} {outline : Outline} {outermost height opens innermost depth : Nat}

theorem nil : Begun [] ⟨[], []⟩ 0 0 :=
  ⟨.nil, nofun, .nil⟩

theorem isBare_eq_false (begun : Begun given outline outermost height) (increasing : Increasing given)
    {definition : Definition} (listed : definition ∈ outline.definitions) : definition.isBare = false :=
  begun.outlines.isBare_eq_false increasing listed (begun.bodies definition listed)

/-- Inside a function what was read before it stays in front. -/
theorem read_function (begun : Begun given outline outermost height)
    (plain : ∀ token ∈ body, token.operator.isParen = false) (rest : List Token) :
    Outline.read none (given ++ ⟨opens, .functionStart⟩ :: body ++ rest) =
      (Outline.read (some (opens, body.reverse)) rest).bind fun behind =>
        .ok (outline.append behind) := by
  have inside : Outline.read none (⟨opens, .functionStart⟩ :: (body ++ rest)) =
      Outline.read (some (opens, body.reverse)) rest := by
    have onward := Outline.read_inside plain opens [] rest
    rwa [List.append_nil] at onward
  rw [List.append_assoc, List.cons_append, begun.outlines.read_append, inside]

/-- A definition behind the operators that is in order. -/
theorem define (begun : Begun given outline outermost height) (filled : body ≠ [])
    (plain : ∀ token ∈ body, token.operator.isParen = false) (loops : loopFault? 0 0 body = none)
    (opens closes : Nat) :
    Begun (given ++ ⟨opens, .functionStart⟩ :: (body ++ [⟨closes, .functionEnd⟩]))
      (outline.append ⟨[⟨opens, body, closes⟩], []⟩) outermost height where
  outlines := begun.outlines.append (.cut plain .nil)
  bodies := by
    intro definition listed
    rcases List.mem_append.mp listed with old | new
    · exact begun.bodies definition old
    · obtain rfl := List.mem_singleton.mp new
      simp [Definition.fault?, filled, loops]
  loops := by
    have same : (outline.append ⟨[⟨opens, body, closes⟩], []⟩).top = outline.top :=
      List.append_nil _
    rw [same]
    exact begun.loops

theorem keep (begun : Begun given outline outermost height) {token : Token}
    (plain : token.operator.isParen = false) (loops : LoopsOpen (outline.top ++ [token]) innermost depth) :
    Begun (given ++ [token]) (outline.append ⟨[], [token]⟩) innermost depth where
  outlines := begun.outlines.append (.keep plain .nil)
  bodies := by
    intro definition listed
    have old : definition ∈ outline.definitions := by simpa [Outline.append] using listed
    exact begun.bodies definition old
  loops := loops

end Begun

section Kinds

variable {given body : List Token} {outline : Outline} {outermost height opens innermost depth offset : Nat}

theorem pointed_of_ne {token : Token} (other : token.operator ≠ .functionEnd) (before : List Token) :
    Pointed before token token.offset :=
  ⟨fun closes => absurd closes other, fun _ => rfl⟩

theorem pointed_of_closed {before : List Token} (closed : ∀ opens, ¬ OpenLoop before opens)
    (token : Token) : Pointed before token token.offset :=
  ⟨fun _ ⟨opens, opened⟩ => absurd opened (closed opens), fun _ => rfl⟩

theorem not_passes_of_error {check : Check} (failed : Outline.read none given = .error offset) :
    ¬ check.Passes given := by
  rintro ⟨outline, read, _⟩
  cases failed.symm.trans read

theorem bracketFault?_of_error (failed : Outline.read none given = .error offset) :
    bracketFault? given = some offset := by
  rw [bracketFault?, Outline.ofTokens, failed]

/-- A parenthesis at which no outline can be read. -/
theorem stops_of_error {before : List Token} {token : Token}
    (failed : ∀ after, Outline.read none (before ++ token :: after) = .error token.offset)
    (pointed : Pointed before token token.offset) : Stops .parentheses before token token.offset where
  stuck after := not_passes_of_error (failed after)
  possible _ before := absurd before List.not_mem_nil
  reported after _ _ := bracketFault?_of_error (failed after)
  pointed := pointed

theorem stops_nested (begun : Begun given outline outermost height)
    (plain : ∀ token ∈ body, token.operator.isParen = false) (opens offset : Nat) :
    Stops .parentheses (given ++ ⟨opens, .functionStart⟩ :: body) ⟨offset, .functionStart⟩ offset := by
  refine stops_of_error (fun after => ?_) (pointed_of_ne (by simp) _)
  rw [begun.read_function plain]
  rfl

theorem stops_stray (begun : Begun given outline outermost height) (offset : Nat) :
    Stops .parentheses given ⟨offset, .functionEnd⟩ offset := by
  refine stops_of_error (fun after => ?_) (pointed_of_closed ?_ _)
  · rw [begun.outlines.read_append]
    rfl
  · rintro place ⟨outer, opens, left, right, cut, plain, _⟩
    obtain ⟨token, listed, closes⟩ := List.mem_map.mp (begun.outlines.functionEnd_mem cut)
    have clash := isParen_of_sides plain listed
    rw [closes] at clash
    cases clash

/-- In every outline of these operators and what follows there is a definition with a fault at `place`,
which may have to be bare, and no fault in a definition before it. -/
def Spoils (before : List Token) (token : Token) (place : Nat) (bare : Bool) : Prop :=
  ∀ after whole, Outline.read none (before ++ token :: after) = .ok whole →
    ∃ earlier definition later, whole.definitions = earlier ++ definition :: later ∧
      (∀ other ∈ earlier, other.fault? = none) ∧ definition.fault? = some place ∧
      (bare = true → definition.isBare = true)

theorem stops_of_bare {before : List Token} {token : Token} {place : Nat}
    (spoils : Spoils before token place true)
    (possible : ∀ earlier ∈ Check.bare.earlier, earlier.Passes (before ++ [token]))
    (pointed : Pointed before token place) : Stops .bare before token place where
  stuck := by
    rintro after ⟨whole, read, holds⟩
    obtain ⟨earlier, definition, later, split, _, _, bare⟩ := spoils after whole read
    have filled := holds definition (by simp [split])
    cases (bare rfl).symm.trans filled
  possible earlier before := ⟨[], fun _ => possible earlier before⟩
  reported := by
    intro after increasing passes
    obtain ⟨whole, read, _⟩ := passes .parentheses (by simp [Check.earlier])
    have outlines := Outlines.of_read read
    obtain ⟨earlier, definition, later, split, sound, fault, bare⟩ := spoils after whole read
    have filled := Definition.find?_isBare_eq_none fun other listed =>
      outlines.isBare_eq_false increasing (by simp [split, listed]) (sound other listed)
    have closes := outlines.fault?_of_isBare increasing (by simp [split]) (bare rfl)
    obtain rfl := Option.some.inj (closes.symm.trans fault)
    rw [bracketFault?, read]
    simp [Outline.fault?, split, List.find?_append, filled, bare rfl]
  pointed := pointed

theorem stops_of_body {before : List Token} {token : Token} {place : Nat}
    (spoils : Spoils before token place false)
    (possible : ∃ more : Text, Increasing (before ++ token :: tokensFrom (token.offset + 1) more) →
      ∀ earlier ∈ Check.bodies.earlier,
        earlier.Passes (before ++ token :: tokensFrom (token.offset + 1) more))
    (pointed : Pointed before token place) : Stops .bodies before token place where
  stuck := by
    rintro after ⟨whole, read, holds⟩
    obtain ⟨earlier, definition, later, split, _, fault, _⟩ := spoils after whole read
    have sound := holds definition (by simp [split])
    cases fault.symm.trans sound
  possible earlier before := by
    obtain ⟨more, passes⟩ := possible
    exact ⟨more, fun increasing => passes increasing earlier before⟩
  reported := by
    intro after increasing passes
    obtain ⟨whole, read, noBare⟩ := passes .bare (by simp [Check.earlier])
    obtain ⟨earlier, definition, later, split, sound, fault, _⟩ := spoils after whole read
    have filled := Definition.find?_isBare_eq_none noBare
    have found : whole.definitions.findSome? Definition.fault? = some place := by
      simp [split, List.findSome?_append, List.findSome?_eq_none_iff.mpr sound, fault]
    rw [bracketFault?, read]
    simp [Outline.fault?, filled, found]
  pointed := pointed

/-- Where only the body of the last function is at fault, the passes before that of the bodies find
nothing. -/
theorem Begun.passes_function (begun : Begun given outline outermost height)
    (plain : ∀ token ∈ body, token.operator.isParen = false) {closes : Nat}
    (increasing : Increasing (given ++ ⟨opens, .functionStart⟩ :: (body ++ [⟨closes, .functionEnd⟩])))
    (apart : body = [] → closes ≠ opens + 1) (check : Check) (earlier : check ∈ Check.bodies.earlier) :
    check.Passes (given ++ ⟨opens, .functionStart⟩ :: (body ++ [⟨closes, .functionEnd⟩])) := by
  obtain ⟨outside, within, _⟩ := List.pairwise_append.mp increasing
  have filled : (Definition.mk opens body closes).isBare = false := by
    by_cases empty : body = []
    · simpa [Definition.isBare] using apart empty
    · exact Definition.isBare_eq_false empty within
  refine ⟨_, (begun.outlines.append (.cut plain .nil)).read, ?_⟩
  cases check with
  | parentheses => trivial
  | bare =>
    intro definition listed
    rcases List.mem_append.mp listed with old | new
    · exact begun.isBare_eq_false outside old
    · obtain rfl := List.mem_singleton.mp new
      exact filled
  | bodies | loops => simp [Check.earlier] at earlier

/-- A `)` ends a definition with a fault. -/
theorem spoils_functionEnd (begun : Begun given outline outermost height)
    (plain : ∀ token ∈ body, token.operator.isParen = false) {opens offset place : Nat} {bare : Bool}
    (fault : (Definition.mk opens body offset).fault? = some place)
    (isBare : bare = true → (Definition.mk opens body offset).isBare = true) :
    Spoils (given ++ ⟨opens, .functionStart⟩ :: body) ⟨offset, .functionEnd⟩ place bare := by
  intro after whole read
  rw [begun.read_function plain] at read
  obtain ⟨closed, readClosed, rfl⟩ := Outline.ok_of_bind read
  have closing : Outline.read (some (opens, body.reverse)) (⟨offset, .functionEnd⟩ :: after) =
      (Outline.read none after).bind fun behind =>
        .ok ⟨⟨opens, body.reverse.reverse, offset⟩ :: behind.definitions, behind.top⟩ := rfl
  rw [closing, List.reverse_reverse] at readClosed
  obtain ⟨behind, _, rfl⟩ := Outline.ok_of_bind readClosed
  exact ⟨outline.definitions, ⟨opens, body, offset⟩, behind.definitions, rfl, begun.bodies, fault,
    isBare⟩

/-- A `]` without a loop to end is in a definition with a fault. -/
theorem spoils_loopEnd (begun : Begun given outline outermost height)
    (plain : ∀ token ∈ body, token.operator.isParen = false) (loops : LoopsOpen body innermost 0)
    (opens offset : Nat) :
    Spoils (given ++ ⟨opens, .functionStart⟩ :: body) ⟨offset, .loopEnd⟩ offset false := by
  intro after whole read
  rw [begun.read_function plain] at read
  obtain ⟨behind, later, rfl⟩ := Outline.ok_of_bind read
  obtain ⟨inside, closes, rest, others, cut, _, _, rfl⟩ := Outline.read_function later
  cases inside with
  | nil => cases cut
  | cons first inside =>
    obtain ⟨rfl, _⟩ := List.cons.inj cut
    refine ⟨outline.definitions, _, others.definitions, rfl, begun.bodies, ?_, nofun⟩
    simp [Definition.fault?, loops.onward, loopFault?]

theorem not_openLoop_of_opening (outer : List Token) (opens place : Nat) :
    ¬ OpenLoop (outer ++ [⟨opens, .functionStart⟩]) place := by
  rintro ⟨other, start, left, right, cut, plain, _⟩
  rcases split_cases cut with ⟨_, _, clash⟩ | ⟨_, _, clash⟩ | ⟨between, _, inside⟩
  · simp at clash
  · simp at clash
  · -- The `(` at the end would stand in a body without parentheses.
    have listed : ⟨opens, .functionStart⟩ ∈ left ++ ⟨place, .loopStart⟩ :: right := by
      rw [inside]
      simp
    cases isParen_of_sides plain listed

/-- A `)` behind a `(` stops the check for bare functions, or the check of the bodies if there is a
comment between. -/
theorem stops_empty (begun : Begun given outline outermost height) (opens offset : Nat) :
    ∃ check, Stops check (given ++ [⟨opens, .functionStart⟩]) ⟨offset, .functionEnd⟩ offset := by
  have pointed : Pointed (given ++ [⟨opens, .functionStart⟩]) ⟨offset, .functionEnd⟩ offset :=
    pointed_of_closed (not_openLoop_of_opening given opens) _
  have nothing : ∀ token ∈ ([] : List Token), token.operator.isParen = false := by simp
  by_cases bare : offset = opens + 1
  · refine ⟨.bare, stops_of_bare (spoils_functionEnd begun nothing rfl fun _ => ?_) ?_ pointed⟩
    · simp [Definition.isBare, bare]
    · intro check first
      obtain rfl := List.mem_singleton.mp first
      rw [List.append_assoc]
      exact ⟨_, (begun.outlines.append (.cut nothing .nil)).read, trivial⟩
  · refine ⟨.bodies, stops_of_body (spoils_functionEnd begun nothing rfl fun clash => ?_) ⟨[], ?_⟩ pointed⟩
    · cases clash
    · intro increasing
      rw [List.append_assoc] at increasing ⊢
      exact begun.passes_function nothing increasing fun _ => bare

/-- A `)` behind a loop that is open points to the loop. -/
theorem stops_leftOpen (begun : Begun given outline outermost height)
    (plain : ∀ token ∈ body, token.operator.isParen = false)
    (loops : LoopsOpen body innermost (depth + 1)) (opens offset : Nat) :
    Stops .bodies (given ++ ⟨opens, .functionStart⟩ :: body) ⟨offset, .functionEnd⟩ innermost := by
  obtain ⟨left, right, rfl, unpaired⟩ := loops.unpaired
  have fault : (Definition.mk opens (left ++ ⟨innermost, .loopStart⟩ :: right) offset).fault? =
      some innermost := by
    have found := loops.onward []
    rw [List.append_nil] at found
    simp [Definition.fault?, found, loopFault?]
  have opened : OpenLoop (given ++ ⟨opens, .functionStart⟩ :: (left ++ ⟨innermost, .loopStart⟩ :: right))
      innermost := by
    refine ⟨given, opens, left, right, rfl, ?_, unpaired⟩
    intro token member
    refine plain token ?_
    rcases List.mem_append.mp member with before | behind
    · exact List.mem_append_left _ before
    · exact List.mem_append_right _ (List.mem_cons_of_mem _ behind)
  have spoils := spoils_functionEnd begun plain fault fun clash => absurd clash Bool.false_ne_true
  refine stops_of_body spoils ⟨[], fun increasing => ?_⟩ ⟨fun _ _ => opened, ?_⟩
  · rw [List.append_assoc] at increasing ⊢
    exact begun.passes_function plain increasing (by simp)
  · exact fun closed => absurd ⟨rfl, innermost, opened⟩ closed

/-- A `]` without a loop to end, in a function. -/
theorem stops_loopEnd_inside (begun : Begun given outline outermost height)
    (plain : ∀ token ∈ body, token.operator.isParen = false) (loops : LoopsOpen body innermost 0)
    (opens offset : Nat) :
    Stops .bodies (given ++ ⟨opens, .functionStart⟩ :: body) ⟨offset, .loopEnd⟩ offset := by
  refine stops_of_body (spoils_loopEnd begun plain loops opens offset) ⟨[')'], ?_⟩
    (pointed_of_ne (by simp) _)
  have ended : given ++ ⟨opens, .functionStart⟩ :: body ++
      ⟨offset, .loopEnd⟩ :: tokensFrom (offset + 1) [')'] =
      given ++ ⟨opens, .functionStart⟩ :: (body ++ [⟨offset, .loopEnd⟩] ++ [⟨offset + 1, .functionEnd⟩]) := by
    simp [tokensFrom, Operator.ofChar?]
  rw [ended]
  intro increasing
  refine begun.passes_function ?_ increasing (by simp)
  intro token member
  rcases List.mem_append.mp member with before | new
  · exact plain token before
  · rw [List.mem_singleton.mp new]
    rfl

/-- A `]` without a loop to end, outside functions. -/
theorem stops_loopEnd_outside (begun : Begun given outline outermost 0) (offset : Nat) :
    Stops .loops given ⟨offset, .loopEnd⟩ offset := by
  have fault {after : List Token} {whole : Outline}
      (read : Outline.read none (given ++ ⟨offset, .loopEnd⟩ :: after) = .ok whole) :
      loopFault? 0 0 whole.top = some offset := by
    rw [begun.outlines.read_append, Outline.read_keep rfl] at read
    obtain ⟨kept, readKept, rfl⟩ := Outline.ok_of_bind read
    obtain ⟨behind, _, rfl⟩ := Outline.ok_of_bind readKept
    exact begun.loops.onward _
  refine ⟨?_, ?_, ?_, pointed_of_ne (by simp) _⟩
  · rintro after ⟨whole, read, holds⟩
    cases (fault read).symm.trans holds
  · intro check earlier
    refine ⟨[], fun increasing => ⟨_, (begun.outlines.append (.keep rfl .nil)).read, ?_⟩⟩
    have outside := (List.pairwise_append.mp increasing).1
    cases check with
    | parentheses => trivial
    | bare =>
      intro definition listed
      have old : definition ∈ outline.definitions := by simpa [Outline.append] using listed
      exact begun.isBare_eq_false outside old
    | bodies => simpa [Check.Holds, Outline.append] using begun.bodies
    | loops => simp [Check.earlier] at earlier
  · intro after increasing passes
    obtain ⟨whole, read, noBare⟩ := passes .bare (by simp [Check.earlier])
    obtain ⟨wholeToo, readToo, bodies⟩ := passes .bodies (by simp [Check.earlier])
    obtain rfl := Except.ok.inj (read.symm.trans readToo)
    have filled := Definition.find?_isBare_eq_none noBare
    rw [bracketFault?, read]
    simp [Outline.fault?, filled, List.findSome?_eq_none_iff.mpr bodies, fault read]

end Kinds

/-- One more operator breaks nothing, or a check stops at it. -/
theorem Unbroken.step {given : List Token} (unbroken : Unbroken given) (token : Token) :
    Unbroken (given ++ [token]) ∨ ∃ check place, Stops check given token place := by
  obtain ⟨offset, operator⟩ := token
  cases unbroken with
  | @outside _ outline outermost height begun =>
    cases operator with
    | functionStart => exact .inl (.inside begun (by simp) .nil)
    | functionEnd => exact .inr ⟨_, _, stops_stray begun offset⟩
    | loopStart => exact .inl (.outside (begun.keep rfl (begun.loops.loopStart offset)))
    | loopEnd =>
      cases height with
      | zero => exact .inr ⟨_, _, stops_loopEnd_outside begun offset⟩
      | succ height => exact .inl (.outside (begun.keep rfl (begun.loops.loopEnd offset)))
    | act _ | call =>
      exact .inl (.outside (begun.keep rfl (begun.loops.other (by simp) (by simp))))
  | @inside outer outline outermost height opens body innermost depth begun plain loops =>
    have onward {last depth : Nat} (simple : operator.isParen = false)
        (loops : LoopsOpen (body ++ [⟨offset, operator⟩]) last depth) :
        Unbroken (outer ++ ⟨opens, .functionStart⟩ :: body ++ [⟨offset, operator⟩]) := by
      rw [List.append_assoc, List.cons_append]
      refine .inside begun ?_ loops
      intro token member
      rcases List.mem_append.mp member with before | new
      · exact plain token before
      · rw [List.mem_singleton.mp new]
        exact simple
    cases operator with
    | functionStart => exact .inr ⟨_, _, stops_nested begun plain opens offset⟩
    | functionEnd =>
      cases depth with
      | succ depth => exact .inr ⟨_, _, stops_leftOpen begun plain loops opens offset⟩
      | zero =>
        by_cases filled : body = []
        · subst filled
          obtain ⟨check, stops⟩ := stops_empty begun opens offset
          exact .inr ⟨check, _, stops⟩
        · have sound : loopFault? 0 0 body = none := by
            have found := loops.onward []
            rwa [List.append_nil] at found
          rw [List.append_assoc, List.cons_append]
          exact .inl (.outside (begun.define filled plain sound opens offset))
    | loopStart => exact .inl (onward rfl (loops.loopStart offset))
    | loopEnd =>
      cases depth with
      | zero =>
        exact .inr ⟨_, _, stops_loopEnd_inside begun plain loops opens offset⟩
      | succ depth => exact .inl (onward rfl (loops.loopEnd offset))
    | act _ | call => exact .inl (onward rfl (loops.other (by simp) (by simp)))

/-- A front part of operators that are in order is not broken. -/
theorem unbroken_of_sound {given rest : List Token} (sound : bracketFault? (given ++ rest) = none) :
    Unbroken given := by
  induction given using List.reverseRecOn generalizing rest with
  | nil => exact .outside .nil
  | append_singleton given token ih =>
    rw [List.append_assoc] at sound
    rcases (ih sound).step token with unbroken | ⟨check, place, stops⟩
    · exact unbroken
    · exact absurd (Check.passes_of_sound sound check) (stops.stuck rest)

section Completion

theorem tokens_append (first second : Text) :
    tokens (first ++ second) = tokens first ++ tokensFrom first.length second := by
  rw [tokens, tokensFrom_append, Nat.zero_add, tokens]

theorem loopFault?_loopEnds (outermost height base : Nat) :
    loopFault? outermost height (tokensFrom base (List.replicate height ']')) = none := by
  induction height generalizing base with
  | zero => rfl
  | succ height ih => exact ih (base + 1)

theorem isParen_of_mem_loopEnds {base count : Nat} {token : Token}
    (listed : token ∈ tokensFrom base (List.replicate count ']')) : token.operator.isParen = false := by
  induction count generalizing base with
  | zero => cases listed
  | succ count ih =>
    rcases List.mem_cons.mp listed with rfl | later
    · rfl
    · exact ih later

theorem outlines_of_plain {given : List Token} (plain : ∀ token ∈ given, token.operator.isParen = false) :
    Outlines given ⟨[], given⟩ := by
  induction given with
  | nil => exact .nil
  | cons token rest ih =>
    exact .keep (plain token (List.mem_cons_self ..))
      (ih fun other member => plain other (List.mem_cons_of_mem _ member))

/-- The loops that are open outside functions can be closed. -/
theorem Begun.not_hopeless {front : Text} {outline : Outline} {outermost height : Nat}
    (begun : Begun (tokens front) outline outermost height) : ¬ Hopeless front := by
  intro hopeless
  have rejected := hopeless (List.replicate height ']')
  have ends : ∀ token ∈ tokensFrom front.length (List.replicate height ']'),
      token.operator.isParen = false := fun token listed => isParen_of_mem_loopEnds listed
  have outlines := begun.outlines.append (outlines_of_plain ends)
  rw [← tokens_append] at outlines
  have sound := outlines.bracketFault?_eq_none (increasing_tokensFrom 0 _)
    (by simpa [Outline.append] using begun.bodies)
    ((begun.loops.onward _).trans (loopFault?_loopEnds outermost height _))
  rw [bracketReport_of_sound sound] at rejected
  cases rejected

theorem Hopeless.append {front : Text} (hopeless : Hopeless front) (more : Text) :
    Hopeless (front ++ more) := by
  intro further
  rw [List.append_assoc]
  exact hopeless (more ++ further)

/-- Where nothing is wrong so far, the script can be brought to an end: in a function by one more
operator, a `]` for every open loop, and a `)`. -/
theorem Unbroken.not_hopeless {front : Text} (unbroken : Unbroken (tokens front)) :
    ¬ Hopeless front := by
  generalize spelled : tokens front = given at unbroken
  cases unbroken with
  | outside begun =>
    subst spelled
    exact begun.not_hopeless
  | @inside outer outline outermost height opens body innermost depth begun plain loops =>
    intro hopeless
    let filler : List Token := ⟨front.length, .act .plus⟩ ::
      tokensFrom (front.length + 1) (List.replicate depth ']')
    have simple : ∀ token ∈ body ++ filler, token.operator.isParen = false := by
      intro token member
      rcases List.mem_append.mp member with before | added
      · exact plain token before
      · rcases List.mem_cons.mp added with rfl | closing
        · rfl
        · exact isParen_of_mem_loopEnds closing
    have sound : loopFault? 0 0 (body ++ filler) = none :=
      (loops.onward filler).trans (loopFault?_loopEnds innermost depth _)
    have complete := begun.define (by simp [filler]) simple sound opens (front.length + 1 + depth)
    have longer : tokens (front ++ '+' :: (List.replicate depth ']' ++ [')'])) =
        outer ++ ⟨opens, .functionStart⟩ ::
          (body ++ filler ++ [⟨front.length + 1 + depth, .functionEnd⟩]) := by
      rw [tokens_append, spelled]
      simp [filler, tokensFrom, Operator.ofChar?, tokensFrom_append]
    rw [← longer] at complete
    exact complete.not_hopeless (hopeless.append _)

end Completion

/-- A script with a hopeless front part has a first offence. -/
theorem exists_firstOffence {source : Text} {count : Nat} (hopeless : Hopeless (source.take count)) :
    ∃ index, FirstOffence source index := by
  have exists_ : ∃ count, Hopeless (source.take count) := ⟨count, hopeless⟩
  classical
  obtain ⟨least, first, minimal⟩ : ∃ least, Hopeless (source.take least) ∧
      ∀ shorter < least, ¬ Hopeless (source.take shorter) :=
    ⟨Nat.find exists_, Nat.find_spec exists_, fun _ shorter => Nat.find_min exists_ shorter⟩
  cases least with
  | zero => cases first []
  | succ index =>
    refine ⟨index, ?_, first, fun shorter bound => minimal shorter (Nat.lt_succ_of_le bound)⟩
    by_contra beyond
    have same : source.take (index + 1) = source.take index := by
      rw [List.take_of_length_le (by omega), List.take_of_length_le (by omega)]
    exact minimal index (Nat.lt_succ_self index) (same ▸ first)

theorem FirstOffence.exists_split {source : Text} {index : Nat} (first : FirstOffence source index) :
    ∃ before c rest, source = before ++ c :: rest ∧ before.length = index := by
  have inside := first.inside
  refine ⟨source.take index, source[index], source.drop (index + 1), ?_,
    List.length_take_of_le (Nat.le_of_lt inside)⟩
  rw [List.getElem_cons_drop, List.take_append_drop]

section AtTheOffence

variable {front rest : Text} {c : Char}

theorem FirstOffence.unbroken (first : FirstOffence (front ++ c :: rest) front.length) :
    Unbroken (tokens front) := by
  by_contra broken
  have possible := first.before front.length (Nat.le_refl _)
  rw [List.take_left] at possible
  refine possible fun more => ?_
  cases sound : bracketFault? (tokens (front ++ more)) with
  | some offset => rw [bracketReport_of_fault sound]
  | none =>
    rw [tokens_append] at sound
    exact absurd (unbroken_of_sound sound) broken

/-- At the first offence there is an operator, and a check stops at it. -/
theorem FirstOffence.exists_stops (first : FirstOffence (front ++ c :: rest) front.length) :
    ∃ check operator place, Operator.ofChar? c = some operator ∧
      Stops check (tokens front) ⟨front.length, operator⟩ place := by
  have unbroken := first.unbroken
  have hopeless : Hopeless (front ++ [c]) := by
    have broken := first.hopeless
    rwa [List.take_length_add_append, List.take_succ_cons, List.take_zero] at broken
  cases read : Operator.ofChar? c with
  | none =>
    have same : tokens (front ++ [c]) = tokens front := by
      simp [tokens_append, tokensFrom, read]
    rw [← same] at unbroken
    exact absurd hopeless unbroken.not_hopeless
  | some operator =>
    have same : tokens (front ++ [c]) = tokens front ++ [⟨front.length, operator⟩] := by
      simp [tokens_append, tokensFrom, read]
    rcases unbroken.step ⟨front.length, operator⟩ with onward | ⟨check, place, stops⟩
    · rw [← same] at onward
      exact absurd hopeless onward.not_hopeless
    · exact ⟨check, operator, place, rfl, stops⟩

theorem tokens_at {operator : Operator} (read : Operator.ofChar? c = some operator) (more : Text) :
    tokens (front ++ [c] ++ more) =
      tokens front ++ ⟨front.length, operator⟩ :: tokensFrom (front.length + 1) more := by
  simp [tokens_append, tokensFrom, read]

theorem Stops.blocks {check : Check} {operator : Operator} {place : Nat}
    (stops : Stops check (tokens front) ⟨front.length, operator⟩ place)
    (read : Operator.ofChar? c = some operator) : check.Blocks (front ++ [c]) where
  stuck more := by
    rw [tokens_at read]
    exact stops.stuck _
  first earlier before := by
    obtain ⟨more, passes⟩ := stops.possible earlier before
    rw [← tokens_at read] at passes
    exact ⟨more, passes (increasing_tokensFrom 0 _)⟩

theorem Check.Blocks.hopeless {check : Check} (blocks : check.Blocks front) : Hopeless front := by
  intro more
  cases sound : bracketFault? (tokens (front ++ more)) with
  | some offset => rw [bracketReport_of_fault sound]
  | none => exact absurd (Check.passes_of_sound sound check) (blocks.stuck more)

/-- A character at which a check stops is the first offence, if what stands before it can be brought to
an end. -/
theorem Stops.firstOffence {check : Check} {operator : Operator} {place : Nat} {more : Text}
    (stops : Stops check (tokens front) ⟨front.length, operator⟩ place)
    (read : Operator.ofChar? c = some operator)
    (possible : (bracketReport (front ++ more)).valid = true) (rest : Text) :
    FirstOffence (front ++ c :: rest) front.length where
  inside := by simp
  hopeless := by
    rw [List.take_length_add_append]
    exact (stops.blocks read).hopeless
  before := by
    intro count bound hopeless
    have rejected := hopeless (front.drop count ++ more)
    rw [List.take_append_of_le_length bound, ← List.append_assoc, List.take_append_drop] at rejected
    cases possible.symm.trans rejected

end AtTheOffence

theorem Operator.ofChar?_eq_functionEnd_iff {c : Char} {operator : Operator}
    (read : ofChar? c = some operator) : operator = .functionEnd ↔ c = ')' := by
  rw [← symbol_of_ofChar? read]
  constructor
  · rintro rfl
    rfl
  · intro same
    have again := ofChar?_symbol operator
    rw [same] at again
    exact (Option.some.inj again).symm

/-- What is reported of a script when the passes before the one that stops at a character find
nothing. -/
theorem Stops.errorOffset {front rest : Text} {c : Char} {check : Check} {operator : Operator} {place : Nat}
    (stops : Stops check (tokens front) ⟨front.length, operator⟩ place)
    (read : Operator.ofChar? c = some operator)
    (passes : ∀ earlier ∈ check.earlier, earlier.Passes (tokens (front ++ [c] ++ rest))) :
    (bracketReport (front ++ [c] ++ rest)).errorOffset = place := by
  have increasing := increasing_tokensFrom 0 (front ++ [c] ++ rest)
  have spelled := @tokens_at front c operator read rest
  have fault := stops.reported (tokensFrom (front.length + 1) rest) (spelled ▸ increasing)
    (spelled ▸ passes)
  rw [← spelled] at fault
  rw [bracketReport_of_fault fault]

/-- A script with a hopeless front part is not in order. The last character of the shortest such part
is one behind which some pass of the check cannot succeed any more. If the passes before the first such
pass find nothing in the script, this character is reported; but if it is the `)` of a function in
which a loop is open, the first `[` that is open there is reported. -/
theorem first_offence_is_reported (source front : Text) (part : front <+: source)
    (hopeless : Hopeless front) :
    (bracketReport source).valid = false ∧
    (∃ index check, FirstOffence source index ∧ Check.Blocks check (source.take (index + 1))) ∧
    ∀ index check, FirstOffence source index → Check.Blocks check (source.take (index + 1)) →
      (∀ earlier ∈ check.earlier, earlier.Passes (tokens source)) →
      (source[index]? = some ')' → (∃ opens, OpenLoop (tokens (source.take index)) opens) →
        OpenLoop (tokens (source.take index)) (bracketReport source).errorOffset) ∧
      (¬ (source[index]? = some ')' ∧ ∃ opens, OpenLoop (tokens (source.take index)) opens) →
        (bracketReport source).errorOffset = index) := by
  obtain ⟨behind, rfl⟩ := part
  refine ⟨hopeless behind, ?_, ?_⟩
  · obtain ⟨index, first⟩ := @exists_firstOffence (front ++ behind) front.length
      (by rwa [List.take_left])
    obtain ⟨before, c, rest, split, rfl⟩ := first.exists_split
    rw [split] at first ⊢
    obtain ⟨check, operator, place, read, stops⟩ := first.exists_stops
    refine ⟨before.length, check, first, ?_⟩
    rw [List.take_length_add_append]
    exact stops.blocks read
  · intro index check first blocks passes
    obtain ⟨before, c, rest, split, rfl⟩ := first.exists_split
    rw [split] at first blocks passes ⊢
    obtain ⟨other, operator, place, read, stops⟩ := first.exists_stops
    rw [List.take_length_add_append] at blocks
    obtain rfl := blocks.unique (stops.blocks read)
    rw [List.append_cons] at passes ⊢
    rw [stops.errorOffset read passes]
    have here : (before ++ [c] ++ rest)[before.length]? = some c := by simp
    have taken : (before ++ [c] ++ rest).take before.length = before := by simp
    simp only [taken, here, Option.some.injEq, ← Operator.ofChar?_eq_functionEnd_iff read]
    exact ⟨stops.pointed.loop, stops.pointed.itself⟩

/-- A `]` too many in a function is reported, although a loop is left open behind the function. -/
theorem first_offence_is_reported_in_a_function :
    Hopeless "(+]".toList ∧ FirstOffence "(+])[".toList 2 ∧ Check.bodies.Blocks "(+]".toList ∧
      (∀ earlier ∈ Check.bodies.earlier, earlier.Passes (tokens "(+])[".toList)) ∧
      (bracketReport "(+])[".toList).errorOffset = 2 := by
  have loops : LoopsOpen [⟨1, .act .plus⟩] 0 0 := LoopsOpen.nil.other (by simp) (by simp)
  have stops : Stops .bodies (tokens "(+".toList) ⟨2, .loopEnd⟩ 2 :=
    stops_loopEnd_inside .nil (by simp [Operator.isParen]) loops 0 2
  have blocks : Check.bodies.Blocks "(+]".toList := @Stops.blocks "(+".toList ']' _ _ _ stops rfl
  have first : FirstOffence "(+])[".toList 2 :=
    @Stops.firstOffence "(+".toList ']' _ _ _ [')'] stops rfl (by decide) [')', '[']
  have passes : ∀ earlier ∈ Check.bodies.earlier, earlier.Passes (tokens "(+])[".toList) := by
    intro check earlier
    cases check with
    | parentheses => exact ⟨_, rfl, trivial⟩
    | bare => exact ⟨_, rfl, by simp [Check.Holds, Definition.isBare]⟩
    | bodies | loops => simp [Check.earlier] at earlier
  have reported := (first_offence_is_reported "(+])[".toList "(+]".toList ⟨[')', '['], rfl⟩
    blocks.hopeless).2.2 2 .bodies first blocks passes
  refine ⟨blocks.hopeless, first, blocks, passes, reported.2 ?_⟩
  rintro ⟨closes, _⟩
  revert closes
  decide

/-- The first offence is not always what is reported. A parenthesis that is out of place hides a `]`
that stands before it; and a loop that is open when its function ends is reported in place of the `)`. -/
theorem first_offence_is_not_always_reported :
    (FirstOffence "])".toList 0 ∧ bracketReport "])".toList = ⟨false, 1⟩) ∧
      FirstOffence "+(+[)".toList 4 ∧ bracketReport "+(+[)".toList = ⟨false, 3⟩ := by
  have stray : Stops .loops (tokens []) ⟨0, .loopEnd⟩ 0 := stops_loopEnd_outside .nil 0
  have plus : Begun [⟨0, .act .plus⟩] ⟨[], [⟨0, .act .plus⟩]⟩ 0 0 :=
    Begun.nil.keep rfl (LoopsOpen.nil.other (by simp) (by simp))
  have loops : LoopsOpen [⟨2, .act .plus⟩, ⟨3, .loopStart⟩] 3 1 :=
    (LoopsOpen.nil.other (by simp) (by simp)).loopStart 3
  have leftOpen : Stops .bodies (tokens "+(+[".toList) ⟨4, .functionEnd⟩ 3 :=
    stops_leftOpen plus (by simp [Operator.isParen]) loops 1 4
  refine ⟨⟨?_, by decide⟩, ?_, by decide⟩
  · exact @Stops.firstOffence [] ']' _ _ _ [] stray rfl (by decide) [')']
  · exact @Stops.firstOffence "+(+[".toList ')' _ _ _ "])".toList leftOpen rfl (by decide) []

end TapeStepper
