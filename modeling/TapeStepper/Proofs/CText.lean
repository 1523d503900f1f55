import TapeStepper.Proofs.CExecution

namespace TapeStepper

theorem textLines_append (first rest : Text) :
    textLines (first ++ '\n' :: rest) = textLines first ++ textLines rest := by
  induction first with
  | nil => rfl
  | cons c first ih =>
    obtain ⟨line, lines, split⟩ := List.exists_cons_of_ne_nil (textLines_ne_nil first)
    rw [List.cons_append, textLines, textLines, ih, split]
    split <;> rfl

theorem textLines_of_notMem {line : Text} (whole : '\n' ∉ line) : textLines line = [line] := by
  induction line with
  | nil => rfl
  | cons c line ih =>
    obtain ⟨inside, later⟩ := not_or.mp (mt List.mem_cons.mpr whole)
    rw [textLines, if_neg (Ne.symm inside), ih later]
    rfl

theorem textLines_line {line : Text} (whole : '\n' ∉ line) (rest : Text) :
    textLines (line ++ '\n' :: rest) = line :: textLines rest := by
  rw [textLines_append, textLines_of_notMem whole, List.singleton_append]

theorem newline_notMem_toDigits (number : Nat) : '\n' ∉ Nat.toDigits 10 number := by
  intro listed
  have digit := Nat.isDigit_of_mem_toDigits (by decide) (by decide) listed
  revert digit
  decide

theorem ne_of_head? {first second : Text} (heads : first.head? ≠ second.head?) : first ≠ second :=
  fun same => heads (congrArg List.head? same)

/-- The number on a line between these two texts, if it is written there and nothing else is. -/
def numberOn? (lead behind line : Text) : Option Nat :=
  Option.guard (fun number => lead ++ Nat.toDigits 10 number ++ behind == line)
    (Nat.ofDigitChars 10 ((line.drop lead.length).takeWhile Char.isDigit) 0)

theorem numberOn?_append (lead : Text) (number : Nat) {c : Char} (ends : c.isDigit = false) (rest : Text) :
    numberOn? lead (c :: rest) (lead ++ Nat.toDigits 10 number ++ c :: rest) = some number := by
  have digits : ∀ d ∈ Nat.toDigits 10 number, d.isDigit = true :=
    fun d listed => Nat.isDigit_of_mem_toDigits (by decide) (by decide) listed
  have read : Nat.ofDigitChars 10
      (((lead ++ Nat.toDigits 10 number ++ c :: rest).drop lead.length).takeWhile Char.isDigit) 0 =
      number := by
    rw [List.append_assoc, List.drop_left, List.takeWhile_append_of_pos digits,
      List.takeWhile_cons_of_neg (by simp [ends]), List.append_nil, Nat.ofDigitChars_ten_toDigits]
  rw [numberOn?, read, Option.guard_eq_some_iff]
  exact ⟨rfl, beq_self_eq_true _⟩

/-- A line behind as many tabs as its depth. -/
def indented (depth : Nat) (line : Text) : Text :=
  List.replicate depth '\t' ++ line

def indentation (line : Text) : Nat :=
  (line.takeWhile (· == '\t')).length

def unindented (line : Text) : Text :=
  line.dropWhile (· == '\t')

section Indentation

variable {line : Text} (depth : Nat)

theorem newline_notMem_indented (whole : '\n' ∉ line) : '\n' ∉ indented depth line := by
  rw [indented, List.mem_append, not_or, List.mem_replicate]
  exact ⟨fun tab => absurd tab.2 (by decide), whole⟩

theorem indentation_indented (bare : line.head? ≠ some '\t') :
    indentation (indented depth line) = depth := by
  rw [indentation, indented, List.takeWhile_append_of_pos (by simp)]
  cases line with
  | nil => simp
  | cons c rest =>
    rw [List.takeWhile_cons_of_neg (by simpa using bare)]
    simp

theorem unindented_indented (bare : line.head? ≠ some '\t') :
    unindented (indented depth line) = line := by
  rw [unindented, indented, List.dropWhile_append_of_pos (by simp)]
  cases line with
  | nil => rfl
  | cons c rest => exact List.dropWhile_cons_of_neg (by simpa using bare)

end Indentation

/-- The line that begins a `while`. -/
def whileLine : Text :=
  "while (*ptr) \x7b".toList

/-- The line that ends a `while`, and at the margin that of a function. -/
def closeLine : Text :=
  ['\x7d']

/-- The line that begins the statements of a function. -/
def openLine : Text :=
  ['\x7b']

theorem indented_ne_closeLine {depth : Nat} (positive : 0 < depth) (line : Text) :
    indented depth line ≠ closeLine := by
  obtain ⟨fewer, rfl⟩ := Nat.exists_eq_succ_of_ne_zero (Nat.ne_of_gt positive)
  refine ne_of_head? ?_
  change some '\t' ≠ some '\x7d'
  decide

/-- What stands before the number of a function that is registered. -/
def registration : Text :=
  "functions[*ptr] = function_".toList

namespace CStatement

/-- The statements that are written in one way only. -/
def simple : List CStatement :=
  [pointerUp, pointerDown, cellUp, cellDown, put, get, dispatch]

/-- What C makes of these lines. -/
def lexicon : List (Text × CStatement) :=
  [("++ptr;".toList, pointerUp), ("--ptr;".toList, pointerDown),
    ("++*ptr;".toList, cellUp), ("--*ptr;".toList, cellDown),
    ("putchar(*ptr);".toList, put), ("while ((*ptr = getchar()) == '\\n') \x7b \x7d".toList, get),
    ("if (functions[*ptr]) functions[*ptr]();".toList, dispatch)]

/-- The statement on a line. Besides the lexicon there are registrations, by the number in the name
of the function. -/
def ofLine? (line : Text) : Option CStatement :=
  (lexicon.lookup line).or ((numberOn? registration [';'] line).map register)

theorem simple_or_register (statement : CStatement) :
    statement ∈ simple ∨ ∃ number, statement = register number := by
  cases statement with
  | register number => exact .inr ⟨number, rfl⟩
  | _ => exact .inl (by decide)

theorem text_register (number : Nat) :
    (register number).text = registration ++ Nat.toDigits 10 number ++ [';'] := rfl

theorem head?_text_register (number : Nat) : (register number).text.head? = some 'f' := rfl

theorem newline_notMem_text (statement : CStatement) : '\n' ∉ statement.text := by
  rcases statement.simple_or_register with listed | ⟨number, rfl⟩
  · -- These texts are literals, which the kernel reads faster than the elaborator.
    revert statement
    decide +kernel
  · have lead : '\n' ∉ registration := by decide +kernel
    simp [text_register, lead, newline_notMem_toDigits]

/-- The first character tells registrations from all other lines of a function. -/
theorem head?_of_mem_lexicon {entry : Text × CStatement} (listed : entry ∈ lexicon) :
    entry.1.head? ≠ some 'f' := by
  revert entry
  decide +kernel

theorem head?_text_ne_tab (statement : CStatement) : statement.text.head? ≠ some '\t' := by
  rcases statement.simple_or_register with listed | ⟨number, rfl⟩
  · revert statement
    decide +kernel
  · rw [head?_text_register]
    decide

theorem text_ne_closeLine (statement : CStatement) : statement.text ≠ closeLine := by
  rcases statement.simple_or_register with listed | ⟨number, rfl⟩
  · revert statement
    decide +kernel
  · refine ne_of_head? ?_
    rw [head?_text_register]
    decide

theorem text_ne_whileLine (statement : CStatement) : statement.text ≠ whileLine := by
  rcases statement.simple_or_register with listed | ⟨number, rfl⟩
  · revert statement
    decide +kernel
  · refine ne_of_head? ?_
    rw [head?_text_register]
    decide

theorem ofLine?_text (statement : CStatement) : ofLine? statement.text = some statement := by
  rcases statement.simple_or_register with listed | ⟨number, rfl⟩
  · revert statement
    decide +kernel
  · have other : lexicon.lookup (register number).text = none := by
      rw [List.lookup_eq_none_iff]
      intro entry listed
      refine bne_iff_ne.mpr (ne_of_head? ?_)
      rw [head?_text_register]
      exact (head?_of_mem_lexicon listed).symm
    rw [ofLine?, other, Option.none_or, text_register, numberOn?_append registration number rfl]
    rfl

end CStatement

namespace CBlock

/-- The lines of a block, as they are written at a depth. -/
def lines (depth : Nat) : CBlock → List Text
  | done => []
  | line statement next => indented depth statement.text :: next.lines depth
  | whileCell body next =>
    indented depth whileLine :: (body.lines (depth + 1) ++ indented depth closeLine :: next.lines depth)

theorem textOnto_line (depth : Nat) (rest : Text) (statement : CStatement) (next : CBlock) :
    (line statement next).textOnto depth rest =
      indented depth statement.text ++ '\n' :: next.textOnto depth rest := rfl

theorem textOnto_whileCell (depth : Nat) (rest : Text) (body next : CBlock) :
    (whileCell body next).textOnto depth rest = indented depth whileLine ++ '\n' ::
      body.textOnto (depth + 1) (indented depth closeLine ++ '\n' :: next.textOnto depth rest) := rfl

theorem textOnto_append (depth : Nat) (middle rest : Text) (block : CBlock) :
    block.textOnto depth middle ++ rest = block.textOnto depth (middle ++ rest) := by
  induction block generalizing depth middle with
  | done => rfl
  | line statement next ih =>
    rw [textOnto_line, textOnto_line, ← ih, List.append_assoc, List.cons_append]
  | whileCell body next ihBody ihNext =>
    rw [textOnto_whileCell, textOnto_whileCell, ← ihNext, List.append_assoc, List.cons_append, ihBody,
      List.append_assoc, List.cons_append]

theorem textLines_textOnto (depth : Nat) (rest : Text) (block : CBlock) :
    textLines (block.textOnto depth rest) = block.lines depth ++ textLines rest := by
  induction block generalizing depth rest with
  | done => rfl
  | line statement next ih =>
    have whole := newline_notMem_indented depth statement.newline_notMem_text
    rw [textOnto_line, textLines_line whole, ih]
    rfl
  | whileCell body next ihBody ihNext =>
    have opens : '\n' ∉ whileLine := by decide
    have closes : '\n' ∉ closeLine := by decide
    rw [textOnto_whileCell, textLines_line (newline_notMem_indented depth opens), ihBody,
      textLines_line (newline_notMem_indented depth closes), ihNext]
    simp [lines]

/-- Every line of a function is behind the margin. -/
theorem ne_closeLine_of_mem_lines {depth : Nat} (positive : 0 < depth) {block : CBlock} {line : Text}
    (listed : line ∈ block.lines depth) : line ≠ closeLine := by
  induction block generalizing depth with
  | done => cases listed
  | line statement next ih =>
    rcases List.mem_cons.mp listed with rfl | later
    · exact indented_ne_closeLine positive _
    · exact ih positive later
  | whileCell body next ihBody ihNext =>
    simp only [lines, List.mem_cons, List.mem_append] at listed
    rcases listed with rfl | inside | rfl | later
    · exact indented_ne_closeLine positive _
    · exact ihBody (Nat.succ_pos depth) inside
    · exact indented_ne_closeLine positive _
    · exact ihNext positive later

end CBlock

/-- Statements read from the end of a function, with what follows each `while` that is open there. -/
structure CReading where
  block : CBlock
  behind : List CBlock

namespace CReading

/-- Takes one more line in front. A `while` has to be closed behind it. -/
def add? (line : Text) (reading : CReading) : Option CReading :=
  if unindented line = closeLine then some ⟨.done, reading.block :: reading.behind⟩
  else if unindented line = whileLine then
    match reading.behind with
    | next :: behind => some ⟨.whileCell reading.block next, behind⟩
    | [] => none
  else
    (CStatement.ofLine? (unindented line)).map fun statement =>
      ⟨.line statement reading.block, reading.behind⟩

variable (depth : Nat) (reading : CReading)

theorem add?_closeLine :
    reading.add? (indented depth closeLine) = some ⟨.done, reading.block :: reading.behind⟩ := by
  rw [add?, unindented_indented depth (by decide), if_pos rfl]

theorem add?_whileLine (body next : CBlock) (behind : List CBlock) :
    add? (indented depth whileLine) ⟨body, next :: behind⟩ = some ⟨.whileCell body next, behind⟩ := by
  rw [add?, unindented_indented depth (by decide), if_neg (by decide), if_pos rfl]

theorem add?_statement (statement : CStatement) :
    reading.add? (indented depth statement.text) =
      some ⟨.line statement reading.block, reading.behind⟩ := by
  rw [add?, unindented_indented depth statement.head?_text_ne_tab, if_neg statement.text_ne_closeLine,
    if_neg statement.text_ne_whileLine, statement.ofLine?_text]
  rfl

/-- The lines of a block are read as the block, whatever is open around it. -/
theorem foldrM_add?_lines (block : CBlock) (depth : Nat) (behind : List CBlock) :
    (block.lines depth).foldrM add? ⟨.done, behind⟩ = some ⟨block, behind⟩ := by
  -- From the last line on, the end of a `while` lays aside what follows it, and the beginning takes
  -- that up again; so the list is the same before and after a block.
  induction block generalizing depth behind with
  | done => rfl
  | line statement next ih =>
    rw [CBlock.lines, List.foldrM_cons, ih]
    exact add?_statement depth _ statement
  | whileCell body next ihBody ihNext =>
    rw [CBlock.lines, List.foldrM_cons, List.foldrM_append, List.foldrM_cons, ihNext]
    simp only [Option.bind_eq_bind, Option.bind_some]
    rw [add?_closeLine, Option.bind_some, ihBody, Option.bind_some, add?_whileLine]

end CReading

/-- The statements on the lines of a function, in which every line is known and every brace has its
partner. -/
def CBlock.ofLines? (lines : List Text) : Option CBlock :=
  match lines.foldrM CReading.add? ⟨.done, []⟩ with
  | some ⟨block, []⟩ => some block
  | _ => none

theorem CBlock.ofLines?_lines (block : CBlock) (depth : Nat) :
    ofLines? (block.lines depth) = some block := by
  rw [ofLines?, CReading.foldrM_add?_lines]

/-- The depth behind a line that stands at its depth. A `while` goes deeper, and its end stands as far
out as its beginning. No line is at the margin. -/
def depthBehind? (depth : Nat) (line : Text) : Option Nat :=
  let tabs := indentation line
  if tabs = 0 then none
  else if unindented line = closeLine then
    if tabs + 1 = depth then some tabs else none
  else if tabs = depth then
    some (if unindented line = whileLine then depth + 1 else depth)
  else none

section Depth

variable {depth : Nat} (positive : 0 < depth)
include positive

theorem depthBehind?_closeLine : depthBehind? (depth + 1) (indented depth closeLine) = some depth := by
  have bare : closeLine.head? ≠ some '\t' := by decide
  simp [depthBehind?, indentation_indented depth bare, unindented_indented depth bare,
    Nat.ne_of_gt positive]

theorem depthBehind?_whileLine : depthBehind? depth (indented depth whileLine) = some (depth + 1) := by
  have bare : whileLine.head? ≠ some '\t' := by decide
  have other : whileLine ≠ closeLine := by decide
  simp [depthBehind?, indentation_indented depth bare, unindented_indented depth bare,
    Nat.ne_of_gt positive, other]

theorem depthBehind?_of_bare {line : Text} (bare : line.head? ≠ some '\t') (other : line ≠ closeLine)
    (otherToo : line ≠ whileLine) : depthBehind? depth (indented depth line) = some depth := by
  simp [depthBehind?, indentation_indented depth bare, unindented_indented depth bare,
    Nat.ne_of_gt positive, other, otherToo]

/-- A block leaves the depth where it was. -/
theorem foldlM_depthBehind?_lines (block : CBlock) (rest : List Text) :
    (block.lines depth ++ rest).foldlM depthBehind? depth = rest.foldlM depthBehind? depth := by
  induction block generalizing depth rest with
  | done => rfl
  | line statement next ih =>
    have stays := depthBehind?_of_bare positive statement.head?_text_ne_tab statement.text_ne_closeLine
      statement.text_ne_whileLine
    rw [CBlock.lines, List.cons_append, List.foldlM_cons, stays]
    exact ih positive rest
  | whileCell body next ihBody ihNext =>
    rw [CBlock.lines, List.cons_append, List.append_assoc, List.foldlM_cons,
      depthBehind?_whileLine positive]
    simp only [Option.bind_eq_bind, Option.bind_some]
    rw [ihBody (Nat.succ_pos depth), List.cons_append, List.foldlM_cons,
      depthBehind?_closeLine positive]
    exact ihNext positive rest

end Depth

/-- The lines of each function, between braces at the margin. `opened` has the lines since the brace
that is open, last one first. -/
def sections (opened : Option (List Text)) : List Text → List (List Text)
  | [] => []
  | line :: rest =>
    match opened with
    | none => sections (if line = openLine then some [] else none) rest
    | some lines =>
      if line = closeLine then lines.reverse :: sections none rest
      else sections (some (line :: lines)) rest

theorem sections_skip {line : Text} (outside : line ≠ openLine) (rest : List Text) :
    sections none (line :: rest) = sections none rest := by
  simp only [sections, if_neg outside]

theorem sections_skip_all {lines : List Text} (outside : ∀ line ∈ lines, line ≠ openLine)
    (rest : List Text) : sections none (lines ++ rest) = sections none rest := by
  induction lines with
  | nil => rfl
  | cons line lines ih =>
    rw [List.cons_append, sections_skip (outside line (List.mem_cons_self ..))]
    exact ih fun other listed => outside other (List.mem_cons_of_mem _ listed)

theorem sections_within {lines : List Text} (inside : ∀ line ∈ lines, line ≠ closeLine)
    (before rest : List Text) :
    sections (some before) (lines ++ closeLine :: rest) =
      (before.reverse ++ lines) :: sections none rest := by
  induction lines generalizing before with
  | nil => simp [sections]
  | cons line lines ih =>
    have first := inside line (List.mem_cons_self ..)
    have later : ∀ other ∈ lines, other ≠ closeLine :=
      fun other listed => inside other (List.mem_cons_of_mem _ listed)
    have onward := ih later (line :: before)
    simpa [sections, first] using onward

theorem sections_function {lines : List Text} (inside : ∀ line ∈ lines, line ≠ closeLine)
    (rest : List Text) :
    sections none (openLine :: (lines ++ closeLine :: rest)) = lines :: sections none rest := by
  have found := sections_within inside [] rest
  simpa [sections] using found

namespace CProgram

/-- What stands before the size of the array. -/
def arrayName : Text :=
  "static unsigned char array[".toList

/-- The line that declares the array. -/
def arrayLine (size : Nat) : Text :=
  arrayName ++ Nat.toDigits 10 size ++ [']', ';']

/-- What stands before the number of a function. -/
def functionName : Text :=
  "static void function_".toList

def noArguments : Text :=
  "(void)".toList

/-- The line above the statements of a function. -/
def title (number : Nat) : Text :=
  functionName ++ Nat.toDigits 10 number ++ noArguments

/-- The line above the statements of `main`. -/
def mainTitle : Text :=
  "int main(void)".toList

/-- The last line of `main`. -/
def returnLine : Text :=
  "return 0;".toList

def includeLine : Text :=
  "#include <stdio.h>".toList

/-- The line that declares the pointer. -/
def pointerLine : Text :=
  "static unsigned char *ptr = array;".toList

/-- The line that declares the table of functions. -/
def tableLine : Text :=
  "static void (*functions[256])(void);".toList

/-- The lines in front of the functions. -/
def headerLines (size : Nat) : List Text :=
  [includeLine, [], arrayLine size, pointerLine, tableLine, []]

/-- A function, and the empty line behind it. -/
def functionLines (name : Text) (body : List Text) : List Text :=
  name :: openLine :: (body ++ [closeLine, []])

/-- The functions, numbered from `first`, and then `main`. -/
def functionsLines (first : Nat) (main : List Text) : List (List Text) → List Text
  | [] => functionLines mainTitle (main ++ [indented 1 returnLine])
  | body :: bodies => functionLines (title first) body ++ functionsLines (first + 1) main bodies

/-- The lines of a C program, with the lines inside its functions. -/
def layout (size : Nat) (bodies : List (List Text)) (main : List Text) : List Text :=
  headerLines size ++ functionsLines 0 main bodies

/-- The program that C reads in a text. All lines outside functions are as they have to be, the
functions are in the order of their numbers, and the statements in them are all known. -/
def ofText? (text : Text) : Option CProgram := do
  let lines := textLines text
  let bodies := sections none lines
  let main := (bodies.getLastD []).dropLast
  let size ← lines[2]?.bind (numberOn? arrayName [']', ';'])
  if lines = layout size bodies.dropLast main then
    let functions ← bodies.dropLast.mapM CBlock.ofLines?
    let main ← CBlock.ofLines? main
    return ⟨size, functions, main⟩
  else none

section Lines

theorem newline_notMem_arrayLine (size : Nat) : '\n' ∉ arrayLine size := by
  have name : '\n' ∉ arrayName := by decide +kernel
  simp [arrayLine, name, newline_notMem_toDigits]

theorem newline_notMem_title (number : Nat) : '\n' ∉ title number := by
  have name : '\n' ∉ functionName := by decide +kernel
  have arguments : '\n' ∉ noArguments := by decide +kernel
  simp [title, name, arguments, newline_notMem_toDigits]

theorem header_append (size : Nat) (rest : Text) : header size ++ rest = includeLine ++ '\n' :: ([] ++ '\n' ::
    (arrayLine size ++ '\n' :: (pointerLine ++ '\n' :: (tableLine ++ '\n' :: ([] ++ '\n' :: rest))))) := by
  have before : "#include <stdio.h>\n\nstatic unsigned char array[".toList =
      includeLine ++ '\n' :: ([] ++ '\n' :: arrayName) := by decide +kernel
  have behind : "];\nstatic unsigned char *ptr = array;\nstatic void (*functions[256])(void);\n\n".toList =
      [']', ';'] ++ '\n' :: (pointerLine ++ '\n' :: (tableLine ++ '\n' :: ([] ++ ['\n']))) := by
    decide +kernel
  change _ ++ Nat.toDigits 10 size ++ _ ++ rest = _
  rw [before, behind, arrayLine]
  simp only [List.append_assoc, List.cons_append, List.nil_append]

theorem textLines_header (size : Nat) (rest : Text) :
    textLines (header size ++ rest) = headerLines size ++ textLines rest := by
  have including : '\n' ∉ includeLine := by decide +kernel
  have pointer : '\n' ∉ pointerLine := by decide +kernel
  have table : '\n' ∉ tableLine := by decide +kernel
  rw [header_append, textLines_line including, textLines_line List.not_mem_nil,
    textLines_line (newline_notMem_arrayLine size), textLines_line pointer, textLines_line table,
    textLines_line List.not_mem_nil]
  rfl

theorem functionsText_cons (first : Nat) (body : CBlock) (bodies : List CBlock) (rest : Text) :
    functionsText first (body :: bodies) ++ rest =
      title first ++ '\n' :: (openLine ++ '\n' :: body.textOnto 1
        (closeLine ++ '\n' :: ([] ++ '\n' :: (functionsText (first + 1) bodies ++ rest)))) := by
  have opens : "(void)\n\x7b\n".toList = noArguments ++ '\n' :: (openLine ++ ['\n']) := by
    decide +kernel
  have closes : "\x7d\n\n".toList = closeLine ++ '\n' :: ([] ++ ['\n']) := by decide +kernel
  change functionName ++ Nat.toDigits 10 first ++ _ ++ body.text ++ _ ++ _ ++ rest = _
  rw [opens, closes, title]
  simp only [List.append_assoc, List.cons_append, List.nil_append, CBlock.text, CBlock.textOnto_append]

theorem textLines_functionsText (first : Nat) (main : List Text) (bodies : List CBlock) {rest : Text}
    (last : textLines rest = functionsLines (first + bodies.length) main []) :
    textLines (functionsText first bodies ++ rest) =
      functionsLines first main (bodies.map (CBlock.lines 1)) := by
  induction bodies generalizing first with
  | nil => exact last
  | cons body bodies ih =>
    have onward := ih (first + 1) last
    rw [functionsText_cons, textLines_line (newline_notMem_title first), textLines_line (by decide),
      CBlock.textLines_textOnto, textLines_line (by decide), textLines_line (by decide), onward]
    simp [functionsLines, functionLines]

theorem textLines_text (program : CProgram) : textLines program.text =
    layout program.size (program.functions.map (CBlock.lines 1)) (program.main.lines 1) := by
  have opens : "int main(void)\n\x7b\n".toList =
      mainTitle ++ '\n' :: (openLine ++ ['\n']) := by decide +kernel
  have closes : "\treturn 0;\n\x7d\n".toList =
      indented 1 returnLine ++ '\n' :: (closeLine ++ '\n' :: []) := by decide +kernel
  have pieces : program.text = header program.size ++ (functionsText 0 program.functions ++
      (mainTitle ++ '\n' :: (openLine ++ '\n' ::
        program.main.textOnto 1 (indented 1 returnLine ++ '\n' :: (closeLine ++ '\n' :: []))))) := by
    change _ ++ _ ++ _ ++ program.main.text ++ _ = _
    rw [opens, closes]
    simp only [List.append_assoc, List.cons_append, List.nil_append, CBlock.text, CBlock.textOnto_append]
  have named : '\n' ∉ mainTitle := by decide +kernel
  have returns : '\n' ∉ indented 1 returnLine := by decide +kernel
  rw [pieces, textLines_header, layout, textLines_functionsText 0 (program.main.lines 1)]
  rw [textLines_line named, textLines_line (by decide), CBlock.textLines_textOnto,
    textLines_line returns, textLines_line (by decide)]
  simp [functionsLines, functionLines, textLines]

end Lines

section Sections

theorem sections_headerLines (size : Nat) (rest : List Text) :
    sections none (headerLines size ++ rest) = sections none rest := by
  refine sections_skip_all ?_ rest
  intro line listed
  simp only [headerLines, List.mem_cons, List.not_mem_nil, or_false] at listed
  rcases listed with rfl | rfl | rfl | rfl | rfl | rfl
  · decide +kernel
  · decide
  · refine ne_of_head? ?_
    change some 's' ≠ some '\x7b'
    decide
  · decide +kernel
  · decide +kernel
  · decide

theorem sections_functionLines {name : Text} (outside : name ≠ openLine) {body : List Text}
    (inside : ∀ line ∈ body, line ≠ closeLine) (rest : List Text) :
    sections none (functionLines name body ++ rest) = body :: sections none rest := by
  rw [functionLines, List.cons_append, List.cons_append, List.append_assoc, List.cons_append,
    sections_skip outside, sections_function inside, List.cons_append, sections_skip (by decide),
    List.nil_append]

theorem title_ne_openLine (number : Nat) : title number ≠ openLine := by
  refine ne_of_head? ?_
  change some 's' ≠ some '\x7b'
  decide

theorem sections_functionsLines (first : Nat) {main : List Text} {bodies : List (List Text)}
    (inside : ∀ body ∈ bodies, ∀ line ∈ body, line ≠ closeLine) (insideMain : ∀ line ∈ main, line ≠ closeLine) :
    sections none (functionsLines first main bodies) = bodies ++ [main ++ [indented 1 returnLine]] := by
  induction bodies generalizing first with
  | nil =>
    have insideLast : ∀ line ∈ main ++ [indented 1 returnLine], line ≠ closeLine := by
      intro line listed
      rcases List.mem_append.mp listed with statement | last
      · exact insideMain line statement
      · rw [List.mem_singleton.mp last]
        exact indented_ne_closeLine Nat.one_pos _
    have found := @sections_functionLines mainTitle (by decide +kernel) _ insideLast []
    rwa [List.append_nil] at found
  | cons body bodies ih =>
    have insideBody := inside body (List.mem_cons_self ..)
    have onward := ih (first + 1) fun other listed => inside other (List.mem_cons_of_mem _ listed)
    rw [functionsLines, sections_functionLines (title_ne_openLine first) insideBody, onward,
      List.cons_append]

theorem sections_text (program : CProgram) : sections none (textLines program.text) =
    program.functions.map (CBlock.lines 1) ++ [program.main.lines 1 ++ [indented 1 returnLine]] := by
  rw [textLines_text, layout, sections_headerLines]
  refine sections_functionsLines 0 ?_ fun line listed =>
    CBlock.ne_closeLine_of_mem_lines Nat.one_pos listed
  intro body member line listed
  obtain ⟨function, _, rfl⟩ := List.mem_map.mp member
  exact CBlock.ne_closeLine_of_mem_lines Nat.one_pos listed

end Sections

theorem mapM_ofLines?_lines (bodies : List CBlock) :
    (bodies.map (CBlock.lines 1)).mapM CBlock.ofLines? = some bodies := by
  induction bodies with
  | nil => rfl
  | cons body bodies ih => simp [CBlock.ofLines?_lines, ih]

/-- The text of a program is read as the program. -/
theorem ofText?_text (program : CProgram) : ofText? program.text = some program := by
  have size : numberOn? arrayName [']', ';'] (arrayLine program.size) = some program.size :=
    numberOn?_append arrayName program.size rfl _
  have declared : (layout program.size (program.functions.map (CBlock.lines 1))
      (program.main.lines 1))[2]? = some (arrayLine program.size) := rfl
  simp only [ofText?, sections_text, List.dropLast_concat, List.getLastD_concat]
  rw [textLines_text, declared, Option.bind_some, size, mapM_ofLines?_lines, CBlock.ofLines?_lines]
  simp

end CProgram

/-- What C makes of the text of a program: no result when it is none, when the fuel does not last or
when the pointer leaves the array. -/
def runText? (fuel : Nat) (text : Text) (input : List UInt8) : Option CState := do
  let program ← CProgram.ofText? text
  program.run? fuel input

theorem runText?_text (fuel : Nat) (program : CProgram) (input : List UInt8) :
    runText? fuel program.text input = program.run? fuel input := by
  rw [runText?, CProgram.ofText?_text]
  rfl

end TapeStepper
