import TapeStepper.Text

namespace TapeStepper

/-- The C statements that take one line. -/
inductive CStatement
  | pointerUp | pointerDown
  | cellUp | cellDown
  | put | get
  | register (function : Nat)
  | dispatch
  deriving DecidableEq

/-- The statements of a C function. -/
inductive CBlock
  | done
  | line (statement : CStatement) (next : CBlock)
  | whileCell (body next : CBlock)
  deriving DecidableEq

/-- A C program over an array of bytes, with numbered functions that it puts
into a table by cell value. -/
structure CProgram where
  size : Nat
  functions : List CBlock
  main : CBlock
  deriving DecidableEq

namespace CStatement

def text : CStatement → Text
  | pointerUp => "++ptr;".toList
  | pointerDown => "--ptr;".toList
  | cellUp => "++*ptr;".toList
  | cellDown => "--*ptr;".toList
  | put => "putchar(*ptr);".toList
  | get => "while ((*ptr = getchar()) == '\\n') \x7b \x7d".toList
  | register function => "functions[*ptr] = function_".toList ++ Nat.toDigits 10 function ++ [';']
  | dispatch => "if (functions[*ptr]) functions[*ptr]();".toList

end CStatement

namespace CBlock

/-- A line at the given depth, before the text that follows it. -/
def lineAt (depth : Nat) (line : Text) (rest : Text) : Text :=
  List.replicate depth '\t' ++ line ++ '\n' :: rest

/-- The lines of the block, indented by `depth` tabs, before the text that follows. -/
def textOnto (depth : Nat) (rest : Text) : CBlock → Text
  | done => rest
  | line statement next => lineAt depth statement.text (textOnto depth rest next)
  | whileCell body next =>
    lineAt depth "while (*ptr) \x7b".toList
      (textOnto (depth + 1) (lineAt depth ['\x7d'] (textOnto depth rest next)) body)

def text (block : CBlock) : Text :=
  block.textOnto 1 []

end CBlock

namespace CProgram

def header (size : Nat) : Text :=
  "#include <stdio.h>\n\nstatic unsigned char array[".toList ++ Nat.toDigits 10 size ++
    "];\nstatic unsigned char *ptr = array;\nstatic void (*functions[256])(void);\n\n".toList

/-- The definitions of the functions, numbered from `first`. -/
def functionsText (first : Nat) : List CBlock → Text
  | [] => []
  | body :: bodies =>
    "static void function_".toList ++ Nat.toDigits 10 first ++ "(void)\n\x7b\n".toList ++
      body.text ++ "\x7d\n\n".toList ++ functionsText (first + 1) bodies

def text (program : CProgram) : Text :=
  header program.size ++ functionsText 0 program.functions ++
    "int main(void)\n\x7b\n".toList ++ program.main.text ++ "\treturn 0;\n\x7d\n".toList

end CProgram

end TapeStepper
