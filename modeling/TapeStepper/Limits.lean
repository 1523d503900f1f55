namespace TapeStepper

/-- Cells of a tape when nothing else is asked for. -/
def defaultTapeSize : Nat := 64

/-- Characters a run may print. -/
def outputLimit : Nat := 1024

/-- Functions a script may define. -/
def functionLimit : Nat := 128

/-- Levels that may be active when a function is called. -/
def depthLimit : Nat := 65536

/-- The largest cell value that `+` reaches without wrapping. -/
def shortMax : Nat := 32767

/-- The largest cell value when cells wrap as bytes. -/
def byteMax : Nat := 255

end TapeStepper
