import TapeStepper.Main
import TapeStepper.Proofs.Adequacy
import TapeStepper.Proofs.Pauses
import TapeStepper.Proofs.Resumption
import TapeStepper.Proofs.Safety
import TapeStepper.Proofs.Grammar
import TapeStepper.Proofs.Transparency
import TapeStepper.Proofs.Punctual
import TapeStepper.Proofs.CExecution
import TapeStepper.Proofs.Translation
import TapeStepper.Proofs.Bounds
import TapeStepper.Proofs.Failures
import TapeStepper.Proofs.Attained
import TapeStepper.Proofs.Cells
import TapeStepper.Proofs.Traces
import TapeStepper.Proofs.Cumulative
import TapeStepper.Proofs.Recording
import TapeStepper.Proofs.Headless
import TapeStepper.Proofs.Flags
import TapeStepper.Proofs.Deadline
import TapeStepper.Proofs.Relocation
import TapeStepper.Proofs.Comments
import TapeStepper.Proofs.Sequence
import TapeStepper.Proofs.Ahead
import TapeStepper.Proofs.Chunks
import TapeStepper.Proofs.Room
import TapeStepper.Proofs.Definitions
import TapeStepper.Proofs.BreakLines
import TapeStepper.Proofs.LoopFree
import TapeStepper.Proofs.Depth
import TapeStepper.Proofs.Offences
import TapeStepper.Proofs.FirstOffence
import TapeStepper.Proofs.CText
import TapeStepper.Proofs.Recovery
import TapeStepper.Proofs.Navigation
import TapeStepper.Proofs.Suspension
import TapeStepper.Proofs.Lines
import TapeStepper.Proofs.Scrolling
import TapeStepper.Proofs.Highlighting
import TapeStepper.Proofs.Timing
