import TeachAsm.Command.Response
import TeachAsm.Execution.Run
import TeachAsm.Main
import TeachAsm.Proofs.Instruction.Decoding
import TeachAsm.Proofs.Instruction.Outcome
import TeachAsm.Proofs.Program.Labels
import TeachAsm.Proofs.Program.Forms
import TeachAsm.Proofs.Program.Loading
import TeachAsm.Proofs.Program.Resolution
import TeachAsm.Proofs.Execution.Reachable
import TeachAsm.Proofs.Execution.Faults
import TeachAsm.Proofs.Template.Layout
import TeachAsm.Proofs.Instruction.Priority
import TeachAsm.Proofs.Machine.Image
import TeachAsm.Proofs.Program.Numbering
import TeachAsm.Proofs.Execution.Numbering
import TeachAsm.Proofs.Program.Reprinting
import TeachAsm.Proofs.Execution.Trail
import TeachAsm.Proofs.Execution.Limit
import TeachAsm.Proofs.Execution.Return
import TeachAsm.Proofs.Execution.Pieces
import TeachAsm.Proofs.Execution.Observation
import TeachAsm.Proofs.Execution.Replay
import TeachAsm.Proofs.Execution.Forward
import TeachAsm.Proofs.Instruction.Repetition
import TeachAsm.Proofs.Execution.Interruption
import TeachAsm.Proofs.Instruction.Alike
import TeachAsm.Proofs.Instruction.Writes
import TeachAsm.Proofs.Execution.Alike
import TeachAsm.Proofs.Execution.History
import TeachAsm.Proofs.Instruction.Warnings
import TeachAsm.Proofs.Execution.Flag
import TeachAsm.Proofs.Machine.Registers
import TeachAsm.Proofs.Program.Log
import TeachAsm.Proofs.Execution.Log
import TeachAsm.Proofs.Execution.Warnings
import TeachAsm.Proofs.Trace.Room
import TeachAsm.Proofs.Execution.Room
import TeachAsm.Proofs.Machine.Injective
import TeachAsm.Proofs.Trace.Injective
import TeachAsm.Proofs.Execution.Lossless
import TeachAsm.Proofs.Text.Layout
import TeachAsm.Proofs.Program.Layout
import TeachAsm.Proofs.Execution.Drive
import TeachAsm.Proofs.Command.Agreement
import TeachAsm.Proofs.Machine.Memory
import TeachAsm.Proofs.Machine.Word
import TeachAsm.Proofs.Instruction.Computation
import TeachAsm.Proofs.Template.Compilation
import TeachAsm.Proofs.Template.Completeness
import TeachAsm.Proofs.Instruction.Canonical
import TeachAsm.Proofs.Instruction.Fields
import TeachAsm.Proofs.Instruction.Independence
import TeachAsm.Proofs.Template.Segmentation
import TeachAsm.Proofs.Template.Lookahead
import TeachAsm.Proofs.Execution.Quiet
import TeachAsm.Proofs.Demo.Multiplication
