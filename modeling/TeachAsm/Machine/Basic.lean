import TeachAsm.Machine.Image
/-!
# The machine

What a program can change: memory and registers. `Control` is where execution
goes after an instruction, and `State` whether there is any execution left.
-/

namespace TeachAsm

/-- Memory and registers. -/
structure Machine where
  memory : Memory := {}
  registers : Registers := .empty
  deriving DecidableEq, Repr

/-- Where execution goes after an instruction. -/
inductive Control where
  /-- To the next slot. -/
  | next
  /-- To the given slot. -/
  | jump (slot : Nat)
  /-- Nowhere: the program halts. -/
  | halt
  deriving DecidableEq, Repr

/-- A control as the log shows it. -/
def Control.text : Control → String
  | next => "Continue"
  | jump slot => s!"Jump({slot})"
  | halt => "Halt"

/-- How far the execution of a program has come. -/
inductive State where
  /-- There is a slot to execute. -/
  | active
  /-- A `HALT` has been executed. -/
  | halted
  /-- Execution has run off the end of the program. -/
  | finished
  deriving DecidableEq, Repr

/-- A state as the log shows it. -/
def State.name : State → String
  | active => "Active"
  | halted => "Halted"
  | finished => "Finished"

end TeachAsm
