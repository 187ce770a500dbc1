import TeachAsm.Instruction.Execution
import TeachAsm.Program.Basic
import TeachAsm.Trace.Record
/-!
# Executions

An execution of a program is at one of its slots, has a machine, and counts
the operations it has performed. An instruction changes the machine first; when
it has come to its end it is counted, and only then does execution move on. A
tracer is told in between, so that an execution whose tracer fails still stands
at the slot it has just executed.
-/

namespace TeachAsm

/-- How far a program has been executed. -/
structure Execution where
  /-- The slot that execution is at. -/
  counter : Nat
  /-- The number of slots executed so far. -/
  operations : Nat
  machine : Machine
  state : State
  deriving DecidableEq, Repr

namespace Execution

/-- The execution of a program before its first step. -/
def start (program : Program) : Execution where
  counter := 0
  operations := 0
  machine := { memory := program.image }
  state := if program.size = 0 then .finished else .active

/-- The execution with its slot counted, and still at it. -/
def count (e : Execution) : Execution :=
  { e with operations := e.operations + 1 }

/-- The execution at another slot, or finished when the program of the given
size has no such slot. -/
def goto (e : Execution) (size slot : Nat) : Execution :=
  { e with counter := slot, state := if slot < size then e.state else .finished }

/-- The execution moved on from its slot. -/
def advance (e : Execution) (size : Nat) : Control → Execution
  | .next => e.goto size (e.counter + 1)
  | .jump slot => e.goto size slot
  | .halt => { e with state := .halted }

/-- The record of the slot that has just been executed. -/
def record (e : Execution) (slot : Slot) : Record where
  counter := e.counter
  operations := e.operations
  text := slot.text
  name := slot.instruction.opcode.name.toList
  memory := e.machine.memory
  registers := e.machine.registers

end Execution

/-- How an execution has ended. -/
structure Outcome where
  state : State
  operations : Nat
  deriving DecidableEq, Repr

/-- The outcome of an execution that is no longer active. -/
def Execution.outcome (e : Execution) : Outcome :=
  ⟨e.state, e.operations⟩

end TeachAsm
