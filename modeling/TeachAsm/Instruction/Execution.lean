import TeachAsm.Instruction.Basic
import TeachAsm.Instruction.Field
import TeachAsm.Machine.Action
import TeachAsm.Labels
/-!
# What an instruction does

Executing an instruction changes the machine and says where execution goes
(`Control`). Sources are read in the order in which they are written in the
line, each after the captures in front of it, and what is written is written
last.
-/

namespace TeachAsm

/-- What an instruction can see besides the machine: the labels of the program,
and the line it stands on. -/
structure Surroundings where
  labels : Labels
  line : Nat

/-- The slot that a name stands for, or the fault that it stands for none. -/
def Surroundings.slot (around : Surroundings) (name : Text) : Except Fault Nat :=
  match around.labels.slot? name with
  | some slot => .ok slot
  | none => .error (.undeclaredLabel around.line name)

namespace Opcode

/-- What a line of an opcode does to a machine. -/
def execute (around : Surroundings) (captures : Captures) : Opcode → Action Control
  | load => do
    let d ← captures.register 0
    let a ← captures.address 1
    let w ← Action.view fun machine => machine.memory.read a.toNat
    Action.setRegister d w
    return .next
  | store => do
    let s ← captures.register 0
    let a ← captures.address 1
    -- The source is read, and warned of, before the address is tested.
    let w ← Action.view fun machine => machine.registers.read s
    Action.setWord a.toNat w (.addressOutOfRange around.line a)
    return .next
  | compute operation => do
    let d ← captures.register 0
    let n ← captures.register 1
    let x ← Action.view fun machine => machine.registers.read n
    let o ← captures.operand 2
    let y ← Action.view fun machine => machine.operand o
    Action.setRegister d (operation.apply x y)
    return .next
  | copy => do
    let d ← captures.register 0
    let o ← captures.operand 1
    let y ← Action.view fun machine => machine.operand o
    Action.setRegister d y
    return .next
  | complement => do
    let d ← captures.register 0
    let o ← captures.operand 1
    let y ← Action.view fun machine => machine.operand o
    Action.setRegister d (~~~y)
    return .next
  | compare => do
    let n ← captures.register 0
    let x ← Action.view fun machine => machine.registers.read n
    let o ← captures.operand 1
    let y ← Action.view fun machine => machine.operand o
    Action.setFlag (Flag.compare x y)
    return .next
  | branch condition => do
    let flag ← Action.view fun machine => pure machine.registers.flag
    -- A branch that is not taken does not ask for its label.
    if condition.holds flag then
      let name ← captures.label 0
      let slot ← around.slot name
      return .jump slot
    else
      return .next
  | halt => return .halt
  | label => return .next

end Opcode

/-- What an instruction does to a machine. -/
def Instruction.execute (instruction : Instruction) (around : Surroundings) : Action Control :=
  instruction.opcode.execute around instruction.captures

end TeachAsm
