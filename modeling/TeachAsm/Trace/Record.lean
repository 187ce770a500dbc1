import TeachAsm.Machine.Basic
/-!
# Records

A record is what a tracer is told of one executed step: the machine as it is
right after it. In writing it is a block of seven lines.
-/

namespace TeachAsm

/-- One executed step, and the machine right after it. -/
structure Record where
  /-- The slot that was executed. -/
  counter : Nat
  /-- The steps executed so far, this one included. -/
  operations : Nat
  /-- The code of the slot. -/
  text : Text
  /-- What its opcode is called. -/
  name : Text
  memory : Memory
  registers : Registers
  deriving DecidableEq, Repr

namespace Record

/-- The lines of a record's block. -/
def lines (record : Record) : List Text :=
  ["==============".toList,
   "Instruction Counter: ".toList ++ Decimal.ofNat record.counter,
   "Operations: ".toList ++ Decimal.ofNat record.operations,
   "Line: ".toList ++ record.text,
   "Type: ".toList ++ record.name,
   "Memory: ".toList ++ record.memory.text,
   "Registers: ".toList ++ record.registers.text]

/-- A record's block: its lines, each with a line feed behind it. -/
def block (record : Record) : Text :=
  record.lines.flatMap (· ++ ['\n'])

end Record

end TeachAsm
