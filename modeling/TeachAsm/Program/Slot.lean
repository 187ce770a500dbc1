import TeachAsm.Fault
import TeachAsm.Instruction.Basic
import TeachAsm.Text.Line
/-!
# Slots

A program is a row of slots, and each slot is one instruction. A line of code
makes one slot; a line with a label in front of an instruction makes two: the
declaration, with the text in front of the instruction, and the instruction.
-/

namespace TeachAsm

/-- One place of a program. -/
structure Slot where
  /-- The physical line of the source it comes from. -/
  line : Nat
  /-- The code it is written as. -/
  text : Text
  instruction : Instruction
  deriving DecidableEq, Repr

namespace Slot

/-- The slot of a line that is one instruction. -/
def single? (line : Line) : Option (List Slot) := do
  let instruction ← Instruction.ofText? line.text
  return [⟨line.number, line.text, instruction⟩]

/-- The slots of a line that is an instruction behind a label. -/
def labelled? (line : Line) : Option (List Slot) := do
  let (declaration, rest) ← Instruction.declaration? line.text
  let code := Text.trimStart rest
  let instruction ← Instruction.ofText? code
  let front := line.text.take (line.text.length - code.length)
  return [⟨line.number, Text.trimEnd front, declaration⟩, ⟨line.number, code, instruction⟩]

/-- The slots of a line of code. -/
def ofLine (line : Line) : Except Fault (List Slot) :=
  match (single? line).or (labelled? line) with
  | some slots => .ok slots
  | none => .error (.unknownInstruction line.number line.text)

/-- The slots of lines of code, in order; the first line that has none is a
fault. -/
def ofLines (lines : List Line) : Except Fault (List Slot) := do
  let slots ← lines.mapM ofLine
  return slots.flatten

end Slot

end TeachAsm
