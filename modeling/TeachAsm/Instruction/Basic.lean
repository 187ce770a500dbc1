import TeachAsm.Instruction.Opcode
import TeachAsm.Template.Reading
/-!
# Instructions

An instruction is an opcode with the captures of a line. `Instruction.ofText?`
decodes a line by the first opcode that reads the whole of it, and
`Instruction.text` writes an instruction in its canonical form.
-/

namespace TeachAsm

/-- A line, decoded. -/
structure Instruction where
  opcode : Opcode
  captures : Captures
  deriving DecidableEq, Repr

namespace Instruction

/-- The instruction that a line holds by a table of opcodes: that of the
first opcode whose template reads the line to its end. -/
def decode? (table : List (Opcode × Template)) (line : Text) : Option Instruction :=
  table.findSome? fun (op, template) => (template.whole? line).map (Instruction.mk op)

/-- The instruction that a line holds. -/
def ofText? (line : Text) : Option Instruction :=
  decode? Opcode.table line

/-- The line of an instruction, with blanks as in the form and without leading
zeros. -/
def text (instruction : Instruction) : Text :=
  instruction.opcode.template.fill instruction.captures

/-- The label that an instruction declares. -/
def declares? : Instruction → Option Text
  | ⟨.label, .label name :: _⟩ => some name
  | _ => none

/-- A decoded line is read to its end by its opcode. -/
theorem whole?_of_ofText? {line : Text} {instruction : Instruction}
    (h : ofText? line = some instruction) :
    instruction.opcode.template.whole? line = some instruction.captures := by
  obtain ⟨⟨op, template⟩, hmem, hread⟩ := List.exists_of_findSome?_eq_some h
  obtain ⟨op, -, heq⟩ := List.mem_map.1 hmem
  obtain ⟨rfl, rfl⟩ := Prod.mk.inj heq
  obtain ⟨captures, hcaptures, rfl⟩ := Option.map_eq_some_iff.1 hread
  exact hcaptures

/-- The declaration at the front of a line, and what stands behind its colon. -/
def declaration? (line : Text) : Option (Instruction × Text) :=
  (Opcode.label.template.front? line).map fun (captures, rest) => (⟨.label, captures⟩, rest)

end Instruction

end TeachAsm
