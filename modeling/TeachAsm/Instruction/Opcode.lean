import TeachAsm.Machine.Word
import TeachAsm.Template.Basic
/-!
# Opcodes

The kinds of line that a program is made of: eighteen instructions and the
declaration of a label. Each has a name and a form, the template its lines
are read by. `Opcode.all` lists them in the order of their priority: a line
belongs to the first opcode whose form reads it. That is why the conditional
branches stand before the plain one, whose form `B <label>` would also read
`BEQ done`, and the declaration of a label stands last.
-/

namespace TeachAsm

/-- When a branch is taken. -/
inductive Condition where
  | equal
  | notEqual
  | greater
  | less
  | always
  deriving DecidableEq, Repr

/-- Whether a condition holds after the last comparison. A flag that is unset
is not equal, and neither greater nor less. -/
def Condition.holds : Condition → Option Flag → Bool
  | equal, flag => flag == some .equal
  | notEqual, flag => flag != some .equal
  | greater, flag => flag == some .greater
  | less, flag => flag == some .less
  | always, _ => true

/-- The kinds of line. -/
inductive Opcode where
  /-- Memory into a register. -/
  | load
  /-- A register into memory. -/
  | store
  /-- An operation on a register and an operand. -/
  | compute (operation : Operation)
  /-- An operand into a register. -/
  | copy
  /-- The complement of an operand into a register. -/
  | complement
  /-- The order of a register and an operand into the flag. -/
  | compare
  /-- A jump to a label. -/
  | branch (condition : Condition)
  /-- The end of execution. -/
  | halt
  /-- The declaration of a label, which does nothing. -/
  | label
  deriving DecidableEq, Repr

namespace Opcode

/-- What an opcode is called. -/
def name : Opcode → String
  | load => "Load to register"
  | store => "Store to memory"
  | compute .add => "Add"
  | compute .sub => "Subtract"
  | compute .and => "AND"
  | compute .or => "OR"
  | compute .xor => "XOR"
  | compute .shiftLeft => "Logically shift left"
  | compute .shiftRight => "Logically shift right"
  | copy => "Copy to register"
  | complement => "NOT"
  | compare => "Compare"
  | branch .equal => "Branch if equal to"
  | branch .notEqual => "Branch if not equal to"
  | branch .greater => "Branch if greater than"
  | branch .less => "Branch if less than"
  | branch .always => "Branch"
  | halt => "Halt"
  | label => "Label"

/-- The form of an opcode's lines. -/
def form : Opcode → String
  | load => "LDR <register>, <memory>"
  | store => "STR <register>, <memory>"
  | compute .add => "ADD <register>, <register>, <operand>"
  | compute .sub => "SUB <register>, <register>, <operand>"
  | compute .and => "AND <register>, <register>, <operand>"
  | compute .or => "ORR <register>, <register>, <operand>"
  | compute .xor => "EOR <register>, <register>, <operand>"
  | compute .shiftLeft => "LSL <register>, <register>, <operand>"
  | compute .shiftRight => "LSR <register>, <register>, <operand>"
  | copy => "MOV <register>, <operand>"
  | complement => "MVN <register>, <operand>"
  | compare => "CMP <register>, <operand>"
  | branch .equal => "BEQ <label>"
  | branch .notEqual => "BNE <label>"
  | branch .greater => "BGT <label>"
  | branch .less => "BLT <label>"
  | branch .always => "B <label>"
  | halt => "HALT"
  | label => "<label>:"

/-- The template that reads an opcode's lines. -/
def template (op : Opcode) : Template :=
  Template.compile op.form.toList

/-- All opcodes, the first to be tried first. -/
def all : List Opcode :=
  [load, store, compute .add, compute .sub, copy, compare,
   branch .equal, branch .notEqual, branch .greater, branch .less, branch .always,
   compute .and, compute .or, compute .xor, complement,
   compute .shiftLeft, compute .shiftRight, halt, label]

/-- No opcode is missing. -/
theorem mem_all (op : Opcode) : op ∈ all := by
  rcases op with _ | _ | operation | _ | _ | _ | condition | _ | _
  case compute => cases operation <;> decide
  case branch => cases condition <;> decide
  all_goals decide

/-- No opcode is listed twice. -/
theorem nodup_all : all.Nodup := by
  decide

/-- The opcodes with their templates. -/
def table : List (Opcode × Template) :=
  all.map fun op => (op, op.template)

/-- Whether lines of this opcode declare a label. -/
def declaresLabel (op : Opcode) : Bool :=
  op == label

end Opcode

end TeachAsm
