import TeachAsm.Log.Report
import TeachAsm.Template.Capture
/-!
# Reading what is not there

Instructions read registers that do not exist and addresses past the end of
memory as zero, and tell the log that they did. A store that makes memory
longer is told of as well. These reads never fail.
-/

namespace TeachAsm

/-- The contents of a register, with a warning if it does not exist. -/
def Registers.read (rs : Registers) (r : Register) : Report Word :=
  match rs.get? r with
  | some w => ⟨[], .ok w⟩
  | none => ⟨[.unsetRegister r], .ok 0⟩

/-- The word at an address, with a warning if it is past the end. -/
def Memory.read (m : Memory) (a : Nat) : Report Word :=
  if a < m.size then ⟨[], .ok (m.get a)⟩ else ⟨[.readPastEnd a m.size], .ok 0⟩

/-- The warning of a store that makes memory longer. -/
def Memory.growth (m : Memory) (a : Nat) : List Event :=
  if m.size ≤ a ∧ a < limit then [.storePastEnd a m.size] else []

/-- The value of an operand, with a warning if it is a register that does not
exist. -/
def Machine.operand (machine : Machine) : Operand → Report Word
  | .register r => machine.registers.read r
  | .immediate w => pure w

/-- The value of an operand. -/
def Machine.value (machine : Machine) : Operand → Word
  | .register r => machine.registers.get r
  | .immediate w => w

@[simp] theorem Registers.result_read (rs : Registers) (r : Register) :
    (rs.read r).result = .ok (rs.get r) := by
  unfold Registers.read Registers.get
  split <;> simp_all

@[simp] theorem Memory.result_read (m : Memory) (a : Nat) :
    (m.read a).result = .ok (m.get a) := by
  unfold Memory.read
  split
  · rfl
  · next h =>
    have : m.get a = 0 := by
      simp only [Memory.get, Array.getD_eq_getD_getElem?]
      rw [Array.getElem?_eq_none (by simpa [Memory.size] using h)]
      rfl
    rw [this]

@[simp] theorem Machine.result_operand (machine : Machine) (o : Operand) :
    (machine.operand o).result = .ok (machine.value o) := by
  cases o with
  | register r => exact machine.registers.result_read r
  | immediate w => rfl

end TeachAsm
