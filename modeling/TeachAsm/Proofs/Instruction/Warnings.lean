import TeachAsm.Proofs.Instruction.Outcome
/-!
# What an instruction warns of

The warnings of an instruction are settled by what it reads and where it goes in
memory: one for each of its register sources that does not exist, in the order in
which they are read (`Instruction.sources`), and then one for an address past the
end of memory (`Instruction.memoryWarnings`). These are all events of evaluating
it, whether it fails or not (`Shaped.events_evaluate`). Its destination is no
source, and a register that is read twice is warned of twice.
-/

namespace TeachAsm

/-- The registers that an operand reads. -/
def Operand.sources : Operand → List Register
  | register r => [r]
  | immediate _ => []

/-- One warning for each of some registers that does not exist. -/
def Registers.warnings (rs : Registers) (sources : List Register) : List Event :=
  (sources.filter fun r => (rs.get? r).isNone).map .unsetRegister

namespace Instruction

/-- The registers that an instruction reads, in order. -/
def sources : Instruction → List Register
  | ⟨.store, .register s :: _⟩ => [s]
  | ⟨.compute _, [_, .register n, .operand o]⟩ => n :: o.sources
  | ⟨.copy, [_, .operand o]⟩ | ⟨.complement, [_, .operand o]⟩ => o.sources
  | ⟨.compare, [.register n, .operand o]⟩ => n :: o.sources
  | _ => []

/-- The warning of an instruction that loads from past the end of a memory of some
size, or stores there below the limit. -/
def memoryWarnings (size : Nat) : Instruction → List Event
  | ⟨.load, [_, .address a]⟩ => if size ≤ a.toNat then [.readPastEnd a.toNat size] else []
  | ⟨.store, [_, .address a]⟩ =>
    if size ≤ a.toNat ∧ a.toNat < Memory.limit then [.storePastEnd a.toNat size] else []
  | _ => []

end Instruction

/-! ## Reading -/

theorem Registers.warnings_append (rs : Registers) (sources others : List Register) :
    rs.warnings (sources ++ others) = rs.warnings sources ++ rs.warnings others := by
  simp [warnings]

@[simp] theorem Registers.events_read (rs : Registers) (r : Register) :
    (rs.read r).events = rs.warnings [r] := by
  unfold Registers.read Registers.warnings
  split
  · next h => simp [h]
  · next h => simp [h]

@[simp] theorem Memory.events_read (m : Memory) (a : Nat) :
    (m.read a).events = if m.size ≤ a then [.readPastEnd a m.size] else [] := by
  unfold Memory.read
  by_cases h : a < m.size
  · rw [if_pos h, if_neg (Nat.not_le.2 h)]
  · rw [if_neg h, if_pos (Nat.not_lt.1 h)]

@[simp] theorem Machine.events_operand (machine : Machine) (o : Operand) :
    (machine.operand o).events = machine.registers.warnings o.sources := by
  cases o with
  | register r => exact machine.registers.events_read r
  | immediate w => rfl

namespace Report

variable {α β : Type}

theorem events_bind_of_ok {x : Report α} {a : α} (h : x.result = .ok a) (f : α → Report β) :
    (x >>= f).events = x.events ++ (f a).events := by
  rw [bind_of_ok h]

theorem events_map_of_ok {x : Report α} {a : α} (h : x.result = .ok a) (f : α → β) :
    (f <$> x).events = x.events := by
  rw [← bind_pure_comp, events_bind_of_ok h, events_pure, List.append_nil]

end Report

/-! ## Evaluating -/

namespace Instruction

variable {i : Instruction} {around : Surroundings} {machine : Machine}

/-- **The warnings of an instruction are those of its sources, and then that of its
address**, and nothing else is told. A store past the limit of memory tells of its
source only, and a branch tells nothing. -/
theorem Shaped.events_evaluate (h : i.Shaped) :
    (i.evaluate around machine).events =
      machine.registers.warnings i.sources ++ i.memoryWarnings machine.memory.size := by
  cases h with
  | load d a =>
    simp [evaluate, Opcode.evaluate, Captures.register, Captures.address, Captures.field,
      Capture.register?, Capture.address?, Report.events_map_of_ok (Memory.result_read ..),
      sources, memoryWarnings, Registers.warnings]
  | store s a =>
    simp only [evaluate, Opcode.evaluate, Captures.register, Captures.address, Captures.field,
      Capture.register?, Capture.address?, List.getElem?_cons_zero, List.getElem?_cons_succ,
      Option.bind_some, Report.lift_ok, pure_bind,
      Report.events_bind_of_ok (Registers.result_read ..), Registers.events_read, sources,
      memoryWarnings]
    congr 1
    by_cases hw : machine.memory.Writable a.toNat
    · rw [if_pos hw]
      exact List.append_nil _
    · rw [if_neg hw, if_neg fun hgrows => hw (.inr hgrows.2)]
      rfl
  | compute operation d n o =>
    simp [evaluate, Opcode.evaluate, Captures.register, Captures.operand, Captures.field,
      Capture.register?, Capture.operand?, Report.events_bind_of_ok (Registers.result_read ..),
      Report.events_map_of_ok (Machine.result_operand ..), sources, memoryWarnings,
      ← Registers.warnings_append]
  | copy d o | complement d o =>
    simp [evaluate, Opcode.evaluate, Captures.register, Captures.operand, Captures.field,
      Capture.register?, Capture.operand?, Report.events_map_of_ok (Machine.result_operand ..),
      sources, memoryWarnings]
  | compare n o =>
    simp [evaluate, Opcode.evaluate, Captures.register, Captures.operand, Captures.field,
      Capture.register?, Capture.operand?, Report.events_bind_of_ok (Registers.result_read ..),
      Report.events_map_of_ok (Machine.result_operand ..), sources, memoryWarnings,
      ← Registers.warnings_append]
  | branch condition name =>
    simp only [evaluate, Opcode.evaluate, Captures.label, Captures.field, Capture.label?,
      List.getElem?_cons_zero, Option.bind_some, Report.lift_ok, pure_bind]
    split
    · rw [Surroundings.slot]
      cases around.labels.slot? name <;> rfl
    · rfl
  | halt | label => rfl

theorem isWarning_of_mem_memoryWarnings {size : Nat} {event : Event}
    (h : event ∈ i.memoryWarnings size) : event.isWarning := by
  unfold memoryWarnings at h
  split at h
  · split at h
    · rw [List.mem_singleton.1 h]
      rfl
    · cases h
  · split at h
    · rw [List.mem_singleton.1 h]
      rfl
    · cases h
  · cases h

end Instruction

end TeachAsm
