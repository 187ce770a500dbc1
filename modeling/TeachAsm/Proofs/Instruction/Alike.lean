import TeachAsm.Proofs.Instruction.Evaluation
/-!
# Unset means zero

A register that does not exist reads as zero, and so does an address past the
end of memory. Machines that read alike may therefore differ in what exists, and
no instruction tells them apart: it comes to the same effect on both, or to the
same fault (`Instruction.result_evaluate_of_alike`), and the effect leaves them
alike (`Machine.Alike.apply`). Only the bound of memory must be the same, since
stores up to it succeed. What the log is told may differ.
-/

namespace TeachAsm

/-- **Machines that read alike**: the same flag, the same contents of every
register and every address, and the same bound up to which memory is written. -/
structure Machine.Alike (m m' : Machine) : Prop where
  flag_eq : m.registers.flag = m'.registers.flag
  register_eq : ∀ r, m.registers.get r = m'.registers.get r
  word_eq : ∀ a, m.memory.get a = m'.memory.get a
  bound_eq : max m.memory.size Memory.limit = max m'.memory.size Memory.limit

/-- **Machines that differ in the zeros behind memory only**: they read alike, and
the same registers exist. -/
structure Machine.Padded (m m' : Machine) : Prop extends m.Alike m' where
  registers_eq : m.registers = m'.registers

/-- **A relation that machines keep in lockstep**: they read alike, and an effect
that is made on both leaves them related. -/
structure Machine.Lockstep (M : Machine → Machine → Prop) : Prop where
  alike : ∀ {m m' : Machine}, M m m' → m.Alike m'
  apply : ∀ {m m' : Machine} (effect : Effect), M m m' → M (effect.apply m) (effect.apply m')

namespace Machine

variable {m m' : Machine}

/-! ## Reading and changing -/

/-- An address may be written when it lies below the bound. -/
theorem Alike.writable_iff (h : m.Alike m') (a : Nat) :
    m.memory.Writable a ↔ m'.memory.Writable a := by
  have hbound := h.bound_eq
  omega

theorem Alike.value_eq (h : m.Alike m') (o : Operand) : m.value o = m'.value o := by
  cases o with
  | register r => exact h.register_eq r
  | immediate w => rfl

/-- **An effect leaves machines alike.** A word that is written may make one of the
memories longer and not the other, and the words in the gap are zero then. -/
theorem Alike.apply (h : m.Alike m') (effect : Effect) :
    (effect.apply m).Alike (effect.apply m') := by
  cases effect with
  | none => exact h
  | setRegister r w =>
    refine ⟨h.flag_eq, fun q => ?_, h.word_eq, h.bound_eq⟩
    simp only [Effect.apply, Registers.get_write, h.register_eq]
  | setWord a w =>
    refine ⟨h.flag_eq, h.register_eq, fun b => ?_, ?_⟩
    · simp only [Effect.apply, Memory.get_put, h.word_eq]
    · have hbound := h.bound_eq
      simp only [Effect.apply, Memory.size_put]
      omega
  | setFlag flag => exact ⟨rfl, h.register_eq, h.word_eq, h.bound_eq⟩

/-- Zeros behind memory do not change its bound, as long as they do not pass the
limit. -/
theorem padded_grow (m : Machine) {n : Nat} (hn : n ≤ Memory.limit) :
    m.Padded { m with memory := m.memory.grow n } where
  flag_eq := rfl
  register_eq _ := rfl
  word_eq a := (Memory.get_grow m.memory n a).symm
  bound_eq := by
    rw [Memory.size_grow]
    omega
  registers_eq := rfl

/-- Machines that read alike do so in lockstep. -/
theorem lockstep_alike : Lockstep Alike :=
  ⟨id, fun effect h => h.apply effect⟩

/-- And so do those that differ in zeros behind memory only. -/
theorem lockstep_padded : Lockstep Padded := by
  refine ⟨Padded.toAlike, fun {m m'} effect h => ⟨h.toAlike.apply effect, ?_⟩⟩
  cases effect with
  | none | setWord => exact h.registers_eq
  | setRegister r w => exact congrArg (Registers.write · r w) h.registers_eq
  | setFlag flag => exact congrArg (Registers.setFlag · flag) h.registers_eq

end Machine

/-! ## Evaluating -/

/-- **An opcode comes to the same on machines that read alike**, whatever the
captures are. -/
theorem Opcode.result_evaluate_of_alike {m m' : Machine} (h : m.Alike m') (around : Surroundings)
    (captures : Captures) (op : Opcode) :
    (op.evaluate around captures m).result = (op.evaluate around captures m').result := by
  cases op with
  | load | compute | copy | complement | compare =>
    simp only [evaluate, Report.result_bind, Memory.result_read, Registers.result_read,
      Machine.result_operand, h.word_eq, h.register_eq, h.value_eq]
  | store =>
    simp only [evaluate, Report.result_bind, Registers.result_read, h.register_eq,
      h.writable_iff, apply_ite Report.result]
    rfl
  | branch => simp only [evaluate, h.flag_eq]
  | halt | label => rfl

/-- **An instruction does not tell machines apart that read alike.** -/
theorem Instruction.result_evaluate_of_alike {m m' : Machine} (h : m.Alike m') (i : Instruction)
    (around : Surroundings) : (i.evaluate around m).result = (i.evaluate around m').result :=
  i.opcode.result_evaluate_of_alike h around i.captures

end TeachAsm
