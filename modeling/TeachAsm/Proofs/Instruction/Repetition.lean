import TeachAsm.Proofs.Instruction.Outcome
/-!
# Executing an instruction twice

An effect that is made again changes nothing more (`Effect.apply_apply`). So an
instruction that is executed again right away only changes the machine further
if it comes to another effect, and this takes an instruction that computes a
register from what the register held (`Instruction.recomputes`). No instruction
fails or goes another way the second time, since none writes what decides that
(`Shaped.exists_evaluate_again`).
-/

namespace TeachAsm

/-- **An effect that is made twice is made once.** -/
@[simp] theorem Effect.apply_apply (effect : Effect) (machine : Machine) :
    effect.apply (effect.apply machine) = effect.apply machine := by
  cases effect with
  | none | setFlag => rfl
  | setRegister | setWord => simp [Effect.apply]

namespace Instruction

/-- Whether an instruction computes a register from what the register held. -/
def recomputes : Instruction → Bool
  | ⟨.compute _, [.register d, .register n, .operand o]⟩ => d = n ∨ o = .register d
  | ⟨.complement, [.register d, .operand o]⟩ => o = .register d
  | _ => false

variable {i : Instruction} {around : Surroundings} {machine : Machine}
variable {effect : Effect} {control : Control}

/-- Setting a register changes no operand but that register. -/
theorem value_setRegister {d : Register} {o : Operand} (h : o ≠ .register d) (w : Word) :
    ((Effect.setRegister d w).apply machine).value o = machine.value o := by
  cases o with
  | immediate => rfl
  | register r =>
    have hr : r ≠ d := fun heq => h (congrArg Operand.register heq)
    simp [Machine.value, Effect.apply, Registers.get_write, hr]

/-- **An instruction that has not failed does not fail right after that**, and it
leads to the same place. The effect is the same too, unless the instruction
computes a register from what the register held. -/
theorem Shaped.exists_evaluate_again (h : i.Shaped)
    (hr : (i.evaluate around machine).result = .ok (effect, control)) :
    ∃ effect', (i.evaluate around (effect.apply machine)).result = .ok (effect', control) ∧
      (i.recomputes = false → effect' = effect) := by
  cases h with
  | load d a =>
    rw [result_evaluate_load] at hr ⊢
    cases hr
    exact ⟨_, rfl, fun _ => rfl⟩
  | store s a =>
    rw [result_evaluate_store] at hr ⊢
    split at hr
    · cases hr
      -- the word that has been written may be written again
      have hsize : a.toNat < (machine.memory.put a.toNat (machine.registers.get s)).size := by
        rw [Memory.size_put]
        omega
      exact ⟨_, if_pos (.inl hsize), fun _ => rfl⟩
    · cases hr
  | compute operation d n o =>
    rw [result_evaluate_compute] at hr ⊢
    cases hr
    refine ⟨_, rfl, fun hnot => ?_⟩
    obtain ⟨hn, ho⟩ : d ≠ n ∧ o ≠ .register d := by simpa [recomputes] using hnot
    rw [value_setRegister ho]
    simp [Effect.apply, Registers.get_write, Ne.symm hn]
  | copy d o =>
    rw [result_evaluate_copy] at hr ⊢
    cases hr
    refine ⟨_, rfl, fun _ => ?_⟩
    by_cases ho : o = .register d
    · simp [ho, Machine.value, Effect.apply, Registers.get_write]
    · rw [value_setRegister ho]
  | complement d o =>
    rw [result_evaluate_complement] at hr ⊢
    cases hr
    refine ⟨_, rfl, fun hnot => ?_⟩
    have ho : o ≠ .register d := by simpa [recomputes] using hnot
    rw [value_setRegister ho]
  | compare n o =>
    rw [result_evaluate_compare] at hr ⊢
    cases hr
    refine ⟨_, rfl, fun _ => ?_⟩
    cases o <;> rfl
  | branch condition name =>
    obtain rfl := effect_eq_none_of_branch hr
    exact ⟨_, hr, fun _ => rfl⟩
  | halt | label =>
    cases hr
    exact ⟨_, rfl, fun _ => rfl⟩

end Instruction

end TeachAsm
