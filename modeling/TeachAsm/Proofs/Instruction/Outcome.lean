import TeachAsm.Proofs.Instruction.Decoding
import TeachAsm.Proofs.Instruction.Evaluation
/-!
# What an instruction comes to

One equation for each shape of instruction says what evaluating it gives, the
log apart. Two shapes can fail, each for one reason: a branch that is taken to a
name nobody declared, and a store past the limit of memory. That is the whole
list (`Shaped.result_evaluate_eq_error_iff`), so a shaped instruction never
misses a capture. Of an instruction that does not fail, execution asks where it
goes (`control_of_evaluate`) and what a store may do to memory
(`writable_of_evaluate`).
-/

namespace TeachAsm

namespace Instruction

variable {i : Instruction} {around : Surroundings} {machine : Machine}

/-! ## The equations -/

section Equations

variable (around : Surroundings) (machine : Machine)

@[simp] theorem result_evaluate_load (d : Register) (a : Address) :
    (evaluate ⟨.load, [.register d, .address a]⟩ around machine).result =
      .ok (.setRegister d (machine.memory.get a.toNat), .next) := by
  simp [evaluate, Opcode.evaluate, Captures.register, Captures.address, Captures.field,
    Capture.register?, Capture.address?, Report.result_map_of_ok (Memory.result_read ..)]

@[simp] theorem result_evaluate_store (s : Register) (a : Address) :
    (evaluate ⟨.store, [.register s, .address a]⟩ around machine).result =
      if machine.memory.Writable a.toNat then
        .ok (.setWord a.toNat (machine.registers.get s), .next)
      else
        .error (.addressOutOfRange around.line a) := by
  simp only [evaluate, Opcode.evaluate, Captures.register, Captures.address, Captures.field,
    Capture.register?, Capture.address?, List.getElem?_cons_zero, List.getElem?_cons_succ,
    Option.bind_some, Report.lift_ok, pure_bind,
    Report.result_bind_of_ok (Registers.result_read ..)]
  split <;> rfl

@[simp] theorem result_evaluate_compute (operation : Operation) (d n : Register) (o : Operand) :
    (evaluate ⟨.compute operation, [.register d, .register n, .operand o]⟩ around machine).result =
      .ok (.setRegister d (operation.apply (machine.registers.get n) (machine.value o)),
        .next) := by
  simp [evaluate, Opcode.evaluate, Captures.register, Captures.operand, Captures.field,
    Capture.register?, Capture.operand?, Report.result_bind_of_ok (Registers.result_read ..),
    Report.result_map_of_ok (Machine.result_operand ..)]

@[simp] theorem result_evaluate_copy (d : Register) (o : Operand) :
    (evaluate ⟨.copy, [.register d, .operand o]⟩ around machine).result =
      .ok (.setRegister d (machine.value o), .next) := by
  simp [evaluate, Opcode.evaluate, Captures.register, Captures.operand, Captures.field,
    Capture.register?, Capture.operand?, Report.result_map_of_ok (Machine.result_operand ..)]

@[simp] theorem result_evaluate_complement (d : Register) (o : Operand) :
    (evaluate ⟨.complement, [.register d, .operand o]⟩ around machine).result =
      .ok (.setRegister d (~~~machine.value o), .next) := by
  simp [evaluate, Opcode.evaluate, Captures.register, Captures.operand, Captures.field,
    Capture.register?, Capture.operand?, Report.result_map_of_ok (Machine.result_operand ..)]

@[simp] theorem result_evaluate_compare (n : Register) (o : Operand) :
    (evaluate ⟨.compare, [.register n, .operand o]⟩ around machine).result =
      .ok (.setFlag (Flag.compare (machine.registers.get n) (machine.value o)), .next) := by
  simp [evaluate, Opcode.evaluate, Captures.register, Captures.operand, Captures.field,
    Capture.register?, Capture.operand?, Report.result_bind_of_ok (Registers.result_read ..),
    Report.result_map_of_ok (Machine.result_operand ..)]

@[simp] theorem result_evaluate_branch (condition : Condition) (name : Text) :
    (evaluate ⟨.branch condition, [.label name]⟩ around machine).result =
      if condition.holds machine.registers.flag then
        match around.labels.slot? name with
        | some slot => .ok (.none, .jump slot)
        | none => .error (.undeclaredLabel around.line name)
      else
        .ok (.none, .next) := by
  simp only [evaluate, Opcode.evaluate, Captures.label, Captures.field, Capture.label?,
    List.getElem?_cons_zero, Option.bind_some, Report.lift_ok, pure_bind]
  split
  · rw [Surroundings.slot]
    cases around.labels.slot? name <;> rfl
  · rfl

@[simp] theorem result_evaluate_halt :
    (evaluate ⟨.halt, []⟩ around machine).result = .ok (.none, .halt) :=
  rfl

@[simp] theorem result_evaluate_label (name : Text) :
    (evaluate ⟨.label, [.label name]⟩ around machine).result = .ok (.none, .next) :=
  rfl

end Equations

/-! ## Failing -/

/-- **An instruction fails for one of two reasons**: it is a branch that is
taken to a label nobody declared, or a store past the limit of memory. -/
theorem Shaped.result_evaluate_eq_error_iff (h : i.Shaped) {fault : Fault} :
    (i.evaluate around machine).result = .error fault ↔
      (∃ condition name, i = ⟨.branch condition, [.label name]⟩ ∧
        condition.holds machine.registers.flag ∧ around.labels.slot? name = none ∧
        fault = .undeclaredLabel around.line name) ∨
      (∃ s a, i = ⟨.store, [.register s, .address a]⟩ ∧ ¬ machine.memory.Writable a.toNat ∧
        fault = .addressOutOfRange around.line a) := by
  cases h with
  | load => simp
  | store s a =>
    rw [result_evaluate_store]
    constructor
    · intro hr
      split at hr
      · cases hr
      · next hw => exact .inr ⟨s, a, rfl, hw, (Except.error.inj hr).symm⟩
    · rintro (⟨_, _, heq, -⟩ | ⟨s, a, heq, hw, rfl⟩)
      · cases heq
      · cases heq
        rw [if_neg hw]
  | compute => simp
  | copy => simp
  | complement => simp
  | compare => simp
  | branch condition name =>
    rw [result_evaluate_branch]
    constructor
    · intro hr
      split at hr
      · next hc =>
        split at hr
        · cases hr
        · next hs => exact .inl ⟨condition, name, rfl, hc, hs, (Except.error.inj hr).symm⟩
      · cases hr
    · rintro (⟨condition, name, heq, hc, hs, rfl⟩ | ⟨_, _, heq, -⟩)
      · cases heq
        rw [if_pos hc, hs]
      · cases heq
  | halt => simp
  | label => simp

/-- A shaped instruction never misses a capture. -/
theorem Shaped.result_evaluate_ne_missingCapture (h : i.Shaped) (position : Nat) :
    (i.evaluate around machine).result ≠ .error (.missingCapture position) := by
  rw [ne_eq, h.result_evaluate_eq_error_iff]
  rintro (⟨_, _, _, _, _, hf⟩ | ⟨_, _, _, _, hf⟩) <;> cases hf

/-! ## Going on -/

variable {effect : Effect} {control : Control}

/-- The label that an instruction branches to when the flag stands so; there is
none if it is no branch, or is not taken. -/
def target? (flag : Option Flag) : Instruction → Option Text
  | ⟨.branch condition, .label name :: _⟩ => if condition.holds flag then some name else none
  | _ => none

/-- **Where execution goes**: to the next slot, to the label of a branch that is
taken, or nowhere after a halt. -/
theorem Shaped.control_of_evaluate (h : i.Shaped)
    (hr : (i.evaluate around machine).result = .ok (effect, control)) :
    (i.opcode ≠ .halt ∧ i.target? machine.registers.flag = none ∧ control = .next) ∨
      (i.opcode ≠ .halt ∧ ∃ name slot, i.target? machine.registers.flag = some name ∧
        around.labels.slot? name = some slot ∧ control = .jump slot) ∨
      (i.opcode = .halt ∧ control = .halt) := by
  cases h with
  | load | compute | copy | complement | compare | label =>
    simp only [result_evaluate_load, result_evaluate_compute, result_evaluate_copy,
      result_evaluate_complement, result_evaluate_compare, result_evaluate_label,
      Except.ok.injEq, Prod.mk.injEq] at hr
    exact .inl ⟨by simp, rfl, hr.2.symm⟩
  | store s a =>
    rw [result_evaluate_store] at hr
    split at hr
    · exact .inl ⟨by simp, rfl, (Prod.mk.inj (Except.ok.inj hr)).2.symm⟩
    · cases hr
  | branch condition name =>
    rw [result_evaluate_branch] at hr
    split at hr
    · next hholds =>
      split at hr
      · next slot hs =>
        refine .inr (.inl ⟨by simp, name, slot, ?_, hs, (Prod.mk.inj (Except.ok.inj hr)).2.symm⟩)
        rw [target?, if_pos hholds]
      · cases hr
    · next hholds =>
      refine .inl ⟨by simp, ?_, (Prod.mk.inj (Except.ok.inj hr)).2.symm⟩
      rw [target?, if_neg hholds]
  | halt => exact .inr (.inr ⟨rfl, (Prod.mk.inj (Except.ok.inj hr)).2.symm⟩)

/-- A branch changes nothing of the machine. -/
theorem effect_eq_none_of_branch {condition : Condition} {name : Text}
    (hr : (evaluate ⟨.branch condition, [.label name]⟩ around machine).result =
      .ok (effect, control)) : effect = .none := by
  rw [result_evaluate_branch] at hr
  split at hr
  · split at hr
    · cases hr
      rfl
    · cases hr
  · cases hr
    rfl

/-- Only words that may be written are written. -/
theorem Shaped.writable_of_evaluate (h : i.Shaped) {a : Nat} {w : Word}
    (hr : (i.evaluate around machine).result = .ok (.setWord a w, control)) :
    machine.memory.Writable a := by
  cases h with
  | store s b =>
    rw [result_evaluate_store] at hr
    split at hr
    · next hw =>
      cases hr
      exact hw
    · cases hr
  | branch condition name => cases effect_eq_none_of_branch hr
  | load | compute | copy | complement | compare | halt | label => simp at hr

/-- **Memory never shrinks, and does not grow past its limit.** -/
theorem Shaped.size_memory_of_evaluate (h : i.Shaped)
    (hr : (i.evaluate around machine).result = .ok (effect, control)) :
    machine.memory.size ≤ (effect.apply machine).memory.size ∧
      (effect.apply machine).memory.size ≤ max machine.memory.size Memory.limit := by
  cases effect with
  | setWord a w =>
    have hw := h.writable_of_evaluate hr
    have hsize : ((Effect.setWord a w).apply machine).memory.size =
        max machine.memory.size (a + 1) := Memory.size_put machine.memory a w
    rw [hsize]
    omega
  | none | setRegister | setFlag => exact ⟨Nat.le_refl _, Nat.le_max_left _ _⟩

end Instruction

end TeachAsm
