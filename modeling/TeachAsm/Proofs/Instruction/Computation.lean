import TeachAsm.Proofs.Instruction.Outcome
import TeachAsm.Proofs.Machine.Word
/-!
# What an instruction computes

Ten opcodes write a register. What they write is told as a number, and by the machine
as it was before (`Instruction.Computes`): so it makes no difference that the
destination may be one of the sources. Executing such an instruction writes this word
and leaves everything else alone (`Instruction.execute_computes`).
-/

namespace TeachAsm

/-- Whether the lines of an opcode write a register. -/
def Opcode.writesRegister : Opcode → Bool
  | load | compute _ | copy | complement => true
  | store | compare | branch _ | halt | label => false

namespace Instruction

/-- **The destination of an instruction, and the word it computes** on a machine: the
word at an address, an operation on a register and an operand, an operand, or its
complement. What does not exist counts as zero. -/
inductive Computes (machine : Machine) : Instruction → Register → Word → Prop
  | load (d : Register) (a : Address) :
      Computes machine ⟨.load, [.register d, .address a]⟩ d (machine.memory.get a.toNat)
  | compute {operation : Operation} {d n : Register} {o : Operand} {w : Word}
      (h : operation.Yields (machine.registers.get n) (machine.value o) w) :
      Computes machine ⟨.compute operation, [.register d, .register n, .operand o]⟩ d w
  | copy (d : Register) (o : Operand) :
      Computes machine ⟨.copy, [.register d, .operand o]⟩ d (machine.value o)
  | complement {d : Register} {o : Operand} {w : Word}
      (h : w.toInt = -1 - (machine.value o).toInt) :
      Computes machine ⟨.complement, [.register d, .operand o]⟩ d w

variable {i : Instruction} {machine : Machine} {d d' : Register} {w w' : Word}

/-- An instruction computes one word for one destination. -/
theorem Computes.unique (h : i.Computes machine d w) (h' : i.Computes machine d' w') :
    d' = d ∧ w' = w := by
  cases h with
  | load | copy =>
    cases h'
    exact ⟨rfl, rfl⟩
  | compute hyields =>
    cases h' with
    | compute hyields' => exact ⟨rfl, hyields'.unique hyields⟩
  | complement hnumber =>
    cases h' with
    | complement hnumber' => exact ⟨rfl, Int32.toInt_inj.1 (hnumber'.trans hnumber.symm)⟩

/-- **What an instruction computes is what it writes**, on every machine. -/
theorem Shaped.exists_computes (h : i.Shaped) (hop : i.opcode.writesRegister)
    (around : Surroundings) (machine : Machine) :
    ∃ d w, i.Computes machine d w ∧
      (i.evaluate around machine).result = .ok (.setRegister d w, .next) := by
  cases h with
  | load d a => exact ⟨d, _, .load d a, result_evaluate_load around machine d a⟩
  | compute operation d n o =>
    exact ⟨d, _, .compute (operation.yields_apply _ _),
      result_evaluate_compute around machine operation d n o⟩
  | copy d o => exact ⟨d, _, .copy d o, result_evaluate_copy around machine d o⟩
  | complement d o =>
    exact ⟨d, _, .complement (Word.toInt_complement _),
      result_evaluate_complement around machine d o⟩
  | store | compare | branch | halt | label => cases hop

/-- **A line that writes a register writes what it computes, and nothing else.** It is
the one word that its numbers allow, on the machine as it was; execution goes on with
the next slot; and every other register, whether it exists or not, the flag and memory
stay what they were. -/
theorem execute_computes {line : Text} (hline : ofText? line = some i)
    (hop : i.opcode.writesRegister) (around : Surroundings) (machine : Machine) :
    ∃ d w, i.Computes machine d w ∧ (∀ d' w', i.Computes machine d' w' → d' = d ∧ w' = w) ∧
      ∃ machine' events, i.execute around machine = (machine', ⟨events, .ok .next⟩) ∧
        machine'.registers.get? d = some w ∧
        (∀ r, r ≠ d → machine'.registers.get? r = machine.registers.get? r) ∧
        machine'.registers.flag = machine.registers.flag ∧ machine'.memory = machine.memory := by
  obtain ⟨d, w, hcomputes, hresult⟩ :=
    (shaped_of_ofText? hline).exists_computes hop around machine
  refine ⟨d, w, hcomputes, fun d' w' h' => hcomputes.unique h', _, _, execute_of_ok hresult, ?_,
    fun r hr => ?_, rfl, rfl⟩
  · rw [Effect.apply, Registers.get?_write, if_pos rfl]
  · rw [Effect.apply, Registers.get?_write, if_neg hr]

/-- A negative number, shifted to the right by a negative amount, in a register that is
a source as well. -/
theorem execute_computes_shiftRight :
    let line := "LSR R0, R0, R1".toList
    let i : Instruction :=
      ⟨.compute .shiftRight, [.register 0, .register 0, .operand (.register 1)]⟩
    let machine : Machine := { registers := .ofList [(0, -16), (1, -31)] none }
    ofText? line = some i ∧ i.opcode.writesRegister ∧ i.Computes machine 0 (-8) ∧
      (i.execute ⟨{}, 1⟩ machine).1.registers.get? 0 = some (-8) ∧
      (i.execute ⟨{}, 1⟩ machine).1.registers.get? 1 = some (-31) := by
  intro line i machine
  have hline : ofText? line = some i := by decide +kernel
  have hcomputes : i.Computes machine 0 (-8) := .compute (by decide)
  obtain ⟨d, w, -, hunique, machine', events, hexecute, hwritten, hother, -⟩ :=
    execute_computes hline rfl ⟨{}, 1⟩ machine
  obtain ⟨rfl, rfl⟩ := hunique 0 (-8) hcomputes
  refine ⟨hline, rfl, hcomputes, ?_, ?_⟩
  · rw [hexecute]
    exact hwritten
  · rw [hexecute]
    exact (hother 1 (by decide)).trans (by decide)

end Instruction

end TeachAsm
