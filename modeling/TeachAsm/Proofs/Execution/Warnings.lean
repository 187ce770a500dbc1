import TeachAsm.Proofs.Execution.Log
import TeachAsm.Proofs.Machine.Registers
/-!
# Registers exist once written, and warnings tell of the others

The machine does not remember its past, but it is settled by it: a register exists
just when one of the records is that of an instruction with that destination
(`Program.Replays.isSome_get?_iff`). An executed slot warns of each register that it
reads and that none of them has written, and of an address past the end of memory. One
step adds the warnings of its slot to the log, whether it fails or not
(`Session.exists_log_step`), and so the warnings of a run are those of its records,
one after the other, and of the slot it fails at (`Session.Replayed.warned_runFor`).
-/

namespace TeachAsm

namespace Session

open Execution

section Step

variable {σ : Type} {program : Program} {s : Session σ} {records : List Record} {slot : Slot}
variable (h : program.Replays records)
variable (hmachine : program.machineAfter records = s.execution.machine)
variable (hwf : program.WellFormed) (hactive : s.execution.state = .active)

include h hmachine hwf hactive

variable (tracer : Tracer σ)

/-- **A step logs what its slot warns of**, and behind that no more than that the
slot has been executed. -/
theorem exists_log_step (hslot : program.slots[s.execution.counter]? = some slot) :
    ∃ told, (s.step program tracer).1.log.toList = s.log.toList ++
        slot.instruction.warnings (program.written records) s.execution.machine.memory.size ++
          told ∧
      (told = [] ∨ ∃ control,
        told = [.stepped s.execution.counter slot.line slot.text control]) := by
  have hshape := hwf.shaped slot (Array.mem_of_getElem? hslot)
  have hevents := h.events_evaluate hwf hshape
  have hcurrent := current?_eq_some_iff.2 ⟨hslot, rfl⟩
  rw [hmachine] at hevents
  rw [← hevents]
  rcases hresult : (slot.instruction.evaluate ⟨program.labels, slot.line⟩
    s.execution.machine).result with fault | ⟨effect, control⟩
  · rw [step_of_fault hactive hcurrent hresult]
    exact ⟨[], by simp [note], .inl rfl⟩
  · let stride : Stride program :=
      ⟨s.execution, slot, _, effect, control, hactive, hcurrent, hresult⟩
    have hlog : (s.step program tracer).1.log = s.log ++ stride.events := by
      rw [step_of_stride_eq_ite stride rfl]
      split <;> rfl
    exact ⟨[.stepped s.execution.counter slot.line slot.text control],
      by rw [hlog]; simp [Stride.events, stride], .inr ⟨control, rfl⟩⟩

/-- A store past the limit tells of its source only. -/
theorem step_of_not_writable (hslot : program.slots[s.execution.counter]? = some slot)
    {r : Register} {a : Address}
    (hstore : slot.instruction = ⟨.store, [.register r, .address a]⟩)
    (hpast : ¬ s.execution.machine.memory.Writable a.toNat) :
    s.step program tracer =
      (s.note (if r ∈ program.written records then [] else [.unsetRegister r]),
        .error (.addressOutOfRange slot.line a)) := by
  have hshape := hwf.shaped slot (Array.mem_of_getElem? hslot)
  have hresult : (slot.instruction.evaluate ⟨program.labels, slot.line⟩
      s.execution.machine).result = .error (.addressOutOfRange slot.line a) := by
    rw [hstore, Instruction.result_evaluate_store, if_neg hpast]
  have hevents := h.events_evaluate hwf hshape
  rw [hmachine] at hevents
  rw [step_of_fault hactive (current?_eq_some_iff.2 ⟨hslot, rfl⟩) hresult, hevents, hstore]
  have hgrows : ¬ (s.execution.machine.memory.size ≤ a.toNat ∧ a.toNat < Memory.limit) :=
    fun hgrows => hpast (.inr hgrows.2)
  refine congrArg (fun events => (s.note events, _)) ?_
  simp only [Instruction.warnings, Instruction.sources, Instruction.memoryWarnings, if_neg hgrows,
    List.append_nil]
  split
  · next hr => simp [hr]
  · next hr => simp [hr]

end Step

/-- **What a run warns of.** -/
theorem Replayed.warned_runFor {σ : Type} {program : Program} {s : Session (σ × List Record)}
    (h : s.Replayed program) (hwf : program.WellFormed) (tracer : Tracer σ) (limit : Option Nat)
    (rounds : Nat) :
    let ended := s.runFor program limit tracer.transcript rounds
    ∃ later, ended.1.trace.2 = s.trace.2 ++ later ∧
      ended.1.log.toList.filter Event.isWarning =
        s.log.toList.filter Event.isWarning ++ program.warnings s.trace.2 later ++
          program.faultWarnings ended.1.trace.2 ended.1.execution.counter ended.2 := by
  intro ended
  obtain ⟨later, hrecords, hlog⟩ := h.logs_runFor hwf tracer limit rounds
  have hstop : (stopEvents ended.2).filter Event.isWarning = [] := by
    rcases ended.2 with _ | _ | _ <;> rfl
  refine ⟨later, hrecords, ?_⟩
  rw [hlog, List.filter_append, List.filter_append, List.filter_append, hstop,
    Program.filter_isWarning_told,
    List.filter_eq_self.2 fun _ => Program.isWarning_of_mem_faultWarnings, List.append_nil]

/-- **Registers exist once they are written, and warnings are exact.** At every point
of a history a register exists, and is shown, just when an instruction with that
destination has been executed. The slot that is next warns of the registers that it
reads and that none has written, in the order in which it reads them, and of its
address, and tells nothing else but that it has been executed. A store past the limit
warns of its source before it fails, and of nothing else. And a run warns of just what
the slots that it executes warn of, one after the other, and of what the slot warns of
that it fails at. -/
theorem registers_and_warnings_of_history {source : Text} {program : Program}
    (hload : (Program.ofSource source).result = .ok program) {e : Execution}
    {records : List Record} (h : Execution.History program e records) :
    (∀ r, (∃ w, e.machine.registers.get? r = some w) ↔ r ∈ program.written records) ∧
    (∀ r, e.machine.registers.Shows r ↔ r ∈ program.written records) ∧
    (∀ slot, e.state = .active → program.slots[e.counter]? = some slot →
      ∀ {σ : Type} (tracer : Tracer σ) (s : Session σ), s.execution = e →
        (∃ told, (s.step program tracer).1.log.toList = s.log.toList ++
            slot.instruction.warnings (program.written records) e.machine.memory.size ++ told ∧
          (told = [] ∨ ∃ control, told = [.stepped e.counter slot.line slot.text control])) ∧
        ∀ r a, slot.instruction = ⟨.store, [.register r, .address a]⟩ →
          ¬ e.machine.memory.Writable a.toNat →
            s.step program tracer =
              (s.note (if r ∈ program.written records then [] else [.unsetRegister r]),
                .error (.addressOutOfRange slot.line a))) ∧
    ∀ {σ : Type} (tracer : Tracer σ) (limit : Option Nat) (rounds : Nat) (trace : σ)
      (log : Array Event),
      let ended := (continued e trace records log).runFor program limit tracer.transcript rounds
      ∃ later, ended.1.trace.2 = records ++ later ∧
        ended.1.log.toList.filter Event.isWarning =
          log.toList.filter Event.isWarning ++ program.warnings records later ++
            program.faultWarnings ended.1.trace.2 ended.1.execution.counter ended.2 := by
  have hwf := Program.wellFormed_of_ofSource hload
  have hexists (r : Register) :
      (e.machine.registers.get? r).isSome ↔ r ∈ program.written records := by
    rw [← h.machine_eq]
    exact h.replays.isSome_get?_iff hwf
  refine ⟨fun r => ?_, fun r => ?_, fun slot hactive hslot σ tracer s hs => ?_,
    fun {σ} tracer limit rounds trace log => ?_⟩
  · rw [← Option.isSome_iff_exists]
    exact hexists r
  · rw [Registers.shows_iff]
    exact hexists r
  · subst hs
    exact ⟨exists_log_step h.replays h.machine_eq hwf hactive tracer hslot,
      fun r a => step_of_not_writable h.replays h.machine_eq hwf hactive tracer hslot⟩
  · have hfrom : (continued e trace records log).Replayed program := ⟨h.machine_eq, h.replays⟩
    exact hfrom.warned_runFor hwf tracer limit rounds

/-- A program that warns in each way: of a source that is also the destination and the
operand, of two addresses past the end, and of the source of a store that fails. -/
theorem registers_and_warnings_of_history_store :
    let program : Program :=
      { image := ⟨#[7]⟩
        slots := #[⟨2, "ADD R0, R0, R0".toList,
            ⟨.compute .add, [.register 0, .register 0, .operand (.register 0)]⟩⟩,
          ⟨3, "LDR R1, 3".toList, ⟨.load, [.register 1, .address 3]⟩⟩,
          ⟨4, "STR R2, 1".toList, ⟨.store, [.register 2, .address 1]⟩⟩,
          ⟨5, "STR R3, 65536".toList, ⟨.store, [.register 3, .address 65536]⟩⟩]
        labels := {} }
    let zero : Registers := ⟨[(0, 0)], by decide, none⟩
    let zeros : Registers := ⟨[(0, 0), (1, 0)], by decide, none⟩
    let records : List Record :=
      [⟨0, 1, "ADD R0, R0, R0".toList, "Add".toList, ⟨#[7]⟩, zero⟩,
        ⟨1, 2, "LDR R1, 3".toList, "Load to register".toList, ⟨#[7]⟩, zeros⟩,
        ⟨2, 3, "STR R2, 1".toList, "Store to memory".toList, ⟨#[7, 0]⟩, zeros⟩]
    let e : Execution := ⟨3, 3, ⟨⟨#[7, 0]⟩, zeros⟩, .active⟩
    let slot := program.slots[3]
    (Program.ofSource "[7]\nADD R0, R0, R0\nLDR R1, 3\nSTR R2, 1\nSTR R3, 65536".toList).result =
      .ok program ∧ Execution.History program e records ∧ program.written records = [0, 1] ∧
      (∃ w, zeros.get? 1 = some w) ∧ ¬ zeros.Shows 2 ∧
      ((continued (.start program) () [] #[]).runFor program none Tracer.silent.transcript
        4).1.log.toList.filter Event.isWarning =
          [.unsetRegister 0, .unsetRegister 0, .readPastEnd 3 1, .unsetRegister 2,
            .storePastEnd 1 1, .unsetRegister 3] ∧
      program.slots[e.counter]? = some slot ∧
      slot.instruction = ⟨.store, [.register 3, .address 65536]⟩ ∧
      ¬ e.machine.memory.Writable 65536 ∧
      (⟨e, (), #[]⟩ : Session Unit).step program .silent =
        (⟨e, (), #[.unsetRegister 3]⟩, .error (.addressOutOfRange 5 65536)) := by
  intro program zero zeros records e slot
  have hload : (Program.ofSource
      "[7]\nADD R0, R0, R0\nLDR R1, 3\nSTR R2, 1\nSTR R3, 65536".toList).result =
        .ok program := by decide +kernel
  have hhistory := @Execution.History.run program Unit _ _ .start none .silent () #[] 4
  have hexecution : ((continued (.start program) () [] #[]).runFor program none
      Tracer.silent.transcript 4).1.execution = e := by decide +kernel
  have hrecords : ((continued (.start program) () [] #[]).runFor program none
      Tracer.silent.transcript 4).1.trace.2 = records := by decide +kernel
  rw [hexecution, hrecords] at hhistory
  obtain ⟨-, -, -, hrun⟩ := registers_and_warnings_of_history hload .start
  obtain ⟨later, hlater, hwarned⟩ := hrun .silent none 4 () #[]
  obtain rfl : records = later := hrecords.symm.trans hlater
  obtain ⟨hexists, hshows, hstep, -⟩ := registers_and_warnings_of_history hload hhistory
  have hwritten : program.written records = [0, 1] := by decide +kernel
  rw [hwritten] at hexists hshows hstep
  have hslot : program.slots[e.counter]? = some slot := by decide +kernel
  have hpast : ¬ e.machine.memory.Writable 65536 := by decide +kernel
  refine ⟨hload, hhistory, hwritten, (hexists 1).2 (by decide), fun h => ?_, ?_, hslot, rfl, hpast,
    (hstep slot rfl hslot .silent ⟨e, (), #[]⟩ rfl).2 3 65536 rfl hpast⟩
  · exact absurd ((hshows 2).1 h) (by decide)
  · exact hwarned.trans (by decide +kernel)

end Session

end TeachAsm
