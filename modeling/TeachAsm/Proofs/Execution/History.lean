import TeachAsm.Proofs.Execution.Replay
/-!
# Histories

A history of a program is what steps and runs have made of its start, in any
number and mixture, with any limits and any tracers, and on after every fault, and
wherever a run has got to. Each slot that is executed is offered to the tracer,
whether the tracer takes the record or not, and so the records that have been
offered are the slots that have been executed, in order. They can be replayed
(`History.replays`): each tells of its slot on the machine of the one before, and
the machine as it is now is that of the last (`History.machine_eq`). What holds of
the machine is thereby a matter of the records alone, and is proved by induction on
them.
-/

namespace TeachAsm

open Relation

variable {program : Program}

/-! ## Records that can be replayed -/

/-- **Records that can be replayed**: each tells of a slot, on the machine of those
before it. -/
def Program.Replays (program : Program) (records : List Record) : Prop :=
  ∀ ⦃front record back⦄, records = front ++ record :: back →
    ∃ slot, record.Tells program (program.machineAfter front) slot

/-- The instruction that a record tells of. -/
def Program.instruction? (program : Program) (record : Record) : Option Instruction :=
  program.slots[record.counter]?.map Slot.instruction

namespace Program

variable {records front back : List Record} {record : Record}

@[simp] theorem machineAfter_concat (records : List Record) (record : Record) :
    program.machineAfter (records ++ [record]) = record.machine := by
  simp [machineAfter]

theorem replays_nil : program.Replays [] := by
  intro front record back h
  simp at h

theorem Replays.of_append (h : program.Replays (front ++ back)) : program.Replays front :=
  fun _ _ _ hsplit => h (by rw [hsplit, List.append_assoc, List.cons_append])

/-- A record may be added that tells of a slot on the machine there is. -/
theorem replays_concat_iff :
    program.Replays (records ++ [record]) ↔
      program.Replays records ∧
        ∃ slot, record.Tells program (program.machineAfter records) slot := by
  constructor
  · intro h
    exact ⟨h.of_append, h rfl⟩
  · rintro ⟨h, htells⟩ front other back hsplit
    -- the record that is asked for is the new one, or stands in front of it
    rcases back.eq_nil_or_concat' with rfl | ⟨back, last, rfl⟩
    · obtain ⟨rfl, hlast⟩ := List.append_inj' hsplit rfl
      obtain rfl : record = other := by simpa using hlast
      exact htells
    · rw [← List.cons_append, ← List.append_assoc] at hsplit
      obtain ⟨rfl, -⟩ := List.append_inj' hsplit rfl
      exact h rfl

/-- **What the last of some records does to the machine**: the instruction that it
tells of has its effect. -/
theorem Replays.exists_effect (h : program.Replays (records ++ [record]))
    (hwf : program.WellFormed) :
    ∃ i around effect control, program.instruction? record = some i ∧ i.Shaped ∧
      (i.evaluate around (program.machineAfter records)).result = .ok (effect, control) ∧
      record.machine = effect.apply (program.machineAfter records) := by
  obtain ⟨-, slot, htells⟩ := replays_concat_iff.1 h
  obtain ⟨events, control, hexecute⟩ := htells.executed
  obtain ⟨effect, hresult, hmachine⟩ := Instruction.exists_effect_of_execute hexecute
  refine ⟨slot.instruction, _, effect, control, ?_, ?_, hresult, hmachine⟩
  · rw [instruction?, htells.slot_eq, Option.map_some]
  · exact hwf.shaped slot (Array.mem_of_getElem? htells.slot_eq)

end Program

/-! ## Sessions -/

/-- **A session whose transcript can be replayed**, up to the machine it has. -/
structure Session.Replayed {σ : Type} (program : Program) (s : Session (σ × List Record)) :
    Prop where
  machine_eq : program.machineAfter s.trace.2 = s.execution.machine
  replays : program.Replays s.trace.2

namespace Session

section Step

variable {σ : Type} {tracer : Tracer σ}

variable {s : Session (σ × List Record)}

/-- **A step keeps the transcript replayed.** -/
theorem Replayed.step (h : s.Replayed program) (tracer : Tracer σ) :
    (s.step program tracer.transcript).1.Replayed program := by
  rcases step_cases program tracer.transcript s with
    ⟨-, hstep⟩ | ⟨-, hstep⟩ | ⟨_, _, _, -, -, hstep⟩ | ⟨stride, hbefore, hstep⟩
  · rw [hstep]
    exact h
  · rw [hstep]
    exact ⟨h.machine_eq, h.replays⟩
  · rw [hstep]
    exact ⟨h.machine_eq, h.replays⟩
  · have hreplays : program.Replays (s.trace.2 ++ [stride.record]) := by
      rw [Program.replays_concat_iff, h.machine_eq, ← hbefore]
      exact ⟨h.replays, stride.slot, stride.tells⟩
    have hmachine := program.machineAfter_concat s.trace.2 stride.record
    -- whether the record is taken or refused, the effect has been made
    rw [hstep]
    split
    · exact ⟨hmachine.trans stride.machine_record, hreplays⟩
    · exact ⟨hmachine, hreplays⟩

/-- And so does a run. -/
theorem Replayed.runFor (h : s.Replayed program) (tracer : Tracer σ) (limit : Option Nat)
    (rounds : Nat) : (s.runFor program limit tracer.transcript rounds).1.Replayed program := by
  induction rounds generalizing s with
  | zero => exact h
  | succ rounds ih =>
    have hstep := h.step tracer
    unfold Session.runFor
    split
    · split
      · exact h
      · rcases hnext : s.step program tracer.transcript with ⟨next, result⟩
        rw [hnext] at hstep
        cases result with
        | ok state => exact ih hstep
        | error fault => exact hstep
    · exact ⟨h.machine_eq, h.replays⟩

end Step

/-- An execution that is carried on with another tracer, and with the transcript
there is. -/
def continued {σ : Type} (e : Execution) (trace : σ) (records : List Record) (log : Array Event) :
    Session (σ × List Record) :=
  ⟨e, (trace, records), log⟩

end Session

/-! ## Histories -/

namespace Execution

/-- **What steps and runs have made of the start of a program**, and the records that
have been offered. The number of rounds is where in a run we look. -/
inductive History (program : Program) : Execution → List Record → Prop
  | start : History program (start program) []
  | step {σ : Type} {e : Execution} {records : List Record} (h : History program e records)
      (tracer : Tracer σ) (trace : σ) (log : Array Event) :
      History program
        ((Session.continued e trace records log).step program tracer.transcript).1.execution
        ((Session.continued e trace records log).step program tracer.transcript).1.trace.2
  | run {σ : Type} {e : Execution} {records : List Record} (h : History program e records)
      (limit : Option Nat) (tracer : Tracer σ) (trace : σ) (log : Array Event) (rounds : Nat) :
      History program
        ((Session.continued e trace records log).runFor program limit tracer.transcript
          rounds).1.execution
        ((Session.continued e trace records log).runFor program limit tracer.transcript
          rounds).1.trace.2

variable {e : Execution} {records : List Record}

theorem History.replayed (h : History program e records) :
    program.machineAfter records = e.machine ∧ program.Replays records := by
  induction h with
  | start => exact ⟨rfl, Program.replays_nil⟩
  | @step σ e records _ tracer trace log ih =>
    have hfrom : (Session.continued e trace records log).Replayed program := ⟨ih.1, ih.2⟩
    have hnext := hfrom.step tracer
    exact ⟨hnext.machine_eq, hnext.replays⟩
  | @run σ e records _ limit tracer trace log rounds ih =>
    have hfrom : (Session.continued e trace records log).Replayed program := ⟨ih.1, ih.2⟩
    have hended := hfrom.runFor tracer limit rounds
    exact ⟨hended.machine_eq, hended.replays⟩

/-- **The machine is that of the last record.** -/
theorem History.machine_eq (h : History program e records) :
    program.machineAfter records = e.machine :=
  h.replayed.1

/-- **The records of a history can be replayed.** -/
theorem History.replays (h : History program e records) : program.Replays records :=
  h.replayed.2

end Execution

end TeachAsm
