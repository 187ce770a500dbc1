import TeachAsm.Proofs.Execution.Replay
import TeachAsm.Proofs.Instruction.Repetition
/-!
# Going on after a refused record

A run whose tracer refuses a record leaves the execution at the slot of that
record, with the effect made and counted. Carried on from there, the execution
makes that stride once more (`Stride.exists_again`): it does not fail, and it
leads to the same place. So no slot is skipped and no other one is executed
twice, and where the machine has not changed by it, everything that follows is
as it would have been, counted one higher (`Trail.counted`). This is so unless
the instruction computes a register from what the register held.
-/

namespace TeachAsm

/-- The record of a step that has counted one operation more. -/
def Record.count (record : Record) : Record :=
  { record with operations := record.operations + 1 }

/-! ## Counting one more -/

namespace Stride

variable {program : Program} (stride : Stride program)

/-- The stride of an execution that has counted one operation more. -/
def counted : Stride program :=
  { stride with before := stride.before.count, active := stride.active, current := stride.current }

theorem after_counted : stride.counted.after = stride.after.count := by
  have hafter : stride.counted.after =
      (stride.before.commit stride.effect).count.advance program.size stride.control := rfl
  rw [hafter, after]
  cases stride.control <;> rfl

theorem map_record_counted (strides : List (Stride program)) :
    (strides.map counted).map record = (strides.map record).map Record.count := by
  have hrecord (stride : Stride program) : stride.counted.record = stride.record.count := rfl
  simp [hrecord]

/-! ## The stride once more -/

/-- **A stride may be made once more**, from where it has had its effect. -/
theorem exists_again (hwf : program.WellFormed) :
    ∃ again : Stride program, again.before = stride.before.commit stride.effect ∧
      again.slot = stride.slot ∧ again.control = stride.control ∧
      (stride.slot.instruction.recomputes = false → again.effect = stride.effect) := by
  have hshape := hwf.shaped stride.slot (Array.mem_of_getElem? stride.slot_eq)
  obtain ⟨effect, hresult, heffect⟩ := hshape.exists_evaluate_again stride.result_evaluate
  let again : Stride program :=
    { before := stride.before.commit stride.effect
      slot := stride.slot
      report := _
      effect := effect
      control := stride.control
      active := stride.active
      current := Execution.current?_eq_some_iff.2 ⟨stride.slot_eq, rfl⟩
      result := hresult }
  exact ⟨again, rfl, rfl, rfl, heffect⟩

section Again

variable {stride} {again : Stride program}
variable (hbefore : again.before = stride.before.commit stride.effect)

include hbefore

/-- It tells of the slot again, and is counted one higher. -/
theorem record_again (hslot : again.slot = stride.slot) :
    again.record = { stride.record.count with
      memory := again.record.memory, registers := again.record.registers } := by
  rw [record, hbefore, hslot]
  rfl

/-- What it tells of is executed on the machine that the first record tells of. -/
theorem tells_again (hslot : again.slot = stride.slot) :
    again.record.Tells program stride.record.machine stride.slot := by
  have hmachine : stride.record.machine = again.before.machine := by
    rw [hbefore]
    rfl
  rw [hmachine, ← hslot]
  exact again.tells

/-- The same effect changes nothing more. -/
theorem machine_record_again (heffect : again.effect = stride.effect) :
    again.record.machine = stride.record.machine := by
  rw [machine_record, machine_after, hbefore, heffect]
  exact stride.effect.apply_apply stride.before.machine

/-- It leads to where the stride has led, with what it has made of the machine. -/
theorem after_again (hcontrol : again.control = stride.control) :
    again.after = { stride.after with
      operations := stride.after.operations + 1, machine := again.record.machine } := by
  have hmachine : again.record.machine =
      again.effect.apply (stride.before.commit stride.effect).machine := by
    rw [← hbefore]
    rfl
  rw [hmachine, after, after, hbefore, hcontrol]
  cases stride.control <;> rfl

/-- If the machine is the same, so is everything but the count. -/
theorem count_of_machine_eq (hslot : again.slot = stride.slot)
    (hcontrol : again.control = stride.control)
    (hmachine : again.record.machine = stride.record.machine) :
    again.record = stride.record.count ∧ again.after = stride.after.count := by
  constructor
  · obtain ⟨hmemory, hregisters⟩ := Machine.mk.inj hmachine
    rw [record_again hbefore hslot, hmemory, hregisters]
    rfl
  · rw [after_again hbefore hcontrol, hmachine, machine_record]
    rfl

end Again

end Stride

section Trail

variable {program : Program} {limit : Option Nat} {e e' : Execution}
variable {strides : List (Stride program)} {result : Except Fault Outcome}

/-- **A trail with one operation more** makes the same strides, each counted one
higher. -/
theorem Trail.counted (h : Trail program e strides e') :
    Trail program e.count (strides.map Stride.counted) e'.count := by
  induction h with
  | nil => exact .nil _
  | cons stride _ ih =>
    rw [← stride.after_counted] at ih
    exact .cons stride.counted ih

/-- An execution that is over is over with one operation more. -/
theorem Execution.Stops.counted {outcome : Outcome} (h : e.Stops program none (.ok outcome)) :
    e.count.Stops program none (.ok ⟨outcome.state, outcome.operations + 1⟩) := by
  cases h with
  | atEnd hend =>
    cases hend with
    | stopped hover => exact .atEnd (.stopped (e := e.count) hover) nofun

/-- No run stops with the failure of a tracer. -/
theorem Execution.Stops.ne_traceFailed (h : e.Stops program limit result)
    (hwf : program.WellFormed) : result ≠ .error .traceFailed := by
  cases h with
  | exhausted => simp
  | atEnd hend =>
    cases hend with
    | stopped => simp
    | fault _ hcurrent hresult =>
      obtain ⟨-, hshape, rfl⟩ := shaped_of_current? hwf hcurrent
      rintro ⟨⟩
      rcases hshape.result_evaluate_eq_error_iff.1 hresult with
        ⟨_, _, _, _, _, hfault⟩ | ⟨_, _, _, _, hfault⟩ <;> cases hfault

end Trail

/-! ## Going on -/

namespace Session

open Execution

variable {σ : Type} {program : Program} {limit : Option Nat} {tracer : Tracer σ}

/-- **A run that fails with its tracer** has made the effect of a stride that the
quiet run makes too. -/
theorem Runs.exists_interrupted {trace : σ} {log : Array Event}
    {quiet : Session (Unit × List Record)} {outcome : Outcome}
    {broken : Session (σ × List Record)} (hwf : program.WellFormed)
    (hquiet : Runs program none Tracer.silent.transcript (start program ((), []) log) quiet
      (.ok outcome))
    (hbroken : Runs program limit tracer.transcript (start program (trace, []) log) broken
      (.error .traceFailed)) :
    ∃ (before : List (Stride program)) (stride : Stride program) (after : List (Stride program)),
      broken.execution = stride.before.commit stride.effect ∧
      broken.trace.2 = before.map Stride.record ++ [stride.record] ∧
      quiet.trace.2 = before.map Stride.record ++ stride.record :: after.map Stride.record ∧
      Trail program (.start program) before stride.before ∧
      Trail program stride.after after quiet.execution ∧
      quiet.execution.Stops program none (.ok outcome) := by
  have hs := sound_start program
  rcases hbroken.stretch_or_refused hs hwf with
    ⟨_, _, hstops, _⟩ | ⟨before, stride, hbefore, -, -, rfl⟩
  · exact absurd rfl (hstops.ne_traceFailed hwf)
  · obtain ⟨strides, hstrides, hstops, htrace⟩ :=
      hquiet.exists_stretch hs hwf Tracer.reliable_silent.transcript
    -- the quiet run comes by, and makes the stride too
    have htrail : Trail program (.start program) (before ++ [stride]) stride.after :=
      Trail.concat_iff.2 ⟨hbefore.trail, rfl⟩
    obtain ⟨after, rfl, hafter⟩ := hstops.exists_append hstrides (htrail.stretch nofun)
    refine ⟨before, stride, after, rfl, ?_, ?_, hbefore.trail, hafter.trail, hstops⟩
    · rw [interrupt, trace_follow, start, Tracer.after_transcript]
      rfl
    · rw [htrace, Tracer.after_transcript]
      simp [start]

section Again

variable {s : Session (σ × List Record)} {e : Execution} {stride again : Stride program}
variable {after : List (Stride program)} {outcome : Outcome}

/-- **Going on with a stride that is made once more** comes to where the quiet run
does, if nothing but the count has changed by it. -/
theorem exists_runs_of_counted (hreliable : tracer.Reliable) (hbefore : s.execution = again.before)
    (hafter : again.after = stride.after.count) (hrecord : again.record = stride.record.count)
    (htrail : Trail program stride.after after e) (hstops : e.Stops program none (.ok outcome)) :
    ∃ final, Runs program none tracer.transcript s final
        (.ok ⟨outcome.state, outcome.operations + 1⟩) ∧
      final.execution = e.count ∧
      final.trace.2 = s.trace.2 ++ ((stride :: after).map Stride.record).map Record.count := by
  have hlater := htrail.counted
  rw [← hafter] at hlater
  have hstretch : Stretch program none s.execution (again :: after.map Stride.counted) e.count := by
    rw [hbefore]
    exact (Trail.cons again hlater).stretch nofun
  obtain ⟨final, hruns, hexecution, htrace⟩ :=
    exists_runs_of_stretch hstretch hstops.counted (hreliable.transcript.takes s.trace _)
  refine ⟨final, hruns, hexecution, ?_⟩
  rw [htrace, Tracer.after_transcript, List.map_cons, Stride.map_record_counted, hrecord]
  rfl

end Again

/-- **A run that has failed with its tracer can be carried on**, and makes one
stride twice. Take a loaded program whose run without a limit stops, and a run of
it, with any limit, that fails with its tracer. The records it has offered are
those of the quiet run up to a last one, and it is left at the slot of that
record, with the machine and the operations of it. Carried on with a tracer that
takes every record, the first step executes that slot again, on what it has made
of the machine, and is then where the quiet run is, the machine and the count
of operations apart. If the machine has not changed by it, as it has not unless
the instruction computes a register from what the register held, then the run
stops where the quiet run stops, with the same machine, and the records are those
of the quiet run from the last one on, all counted one higher. -/
theorem runs_of_traceFailed {source : Text} (hload : (Program.ofSource source).result = .ok program)
    {trace : σ} {log : Array Event} {quiet : Session (Unit × List Record)} {outcome : Outcome}
    {broken : Session (σ × List Record)}
    (hquiet : Runs program none Tracer.silent.transcript (start program ((), []) log) quiet
      (.ok outcome))
    (hbroken : Runs program limit tracer.transcript (start program (trace, []) log) broken
      (.error .traceFailed)) :
    ∃ front last back slot again,
      quiet.trace.2 = front ++ last :: back ∧ broken.trace.2 = front ++ [last] ∧
      broken.execution = ⟨last.counter, last.operations, last.machine, .active⟩ ∧
      last.Tells program (program.machineAfter front) slot ∧
      again.Tells program last.machine slot ∧ again.counter = last.counter ∧
      again.operations = last.operations + 1 ∧
      (slot.instruction.recomputes = false → again.machine = last.machine) ∧
      ∀ {τ : Type} {other : Tracer τ} (_ : other.Reliable) (trace' : τ) (log' : Array Event),
        let resumption := resumed broken.execution trace' log'
        let next := (resumption.step program other.transcript).1
        let quietly :=
          ((fun s => (s.step program .silent).1)^[front.length + 1]
            (start program () log)).execution
        next.trace.2 = [again] ∧
          next.execution =
            { quietly with operations := quietly.operations + 1, machine := again.machine } ∧
          (again.machine = last.machine → ∃ final,
            Runs program none other.transcript resumption final
              (.ok ⟨outcome.state, outcome.operations + 1⟩) ∧
            final.execution = quiet.execution.count ∧
            final.trace.2 = (last :: back).map Record.count ∧
            (final.execution.operations < UInt64.size →
              resumption.run program none other.transcript =
                (final, some (.ok ⟨outcome.state, outcome.operations + 1⟩)))) := by
  have hwf := Program.wellFormed_of_ofSource hload
  obtain ⟨before, stride, after, hbroken, hrefused, hoffered, hbefore, hafter, hstops⟩ :=
    hquiet.exists_interrupted hwf hbroken
  obtain ⟨again, hagain, hslot, hcontrol, heffect⟩ := stride.exists_again hwf
  have hexecution : broken.execution = again.before := hbroken.trans hagain.symm
  have hrecord := Stride.record_again hagain hslot
  have hcounter : again.record.counter = stride.record.counter := by rw [hrecord]; rfl
  have hoperations : again.record.operations = stride.record.operations + 1 := by rw [hrecord]; rfl
  refine ⟨before.map Stride.record, stride.record, after.map Stride.record, stride.slot,
    again.record, hoffered, hrefused, ?_, ?_, Stride.tells_again hagain hslot, hcounter,
    hoperations, fun h => Stride.machine_record_again hagain (heffect h),
    fun {τ other} hreliable trace' log' => ?_⟩
  · rw [hbroken, ← stride.active]
    rfl
  · rw [hbefore.machine_eq]
    exact stride.tells
  intro resumption next quietly
  have hquietly : quietly = stride.after :=
    execution_iterate_step_of_trail Tracer.reliable_silent (Trail.concat_iff.2 ⟨hbefore, rfl⟩)
      (by simp)
  have hnext : next = resumption.make other.transcript again :=
    congrArg Prod.fst (step_of_taken (s := resumption) again hexecution
      (hreliable.transcript again.record resumption.trace))
  refine ⟨congrArg (·.trace.2) hnext, ?_, fun hmachine => ?_⟩
  · rw [hnext, hquietly]
    exact Stride.after_again hagain hcontrol
  · obtain ⟨hcounted, hlater⟩ := Stride.count_of_machine_eq hagain hslot hcontrol hmachine
    obtain ⟨final, hruns, hfinal, hrecords⟩ :=
      exists_runs_of_counted (s := resumption) hreliable hexecution hlater hcounted hafter hstops
    have hsound : (stride.before.commit stride.effect).Sound program :=
      (hbefore.sound (sound_start program) hwf).commit hwf stride.active stride.current
        stride.result
    rw [← hbroken] at hsound
    exact ⟨final, hruns, hfinal, hrecords,
      run_eq_of_runs (s := resumption) hruns hsound hwf hreliable.transcript⟩

/-- A program that copies and halts, and a sink without room: the copy is made twice,
and the program halts as it does without a tracer, with three operations instead
of two. -/
theorem runs_of_traceFailed_copy :
    let program : Program :=
      { image := ⟨#[0]⟩
        slots := #[⟨2, "MOV R0, #5".toList, ⟨.copy, [.register 0, .operand (.immediate 5)]⟩⟩,
          ⟨3, "HALT".toList, ⟨.halt, []⟩⟩]
        labels := {} }
    let quiet := (start program ((), []) #[]).run program none Tracer.silent.transcript
    let broken := (start program (({ room := some 0 } : Sink), []) #[]).run program none
      Tracer.text.transcript
    let final := (resumed broken.1.execution () #[]).run program none Tracer.silent.transcript
    (Program.ofSource "[0]\nMOV R0, #5\nHALT".toList).result = .ok program ∧
      quiet.2 = some (.ok ⟨.halted, 2⟩) ∧ broken.2 = some (.error .traceFailed) ∧
      final.2 = some (.ok ⟨.halted, 3⟩) ∧
      final.1.execution.machine = quiet.1.execution.machine := by
  intro program quiet broken final
  have hload : (Program.ofSource "[0]\nMOV R0, #5\nHALT".toList).result = .ok program := by
    decide +kernel
  have hquiet : quiet.2 = some (.ok ⟨.halted, 2⟩) := by decide +kernel
  have hbroken : broken.2 = some (.error .traceFailed) := by decide +kernel
  have hplace : broken.1.execution.counter = 0 := by decide +kernel
  have hruns : Runs program none Tracer.text.transcript
      (start program (({ room := some 0 } : Sink), []) #[]) broken.1 (.error .traceFailed) :=
    runs_of_run hbroken
  obtain ⟨front, last, back, slot, again, -, -, hexecution, htells, -, -, -, hsame, hresume⟩ :=
    runs_of_traceFailed hload (runs_of_run hquiet) hruns
  have hcounter : last.counter = 0 := by rwa [hexecution] at hplace
  obtain rfl : program.slots[0] = slot := by
    have hslot := htells.slot_eq
    rw [hcounter] at hslot
    exact Option.some.inj hslot
  obtain ⟨-, -, hresume⟩ := hresume Tracer.reliable_silent () #[]
  obtain ⟨end', -, hend, -, hrun⟩ := hresume (hsame rfl)
  have hfits : end'.execution.operations < UInt64.size := by
    rw [hend]
    decide +kernel
  have hfinal : final = (end', some (.ok ⟨.halted, 3⟩)) := hrun hfits
  rw [hfinal, hend]
  exact ⟨hload, hquiet, hbroken, rfl, rfl⟩

/-- **Going on is not the same as not having been interrupted**: a program that adds
to a register adds twice, and counts twice. -/
theorem execution_ne_of_traceFailed_add :
    let program : Program :=
      { image := ⟨#[]⟩
        slots := #[⟨2, "ADD R0, R0, #1".toList,
          ⟨.compute .add, [.register 0, .register 0, .operand (.immediate 1)]⟩⟩]
        labels := {} }
    let quiet := (start program () #[]).run program none .silent
    let broken := (start program ({ room := some 0 } : Sink) #[]).run program none .text
    let final := (Session.mk broken.1.execution () #[]).run program none .silent
    (Program.ofSource "[]\nADD R0, R0, #1".toList).result = .ok program ∧
      quiet.2 = some (.ok ⟨.finished, 1⟩) ∧ broken.2 = some (.error .traceFailed) ∧
      final.2 = some (.ok ⟨.finished, 2⟩) ∧
      quiet.1.execution.machine.registers.get 0 = 1 ∧
      final.1.execution.machine.registers.get 0 = 2 := by
  decide +kernel

end Session

end TeachAsm
