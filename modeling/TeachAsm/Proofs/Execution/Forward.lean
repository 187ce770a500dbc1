import TeachAsm.Proofs.Execution.Faults
import TeachAsm.Proofs.Execution.Replay
/-!
# Programs that only branch forward

Nothing in a run says that it returns. It does when each branch stands in front of
the declaration of its label (`Program.Forward`), because then every stride goes on
to a later slot, whether it branches or not. What grows is the number of slots that
an execution has passed (`Execution.passed`): by one at least with each stride
(`Stride.passed_lt`), and never above the size of the program. A trail therefore
comes to an end within as many strides as there are slots
(`Trail.exists_atEnd_of_forward`), and with it the run (`Session.runFor_of_forward`).
-/

namespace TeachAsm

/-! ## Forward branches -/

namespace Instruction

/-- The label that a branch names, whether it is taken or not. -/
def names? : Instruction → Option Text
  | ⟨.branch _, .label name :: _⟩ => some name
  | _ => none

/-- What is branched to has been named. -/
theorem names?_of_target? {i : Instruction} {flag : Option Flag} {name : Text}
    (h : i.target? flag = some name) : i.names? = some name := by
  unfold target? at h
  split at h
  · split at h
    · exact h
    · cases h
  · cases h

end Instruction

/-- **A program that only branches forward**: a slot that names a label stands in
front of the slot that declares it, if there is one. -/
def Program.Forward (program : Program) : Prop :=
  ∀ place target : Fin program.slots.size, ∀ name ∈ program.slots[place].instruction.names?,
    program.slots[target].declares? = some name → place < target

instance (program : Program) : Decidable program.Forward :=
  inferInstanceAs (Decidable (∀ place target : Fin program.slots.size,
    ∀ name ∈ program.slots[place].instruction.names?,
      program.slots[target].declares? = some name → place < target))

/-- A branch that is taken to its label goes forward. -/
theorem Program.Forward.lt_of_target? {program : Program} (hforward : program.Forward)
    (hwf : program.WellFormed) {place target : Nat} {slot : Slot} {flag : Option Flag}
    {name : Text} (hslot : program.slots[place]? = some slot)
    (htarget : slot.instruction.target? flag = some name)
    (hlabel : program.labels.slot? name = some target) : place < target := by
  obtain ⟨other, hother, hdeclares⟩ := hwf.slot?_eq_some_iff.1 hlabel
  obtain ⟨hplace, rfl⟩ := Array.getElem?_eq_some_iff.1 hslot
  obtain ⟨hbound, rfl⟩ := Array.getElem?_eq_some_iff.1 hother
  exact hforward ⟨place, hplace⟩ ⟨target, hbound⟩ name (Instruction.names?_of_target? htarget)
    hdeclares

/-! ## Slots that have been passed -/

/-- **How many slots an execution has passed**: those in front of it, and the halt
that it has ended with. -/
def Execution.passed (e : Execution) : Nat :=
  if e.state = .halted then e.counter + 1 else e.counter

namespace Execution

variable {program : Program} {e : Execution}

theorem passed_of_active (hactive : e.state = .active) : e.passed = e.counter := by
  rw [passed, hactive, if_neg (by decide)]

/-- Going to a slot is no halt. -/
theorem passed_goto (hactive : e.state = .active) (size place : Nat) :
    (e.goto size place).passed = place := by
  refine if_neg ?_
  rw [goto, hactive]
  split <;> simp

/-- **No more slots are passed than there are.** -/
theorem Sound.passed_le (hs : e.Sound program) : e.passed ≤ program.size := by
  cases hstate : e.state with
  | active =>
    rw [passed_of_active hstate]
    exact Nat.le_of_lt (hs.counter_lt hstate)
  | halted =>
    obtain ⟨slot, hslot, -⟩ := hs.at_halt hstate
    rw [passed, if_pos hstate]
    exact (Array.getElem?_eq_some_iff.1 hslot).1
  | finished =>
    rw [passed, hstate, if_neg (by decide)]
    exact Nat.le_of_eq (hs.counter_eq hstate)

/-- **What the end of an execution is**: a halt, the end of the program, or a slot that
fails. -/
theorem Sound.result_of_atEnd (hs : e.Sound program) (hwf : program.WellFormed)
    {result : Except Fault Outcome} (hend : e.AtEnd program result) :
    result = .ok ⟨.halted, e.operations⟩ ∨ result = .ok ⟨.finished, e.operations⟩ ∨
      e.state = .active ∧ ∃ fault, result = .error fault ∧ e.FaultsWith program fault := by
  cases hend with
  | stopped hover =>
    rw [outcome]
    cases hstate : e.state with
    | active => exact absurd hstate hover
    | halted => exact .inl rfl
    | finished => exact .inr (.inl rfl)
  | fault hactive hcurrent hfault =>
    exact .inr (.inr ⟨hactive, _, rfl, (hs.result_eq_error_iff hwf hcurrent).1 hfault⟩)

end Execution

section Forward

variable {program : Program} {e e' : Execution} {strides : List (Stride program)}

/-- **Each stride passes its slot**, and comes to none that has been passed. -/
theorem Stride.passed_lt (stride : Stride program) (hwf : program.WellFormed)
    (hforward : program.Forward) : stride.before.counter < stride.after.passed := by
  have hshape := hwf.shaped stride.slot (Array.mem_of_getElem? stride.slot_eq)
  have hactive : (stride.before.commit stride.effect).state = .active := stride.active
  rw [after]
  rcases hshape.control_of_evaluate stride.result_evaluate with
    ⟨-, -, hcontrol⟩ | ⟨-, name, place, htarget, hplace, hcontrol⟩ | ⟨-, hcontrol⟩
  · rw [hcontrol, Execution.advance, Execution.passed_goto hactive]
    exact Nat.lt_succ_self _
  · rw [hcontrol, Execution.advance, Execution.passed_goto hactive]
    exact hforward.lt_of_target? hwf stride.slot_eq htarget hplace
  · rw [hcontrol]
    exact Nat.lt_succ_self _

namespace Trail

/-- A trail passes as many slots as it has strides, if not more. -/
theorem passed_add_length_le (h : Trail program e strides e') (hwf : program.WellFormed)
    (hforward : program.Forward) : e.passed + strides.length ≤ e'.passed := by
  induction h with
  | nil => exact Nat.le_refl _
  | cons stride _ ih =>
    have hlt := stride.passed_lt hwf hforward
    rw [Execution.passed_of_active stride.active, List.length_cons]
    omega

/-- **The strides of a trail are at later and later slots**, none of which has been
passed before. -/
theorem pairwise_counter (h : Trail program e strides e') (hwf : program.WellFormed)
    (hforward : program.Forward) :
    (∀ stride ∈ strides, e.passed ≤ stride.before.counter) ∧
      strides.Pairwise fun stride later => stride.before.counter < later.before.counter := by
  induction h with
  | nil => simp
  | cons stride _ ih =>
    obtain ⟨hpassed, hlater⟩ := ih
    have hlt := stride.passed_lt hwf hforward
    have hcounter := Execution.passed_of_active stride.active
    refine ⟨List.forall_mem_cons.2 ⟨Nat.le_of_eq hcounter, fun later hmem => ?_⟩,
      List.pairwise_cons.2 ⟨fun later hmem => ?_, hlater⟩⟩
    · have := hpassed later hmem
      omega
    · exact Nat.lt_of_lt_of_le hlt (hpassed later hmem)

/-- **An execution comes to its end within as many strides as there are slots.** -/
theorem exists_atEnd_of_forward (hs : e.Sound program) (hwf : program.WellFormed)
    (hforward : program.Forward) :
    ∃ strides e' result, Trail program e strides e' ∧ e'.AtEnd program result ∧
      e'.Sound program ∧ strides.length ≤ e'.passed := by
  rcases exists_length_eq_or_atEnd hs hwf (program.size + 1) with
    ⟨strides, e', htrail, hlength⟩ | ⟨strides, e', result, htrail, hend, -⟩
  · -- such a trail would pass more slots than there are
    have hadd := htrail.passed_add_length_le hwf hforward
    have hle := (htrail.sound hs hwf).passed_le
    omega
  · have hadd := htrail.passed_add_length_le hwf hforward
    exact ⟨strides, e', result, htrail, hend, htrail.sound hs hwf, by omega⟩

end Trail

end Forward

/-! ## A run -/

namespace Session

open Execution

variable {σ : Type} {program : Program} {tracer : Tracer σ}

/-- **A program that only branches forward ends.** Without a limit, and with a tracer
that takes every record, its run returns after as many rounds as it has slots and one
more, and so `run` does as long as slots can be counted in 64 bits. The records of the
run are as many as the operations, and no more than the slots, and they are of later
and later slots, none of which is executed twice. The program has halted or finished
then, or has come to a slot that fails, and that one has not been counted. -/
theorem runFor_of_forward {source : Text} (hload : (Program.ofSource source).result = .ok program)
    (hforward : program.Forward) (hreliable : tracer.Reliable) (trace : σ) (log : Array Event) :
    let ended := (start program trace log).runFor program none tracer (program.size + 1)
    let records :=
      ((start program (trace, []) log).runFor program none tracer.transcript
        (program.size + 1)).1.trace.2
    (program.size < UInt64.size → (start program trace log).run program none tracer = ended) ∧
      ended.1.trace = tracer.after trace records ∧
      ended.1.execution.operations = records.length ∧ records.length ≤ program.size ∧
      (records.Pairwise fun record later => record.counter < later.counter) ∧
      (ended.2 = some (.ok ⟨.halted, records.length⟩) ∨
        ended.2 = some (.ok ⟨.finished, records.length⟩) ∨
        records.length < program.size ∧
          ∃ fault, ended.2 = some (.error fault) ∧
            ended.1.execution.FaultsWith program fault) := by
  intro ended records
  have hwf := Program.wellFormed_of_ofSource hload
  have hstart := sound_start program
  obtain ⟨strides, e, result, htrail, hend, hs, hpassed⟩ :=
    Trail.exists_atEnd_of_forward hstart hwf hforward
  have hle : strides.length ≤ program.size := hpassed.trans hs.passed_le
  have hstretch : Stretch program none (.start program) strides e := htrail.stretch nofun
  have hcomes : (Execution.start program).Comes program none (program.size + 1) strides e
      (some result) :=
    .stopped hstretch (Nat.lt_succ_of_le hle) (.atEnd hend fun _ => nofun)
  obtain ⟨hresult, hexecution, htrace⟩ :=
    runFor_of_comes (s := start program trace log) hcomes (hreliable.takes trace _)
  obtain ⟨-, -, hoffered⟩ :=
    transcript_runFor_of_comes (s := start program (trace, []) log) hcomes
      (hreliable.takes trace _)
  have hrecords : records = strides.map Stride.record := hoffered
  have hlength : records.length = strides.length := by rw [hrecords, List.length_map]
  have hoperations : e.operations = strides.length := by
    rw [htrail.operations_eq]
    exact Nat.zero_add _
  refine ⟨fun hsize => ?_, hrecords ▸ htrace, ?_, hlength ▸ hle, ?_, ?_⟩
  · have hruns : Runs program none tracer (start program trace log) ended.1 result :=
      ⟨_, Prod.ext rfl hresult⟩
    have hfits : ended.1.execution.operations < UInt64.size := by
      rw [hexecution, hoperations]
      omega
    rw [run_eq_of_runs hruns hstart hwf hreliable hfits]
    exact Prod.ext rfl hresult.symm
  · rw [hexecution, hoperations, hlength]
  · rw [hrecords, List.pairwise_map]
    exact (htrail.pairwise_counter hwf hforward).2
  · rw [hexecution, hresult, hlength, ← hoperations]
    rcases hs.result_of_atEnd hwf hend with rfl | rfl | ⟨hactive, fault, rfl, hfaults⟩
    · exact .inl rfl
    · exact .inr (.inl rfl)
    · -- the slot that fails has not been passed
      have hcounter := hs.counter_lt hactive
      rw [passed_of_active hactive] at hpassed
      exact .inr (.inr ⟨by omega, fault, rfl, hfaults⟩)

/-- A program that branches over a branch to a label that nobody declares: of its five
slots it executes four, and halts. -/
theorem runFor_of_forward_over :
    let program : Program :=
      { image := ⟨#[0]⟩
        slots := #[⟨2, "CMP R0, #0".toList, ⟨.compare, [.register 0, .operand (.immediate 0)]⟩⟩,
          ⟨3, "BEQ end".toList, ⟨.branch .equal, [.label "end".toList]⟩⟩,
          ⟨4, "B nowhere".toList, ⟨.branch .always, [.label "nowhere".toList]⟩⟩,
          ⟨5, "end:".toList, ⟨.label, [.label "end".toList]⟩⟩,
          ⟨5, "HALT".toList, ⟨.halt, []⟩⟩]
        labels := ⟨[⟨"end".toList, 3, 5⟩]⟩ }
    let ended := (start program #[] #[]).runFor program none Tracer.steps 6
    (Program.ofSource "[0]\nCMP R0, #0\nBEQ end\nB nowhere\nend: HALT".toList).result =
        .ok program ∧
      program.Forward ∧ Tracer.steps.Reliable ∧
      (start program #[] #[]).run program none Tracer.steps = ended ∧
      ended.2 = some (.ok ⟨.halted, 4⟩) ∧
      ended.1.trace.map Record.counter = #[0, 1, 3, 4] := by
  intro program ended
  have hload : (Program.ofSource
      "[0]\nCMP R0, #0\nBEQ end\nB nowhere\nend: HALT".toList).result = .ok program := by
    decide +kernel
  have hforward : program.Forward := by decide +kernel
  obtain ⟨hrun, -⟩ := runFor_of_forward hload hforward Tracer.reliable_steps #[] #[]
  exact ⟨hload, hforward, Tracer.reliable_steps, hrun (by decide), by decide +kernel,
    by decide +kernel⟩

end Session

end TeachAsm
