import TeachAsm.Proofs.Execution.Observation
/-!
# Records can be replayed

The records of a run tell the whole of it. Each tells of a slot that has been
executed on the machine of the record before it (`Record.Tells`), and the place
of the next one is where that slot leads (`Slot.Leads`). One stride does so
(`Stride.tells`, `Stride.leads`), and so a trail does, whose records are `Legal`
therefore. Where the trail ends is told by its last record (`Stride.ends`), and
with it the result of a run that stops (`runFor_legal`).
-/

namespace TeachAsm

/-- The machine that a record tells of. -/
def Record.machine (record : Record) : Machine :=
  ⟨record.memory, record.registers⟩

/-- The machine after records: that of the last one, and at the start the image
without registers. -/
def Program.machineAfter (program : Program) (records : List Record) : Machine :=
  (records.getLast?.map Record.machine).getD { memory := program.image }

/-- **A record tells of a slot of the program**, executed on a machine without a
fault. -/
structure Record.Tells (program : Program) (before : Machine) (slot : Slot) (record : Record) :
    Prop where
  slot_eq : program.slots[record.counter]? = some slot
  text_eq : record.text = slot.text
  name_eq : record.name = slot.instruction.opcode.name.toList
  executed : ∃ events control, slot.instruction.execute ⟨program.labels, slot.line⟩ before =
    (record.machine, ⟨events, .ok control⟩)

/-- **Where a slot leads**: a branch that is taken under the flag, to the one slot
that declares its label, and any other slot but a halt to the slot behind it. -/
structure Slot.Leads (program : Program) (flag : Option Flag) (slot : Slot) (counter next : Nat) :
    Prop where
  not_halt : slot.instruction.opcode ≠ .halt
  next_eq : slot.instruction.target? flag = none → next = counter + 1
  declared_iff : ∀ name, slot.instruction.target? flag = some name → ∀ place,
    (∃ other, program.slots[place]? = some other ∧ other.instruction = ⟨.label, [.label name]⟩) ↔
      place = next

/-- **Records that a run of a program may make**, one after the other. -/
structure Program.Legal (program : Program) (records : List Record) : Prop where
  tells : ∀ {front record back}, records = front ++ record :: back →
    record.operations = front.length + 1 ∧
      ∃ slot, record.Tells program (program.machineAfter front) slot
  counter_eq_zero : ∀ {record back}, records = record :: back → record.counter = 0
  leads : ∀ {front record next back slot}, records = front ++ record :: next :: back →
    program.slots[record.counter]? = some slot →
      slot.Leads program (program.machineAfter front).registers.flag record.counter next.counter

/-! ## One stride -/

namespace Stride

variable {program : Program} (stride : Stride program)

theorem slot_eq : program.slots[stride.before.counter]? = some stride.slot :=
  (Execution.current?_eq_some_iff.1 stride.current).1

theorem result_evaluate :
    (stride.slot.instruction.evaluate ⟨program.labels, stride.slot.line⟩
      stride.before.machine).result = .ok (stride.effect, stride.control) :=
  (Execution.current?_eq_some_iff.1 stride.current).2 ▸ stride.result

theorem machine_record : stride.record.machine = stride.after.machine :=
  stride.machine_after.symm

/-- **A stride tells of its slot.** -/
theorem tells : stride.record.Tells program stride.before.machine stride.slot where
  slot_eq := stride.slot_eq
  text_eq := rfl
  name_eq := rfl
  executed := ⟨_, _, Instruction.execute_of_ok stride.result_evaluate⟩

/-- **A stride goes where its slot leads**, if it goes on. -/
theorem leads (hwf : program.WellFormed) (hactive : stride.after.state = .active) :
    stride.slot.Leads program stride.before.machine.registers.flag stride.before.counter
      stride.after.counter := by
  have hshape := hwf.shaped stride.slot (Array.mem_of_getElem? stride.slot_eq)
  rw [after] at hactive ⊢
  rcases hshape.control_of_evaluate stride.result_evaluate with
    ⟨hop, htarget, hcontrol⟩ | ⟨hop, name, place, htarget, hplace, hcontrol⟩ | ⟨-, hcontrol⟩
  · rw [hcontrol]
    refine ⟨hop, fun _ => rfl, fun name hname => ?_⟩
    rw [htarget] at hname
    cases hname
  · rw [hcontrol]
    refine ⟨hop, fun hnone => ?_, fun name' hname place' => ?_⟩
    · rw [htarget] at hnone
      cases hnone
    · obtain rfl := Option.some.inj (htarget.symm.trans hname)
      rw [← hwf.slot?_eq_some_iff_label, hplace, Option.some.injEq]
      exact eq_comm
  · rw [hcontrol] at hactive
    cases hactive

/-- **A stride that does not go on** halts at a slot that halts, or finishes at the
last slot. -/
theorem ends (hwf : program.WellFormed) (hover : stride.after.state ≠ .active) :
    (stride.after.state = .halted ∧ stride.slot.instruction.opcode = .halt) ∨
      (stride.after.state = .finished ∧ stride.slot.instruction.opcode ≠ .halt ∧
        stride.before.counter + 1 = program.size) := by
  have hshape := hwf.shaped stride.slot (Array.mem_of_getElem? stride.slot_eq)
  have hactive : (stride.before.commit stride.effect).state = .active := stride.active
  have hlt : stride.before.counter < program.size :=
    (Array.getElem?_eq_some_iff.1 stride.slot_eq).1
  -- going to a slot of the program leaves the execution active
  have hgoto {place : Nat} (hplace : place < program.size) :
      ((stride.before.commit stride.effect).goto program.size place).state = .active := by
    rw [Execution.goto, if_pos hplace, hactive]
  rw [after] at hover ⊢
  rcases hshape.control_of_evaluate stride.result_evaluate with
    ⟨hop, -, hcontrol⟩ | ⟨-, name, place, -, hplace, hcontrol⟩ | ⟨hop, hcontrol⟩
  · rw [hcontrol] at hover ⊢
    have hnot : ¬ stride.before.counter + 1 < program.size := fun h => hover (hgoto h)
    exact .inr ⟨if_neg hnot, hop, by omega⟩
  · obtain ⟨other, hother, -⟩ := hwf.slot?_eq_some_iff.1 hplace
    rw [hcontrol] at hover
    exact absurd (hgoto (Array.getElem?_eq_some_iff.1 hother).1) hover
  · rw [hcontrol]
    exact .inl ⟨rfl, hop⟩

end Stride

/-! ## A trail -/

section Trail

variable {program : Program} {e : Execution} {strides : List (Stride program)}

/-- The last record of a trail tells of the machine at its end. -/
theorem Trail.machine_eq (h : Trail program (.start program) strides e) :
    program.machineAfter (strides.map Stride.record) = e.machine := by
  rcases strides.eq_nil_or_concat' with rfl | ⟨front, stride, rfl⟩
  · obtain rfl := nil_iff.1 h
    rfl
  · obtain ⟨-, rfl⟩ := concat_iff.1 h
    rw [Program.machineAfter, List.map_append, List.map_singleton, List.getLast?_concat]
    exact stride.machine_record

/-- **The records of a trail are legal.** -/
theorem Trail.legal (h : Trail program (.start program) strides e) (hwf : program.WellFormed) :
    program.Legal (strides.map Stride.record) := by
  refine ⟨fun {front record back} hsplit => ?_, fun {record back} hsplit => ?_,
    fun {front record next back slot} hsplit hslot => ?_⟩
  · obtain ⟨before, stride, after, rfl, rfl, rfl, rfl⟩ :=
      Stride.exists_append_of_map_record hsplit
    obtain ⟨_, hfront, hback⟩ := append_iff.1 h
    obtain ⟨rfl, -⟩ := cons_iff.1 hback
    have hoperations : stride.before.operations = 0 + before.length := hfront.operations_eq
    rw [Nat.zero_add] at hoperations
    rw [hfront.machine_eq, List.length_map, ← hoperations]
    exact ⟨rfl, stride.slot, stride.tells⟩
  · obtain ⟨stride, _, rfl, rfl, rfl⟩ := List.map_eq_cons_iff.1 hsplit
    exact congrArg Execution.counter (cons_iff.1 h).1
  · obtain ⟨before, stride, rest, rfl, rfl, rfl, hrest⟩ :=
      Stride.exists_append_of_map_record hsplit
    obtain ⟨other, _, rfl, rfl, rfl⟩ := List.map_eq_cons_iff.1 hrest
    obtain ⟨_, hfront, hback⟩ := append_iff.1 h
    obtain ⟨rfl, hrest⟩ := cons_iff.1 hback
    have hother : other.before = stride.after := (cons_iff.1 hrest).1
    obtain rfl : stride.slot = slot := Option.some.inj (stride.slot_eq.symm.trans hslot)
    have hleads := stride.leads hwf (hother ▸ other.active)
    rw [hfront.machine_eq]
    rwa [← hother] at hleads

/-- **The last record of a trail that is over** tells of a halt just when the
execution has halted, and of the last slot when it has finished. -/
theorem Trail.ends (h : Trail program (.start program) strides e) (hwf : program.WellFormed)
    (hover : e.state ≠ .active) :
    (e.state = .halted ↔ ∃ last ∈ (strides.map Stride.record).getLast?, ∃ slot,
        program.slots[last.counter]? = some slot ∧ slot.instruction.opcode = .halt) ∧
      (e.state ≠ .halted → e.state = .finished ∧
        ((∃ last ∈ (strides.map Stride.record).getLast?, last.counter + 1 = program.size) ∨
          strides = [] ∧ program.size = 0)) := by
  rcases strides.eq_nil_or_concat' with rfl | ⟨front, last, rfl⟩
  · obtain rfl := nil_iff.1 h
    have hsize : program.size = 0 := Decidable.not_not.1 fun hne => hover (if_neg hne)
    have hstate : (Execution.start program).state = .finished := if_pos hsize
    rw [hstate]
    exact ⟨by simp, fun _ => ⟨rfl, .inr ⟨rfl, hsize⟩⟩⟩
  · obtain ⟨-, rfl⟩ := concat_iff.1 h
    have hlast : ((front ++ [last]).map Stride.record).getLast? = some last.record := by simp
    rw [hlast]
    rcases last.ends hwf hover with ⟨hstate, hop⟩ | ⟨hstate, hop, hsize⟩
    · refine ⟨⟨fun _ => ⟨_, rfl, _, last.slot_eq, hop⟩, fun _ => hstate⟩, fun hnot => ?_⟩
      exact absurd hstate hnot
    · rw [hstate]
      refine ⟨⟨nofun, ?_⟩, fun _ => ⟨rfl, .inl ⟨_, rfl, hsize⟩⟩⟩
      rintro ⟨_, hmem, slot, hslot, hhalt⟩
      obtain rfl := Option.mem_some_iff.1 hmem
      obtain rfl := Option.some.inj (last.slot_eq.symm.trans hslot)
      exact absurd hhalt hop

end Trail

/-! ## A run -/

namespace Session

variable {σ : Type} {program : Program} {tracer : Tracer σ}

/-- **The records of a run can be replayed.** Whatever the limit, and whether the
run has come to its end, to a fault, or only so far, they are legal. A run that
stops has counted them, and reports that the program halted just when the last
of them tells of a halt; otherwise that one tells of the last slot, or there are
neither records nor slots. -/
theorem runFor_legal {source : Text} (hload : (Program.ofSource source).result = .ok program)
    (hreliable : tracer.Reliable) (limit : Option Nat) (rounds : Nat) (trace : σ)
    (log : Array Event) :
    let ended := (start program (trace, []) log).runFor program limit tracer.transcript rounds
    let records := ended.1.trace.2
    program.Legal records ∧
      ∀ outcome, ended.2 = some (.ok outcome) →
        outcome.operations = records.length ∧
          (outcome.state = .halted ↔ ∃ last ∈ records.getLast?, ∃ slot,
            program.slots[last.counter]? = some slot ∧ slot.instruction.opcode = .halt) ∧
          (outcome.state ≠ .halted → outcome.state = .finished ∧
            ((∃ last ∈ records.getLast?, last.counter + 1 = program.size) ∨
              records = [] ∧ program.size = 0)) := by
  intro ended records
  have hwf := Program.wellFormed_of_ofSource hload
  obtain ⟨strides, e, ending, hcomes⟩ :=
    (Execution.sound_start program).exists_comes hwf limit rounds
  obtain ⟨hresult, -, hrecords⟩ :=
    transcript_runFor_of_comes (s := start program (trace, []) log) hcomes
      (hreliable.takes trace _)
  have htrail := hcomes.stretch.trail
  have hshown : records = strides.map Stride.record := hrecords
  refine ⟨hshown ▸ htrail.legal hwf, fun outcome hok => ?_⟩
  obtain rfl : ending = some (.ok outcome) := hresult.symm.trans hok
  obtain ⟨hover, rfl⟩ : e.state ≠ .active ∧ outcome = e.outcome := by
    cases hcomes with
    | stopped _ _ hstops =>
      cases hstops with
      | atEnd hend =>
        cases hend with
        | stopped hover => exact ⟨hover, rfl⟩
  have hoperations : e.operations = 0 + strides.length := htrail.operations_eq
  rw [hshown, List.map_eq_nil_iff, List.length_map, ← Nat.zero_add strides.length, ← hoperations]
  exact ⟨rfl, htrail.ends hwf hover⟩

/-- A program that branches to a label and halts there: three records, and the slot
in between has none. -/
theorem runFor_legal_branch :
    let program : Program :=
      { image := ⟨#[]⟩
        slots := #[⟨2, "B end".toList, ⟨.branch .always, [.label "end".toList]⟩⟩,
          ⟨3, "MOV R0, #1".toList, ⟨.copy, [.register 0, .operand (.immediate 1)]⟩⟩,
          ⟨4, "end:".toList, ⟨.label, [.label "end".toList]⟩⟩,
          ⟨5, "HALT".toList, ⟨.halt, []⟩⟩]
        labels := ⟨[⟨"end".toList, 2, 4⟩]⟩ }
    let ended := (start program (#[], []) #[]).runFor program none Tracer.steps.transcript 4
    (Program.ofSource "[]\nB end\nMOV R0, #1\nend:\nHALT".toList).result = .ok program ∧
      Tracer.steps.Reliable ∧ ended.2 = some (.ok ⟨.halted, 3⟩) ∧
      ended.1.trace.2.map Record.counter = [0, 2, 3] ∧ program.Legal ended.1.trace.2 ∧
      ∃ last ∈ ended.1.trace.2.getLast?, ∃ slot, program.slots[last.counter]? = some slot ∧
        slot.instruction.opcode = .halt := by
  intro program ended
  have hload : (Program.ofSource "[]\nB end\nMOV R0, #1\nend:\nHALT".toList).result =
      .ok program := by decide +kernel
  have hresult : ended.2 = some (.ok ⟨.halted, 3⟩) := by decide +kernel
  obtain ⟨hlegal, hends⟩ := runFor_legal hload Tracer.reliable_steps none 4 #[] #[]
  obtain ⟨-, hhalted, -⟩ := hends _ hresult
  exact ⟨hload, Tracer.reliable_steps, hresult, by decide +kernel, hlegal, hhalted.1 rfl⟩

end Session

end TeachAsm
