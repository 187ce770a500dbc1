import TeachAsm.Proofs.Execution.Faults
import TeachAsm.Proofs.Execution.History
import TeachAsm.Proofs.Instruction.Warnings
import TeachAsm.Proofs.Instruction.Writes
/-!
# The flag is the last comparison

At every point of a history the flag is unset, if nothing has been compared yet, or
else it is the order of the two words that the last comparison read, as they were
then (`Program.Replays.flag_of_last`). Nothing else sets it, however far back the comparison
is and whatever has been written since. A branch asks the flag and leaves it: when
its condition is met it goes to its label, or fails for want of one, and otherwise it
goes on to the next slot without asking for the label (`Session.flag_of_history`).
-/

namespace TeachAsm

variable {program : Program} {records front back : List Record} {record : Record}

/-- What a record's instruction compares, if it is a comparison. -/
def Program.compared? (program : Program) (record : Record) : Option (Register × Operand) :=
  (program.instruction? record).bind Instruction.comparison?

namespace Program

/-! ## The flag after records -/

/-- One more record leaves the flag that its comparison finds, or the flag there was. -/
theorem Replays.flag_concat (h : program.Replays (records ++ [record]))
    (hwf : program.WellFormed) :
    (program.machineAfter (records ++ [record])).registers.flag =
      ((program.compared? record).map fun (n, o) =>
          Flag.compare ((program.machineAfter records).registers.get n)
            ((program.machineAfter records).value o)).or
        (program.machineAfter records).registers.flag := by
  obtain ⟨i, around, effect, control, hi, hshape, hresult, hmachine⟩ := h.exists_effect hwf
  rw [machineAfter_concat, hmachine, Effect.flag_apply, (hshape.writes_of_evaluate hresult).1,
    compared?, hi, Option.bind_some]

/-- **Records without a comparison leave the flag as it was.** -/
theorem Replays.flag_append (h : program.Replays (front ++ back)) (hwf : program.WellFormed)
    (hback : ∀ later ∈ back, program.compared? later = none) :
    (program.machineAfter (front ++ back)).registers.flag =
      (program.machineAfter front).registers.flag := by
  induction back using List.reverseRecOn with
  | nil => rw [List.append_nil]
  | append_singleton back last ih =>
    rw [← List.append_assoc] at h ⊢
    rw [h.flag_concat hwf, hback last (by simp), Option.map_none, Option.none_or]
    exact ih (replays_concat_iff.1 h).1 fun later hlater => hback later (by simp [hlater])

/-- Without a comparison the flag is unset. -/
theorem Replays.flag_eq_none (h : program.Replays records) (hwf : program.WellFormed)
    (hrecords : ∀ record ∈ records, program.compared? record = none) :
    (program.machineAfter records).registers.flag = none := by
  have hfrom : program.Replays ([] ++ records) := h
  exact hfrom.flag_append hwf hrecords

/-- **The flag is the order that the last comparison found**, in what it read then. -/
theorem Replays.flag_of_last (h : program.Replays (front ++ record :: back))
    (hwf : program.WellFormed) {n : Register} {o : Operand}
    (hrecord : program.compared? record = some (n, o))
    (hback : ∀ later ∈ back, program.compared? later = none) (flag : Flag) :
    (program.machineAfter (front ++ record :: back)).registers.flag = some flag ↔
      flag.Orders ((program.machineAfter front).registers.get n)
        ((program.machineAfter front).value o) := by
  rw [List.append_cons] at h ⊢
  have hhere : program.Replays (front ++ [record]) :=
    fun _ _ _ hsplit => h (by rw [hsplit, List.append_assoc, List.cons_append])
  rw [h.flag_append hwf hback, hhere.flag_concat hwf, hrecord, Option.map_some, Option.some_or,
    Option.some_inj, Flag.compare_eq_iff]

end Program

/-! ## Branches -/

namespace Session

variable {σ : Type}

/-- **A step goes on to a place**: it leaves the machine as it was and tells where it
goes. When its record is taken, the slot is counted, and execution is at the place,
or over if there is no slot. -/
structure GoesTo (program : Program) (tracer : Tracer σ) (s : Session σ) (slot : Slot) (place : Nat)
    (control : Control) : Prop where
  log_eq : (s.step program tracer).1.log =
    s.log ++ [Event.stepped s.execution.counter slot.line slot.text control]
  machine_eq : (s.step program tracer).1.execution.machine = s.execution.machine
  next_eq : (tracer.record (s.execution.count.record slot) s.trace).2 = true →
    (s.step program tracer).1.execution =
        { s.execution with
          counter := place
          operations := s.execution.operations + 1
          state := if place < program.size then .active else .finished } ∧
      (s.step program tracer).2 = .ok (if place < program.size then .active else .finished)

section Branch

variable {tracer : Tracer σ} {s : Session σ} {slot : Slot} {condition : Condition}
variable {name : Text}
variable (hactive : s.execution.state = .active)
variable (hslot : program.slots[s.execution.counter]? = some slot)
variable (hbranch : slot.instruction = ⟨.branch condition, [.label name]⟩)

include hbranch

/-- A branch tells nothing but where it goes. -/
theorem events_of_branch :
    (slot.instruction.evaluate ⟨program.labels, slot.line⟩ s.execution.machine).events = [] := by
  have hshape : slot.instruction.Shaped := hbranch ▸ .branch condition name
  rw [hshape.events_evaluate, hbranch]
  rfl

include hactive hslot

/-- A branch that does not fail goes on. -/
theorem goesTo_of_branch {place : Nat} {control : Control}
    (hresult : (slot.instruction.evaluate ⟨program.labels, slot.line⟩
      s.execution.machine).result = .ok (.none, control))
    (hplace : s.execution.count.advance program.size control =
      s.execution.count.goto program.size place) :
    s.GoesTo program tracer slot place control := by
  let stride : Stride program :=
    { before := s.execution, slot, report := _, effect := .none, control, active := hactive
      current := Execution.current?_eq_some_iff.2 ⟨hslot, rfl⟩, result := hresult }
  have hevents : stride.events = [.stepped s.execution.counter slot.line slot.text control] :=
    congrArg (· ++ _) (events_of_branch hbranch)
  have hafter : stride.after =
      { s.execution with
        counter := place
        operations := s.execution.operations + 1
        state := if place < program.size then .active else .finished } := by
    refine hplace.trans ?_
    rw [Execution.goto, Execution.count, hactive]
  have hstep := @step_of_stride_eq_ite _ _ tracer s stride rfl
  refine ⟨?_, ?_, fun htaken => ?_⟩
  · rw [hstep, ← hevents]
    split <;> rfl
  · rw [hstep]
    split
    · exact stride.machine_after
    · rfl
  · have htaken' : (tracer.record stride.record s.trace).2 = true := htaken
    rw [hstep, if_pos htaken', ← hafter, make]
    exact ⟨rfl, congrArg (fun e => Except.ok e.state) hafter⟩

/-- A branch that is taken goes to the slot of its label. -/
theorem goesTo_of_taken (hmet : condition.Met s.execution.machine.registers.flag)
    {place : Nat} (hplace : program.labels.slot? name = some place) :
    s.GoesTo program tracer slot place (.jump place) := by
  refine goesTo_of_branch hactive hslot hbranch ?_ rfl
  rw [hbranch, Instruction.result_evaluate_branch, if_pos (Condition.holds_iff.2 hmet), hplace]

/-- A branch that is not taken goes to the next slot, whatever its label is. -/
theorem goesTo_of_untaken (hnot : ¬ condition.Met s.execution.machine.registers.flag) :
    s.GoesTo program tracer slot (s.execution.counter + 1) .next := by
  refine goesTo_of_branch hactive hslot hbranch ?_ rfl
  rw [hbranch, Instruction.result_evaluate_branch, if_neg (hnot ∘ Condition.holds_iff.1)]

/-- A branch that is taken fails when its label stands for no slot. -/
theorem step_of_undeclared (hmet : condition.Met s.execution.machine.registers.flag)
    (hnone : program.labels.slot? name = none) :
    s.step program tracer = (s, .error (.undeclaredLabel slot.line name)) := by
  have hresult : (slot.instruction.evaluate ⟨program.labels, slot.line⟩
      s.execution.machine).result = .error (.undeclaredLabel slot.line name) := by
    rw [hbranch, Instruction.result_evaluate_branch, if_pos (Condition.holds_iff.2 hmet), hnone]
  rw [step_of_fault hactive (Execution.current?_eq_some_iff.2 ⟨hslot, rfl⟩) hresult,
    events_of_branch hbranch, note_nil]

end Branch

/-- **The flag is the last comparison, and branches ask it.** At every point of a
history the flag is unset if nothing has been compared. Otherwise it is the order, as
signed numbers, of the two words that the last comparison read when it was executed.
A branch whose condition the flag meets goes to the slot that declares its label, or
fails when there is none; one whose condition it does not meet goes to the next slot. -/
theorem flag_of_history {source : Text} (hload : (Program.ofSource source).result = .ok program)
    {e : Execution} (h : Execution.History program e records) :
    ((∀ record ∈ records, program.compared? record = none) →
      e.machine.registers.flag = none) ∧
    (∀ front record back n o, records = front ++ record :: back →
      program.compared? record = some (n, o) →
      (∀ later ∈ back, program.compared? later = none) →
        ∀ flag, e.machine.registers.flag = some flag ↔
          flag.Orders ((program.machineAfter front).registers.get n)
            ((program.machineAfter front).value o)) ∧
    ∀ slot condition name, e.state = .active → program.slots[e.counter]? = some slot →
      slot.instruction = ⟨.branch condition, [.label name]⟩ →
        ∀ {σ : Type} (tracer : Tracer σ) (s : Session σ), s.execution = e →
          (condition.Met e.machine.registers.flag →
            (∀ place, (∃ other, program.slots[place]? = some other ∧
                other.instruction = ⟨.label, [.label name]⟩) →
              s.GoesTo program tracer slot place (.jump place)) ∧
            ((∀ other ∈ program.slots, other.instruction ≠ ⟨.label, [.label name]⟩) →
              s.step program tracer = (s, .error (.undeclaredLabel slot.line name)))) ∧
          (¬ condition.Met e.machine.registers.flag →
            s.GoesTo program tracer slot (e.counter + 1) .next) := by
  have hwf := Program.wellFormed_of_ofSource hload
  refine ⟨fun hnone => ?_, fun front record back n o hsplit hrecord hback flag => ?_,
    fun slot condition name hactive hslot hbranch σ tracer s hs => ?_⟩
  · rw [← h.machine_eq]
    exact h.replays.flag_eq_none hwf hnone
  · rw [← h.machine_eq]
    subst hsplit
    exact h.replays.flag_of_last hwf hrecord hback flag
  · subst hs
    refine ⟨fun hmet => ⟨fun place hplace => ?_, fun hnone => ?_⟩, fun hnot => ?_⟩
    · exact goesTo_of_taken hactive hslot hbranch hmet (hwf.slot?_eq_some_iff_label.2 hplace)
    · exact step_of_undeclared hactive hslot hbranch hmet
        ((Execution.slot?_eq_none_iff hwf).2 hnone)
    · exact goesTo_of_untaken hactive hslot hbranch hnot

/-- A program that compares the least word with the greatest one and then overwrites
the least. The flag is still that of the comparison, and a branch to a label that
nobody declares is not taken, and does not fail. -/
theorem flag_of_history_extremes :
    let program : Program :=
      { image := ⟨#[]⟩
        slots := #[⟨2, "MOV R0, #2147483647".toList,
            ⟨.copy, [.register 0, .operand (.immediate 2147483647)]⟩⟩,
          ⟨3, "MVN R1, R0".toList, ⟨.complement, [.register 1, .operand (.register 0)]⟩⟩,
          ⟨4, "CMP R1, R0".toList, ⟨.compare, [.register 1, .operand (.register 0)]⟩⟩,
          ⟨5, "MOV R1, R0".toList, ⟨.copy, [.register 1, .operand (.register 0)]⟩⟩,
          ⟨6, "BGT nowhere".toList, ⟨.branch .greater, [.label "nowhere".toList]⟩⟩]
        labels := {} }
    let ended :=
      (continued (.start program) () [] #[]).runFor program none Tracer.silent.transcript 4
    let e := ended.1.execution
    let slot := program.slots[4]
    (Program.ofSource
        "[]\nMOV R0, #2147483647\nMVN R1, R0\nCMP R1, R0\nMOV R1, R0\nBGT nowhere".toList).result =
      .ok program ∧ Execution.History program e ended.1.trace.2 ∧
      ended.1.trace.2.map program.compared? = [none, none, some (1, .register 0), none] ∧
      Flag.less.Orders (-2147483648) 2147483647 ∧ e.machine.registers.flag = some .less ∧
      e.state = .active ∧ program.slots[e.counter]? = some slot ∧
      slot.instruction = ⟨.branch .greater, [.label "nowhere".toList]⟩ ∧
      ¬ Condition.greater.Met e.machine.registers.flag ∧
      (⟨e, (), #[]⟩ : Session Unit).GoesTo program .silent slot 5 .next := by
  intro program ended e slot
  have hload : (Program.ofSource
      "[]\nMOV R0, #2147483647\nMVN R1, R0\nCMP R1, R0\nMOV R1, R0\nBGT nowhere".toList).result =
        .ok program := by decide +kernel
  have hhistory : Execution.History program e ended.1.trace.2 :=
    @Execution.History.run program Unit _ _ .start none .silent () #[] 4
  have hcompared : ended.1.trace.2.map program.compared? =
      [none, none, some (1, .register 0), none] := by decide +kernel
  obtain ⟨-, hlast, hbranches⟩ := flag_of_history hload hhistory
  let third : Record :=
    ⟨2, 3, "CMP R1, R0".toList, "Compare".toList, ⟨#[]⟩,
      ⟨[(0, 2147483647), (1, -2147483648)], by decide, some .less⟩⟩
  have hsplit : ended.1.trace.2 = ended.1.trace.2.take 2 ++ third :: ended.1.trace.2.drop 3 := by
    decide +kernel
  have hflag : e.machine.registers.flag = some .less :=
    (hlast _ third _ 1 (.register 0) hsplit (by decide +kernel) (by decide +kernel) .less).2
      (by decide +kernel)
  have hactive : e.state = .active := by decide +kernel
  have hslot : program.slots[e.counter]? = some slot := by decide +kernel
  have hnot : ¬ Condition.greater.Met e.machine.registers.flag := by
    rw [hflag]
    decide
  obtain ⟨-, huntaken⟩ :=
    hbranches slot .greater "nowhere".toList hactive hslot rfl .silent ⟨e, (), #[]⟩ rfl
  exact ⟨hload, hhistory, hcompared, by decide, hflag, hactive, hslot, rfl, hnot, huntaken hnot⟩

end Session

end TeachAsm
