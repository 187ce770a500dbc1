import TeachAsm.Proofs.Execution.History
import TeachAsm.Proofs.Instruction.Warnings
import TeachAsm.Proofs.Instruction.Writes
import TeachAsm.Proofs.Program.Log
/-!
# What a run logs

The records of a run tell its log. Of each record the log is told what its slot warns
of, which is a matter of the records in front of it (`Program.warningsAt`): of the
registers that it reads and none of them has written, and of its address. Then it is
told that the slot has been executed, and where it leads (`Program.told`). One step adds
just that (`Session.Replayed.logs_step`), so that the log of a run is told by its
records, one after the other, and after them by what its last slot warns of, if it
fails, or that the program has stopped (`Session.Replayed.logs_runFor`). Loading has
logged before (`Run.log_ofSource`).
-/

namespace TeachAsm

/-! ## One instruction -/

/-- The warnings of an instruction when some registers have been written, and memory
has some size: of its unwritten sources in order, and then of its address. -/
def Instruction.warnings (i : Instruction) (written : List Register) (size : Nat) : List Event :=
  (i.sources.filter (· ∉ written)).map .unsetRegister ++ i.memoryWarnings size

theorem Instruction.isWarning_of_mem_warnings {i : Instruction} {written : List Register}
    {size : Nat} {event : Event} (h : event ∈ i.warnings written size) : event.isWarning := by
  rcases List.mem_append.1 h with h | h
  · obtain ⟨r, -, rfl⟩ := List.mem_map.1 h
    rfl
  · exact isWarning_of_mem_memoryWarnings h

/-- Where an instruction leads that does not fail. -/
def Instruction.control (labels : Labels) (flag : Option Flag) (i : Instruction) : Control :=
  match (i.target? flag).bind labels.slot? with
  | some slot => .jump slot
  | none => if i.opcode = .halt then .halt else .next

theorem Instruction.Shaped.control_eq {i : Instruction} {around : Surroundings}
    {machine : Machine} {effect : Effect} {control : Control} (h : i.Shaped)
    (hresult : (i.evaluate around machine).result = .ok (effect, control)) :
    control = i.control around.labels machine.registers.flag := by
  rcases h.control_of_evaluate hresult with
    ⟨hop, htarget, rfl⟩ | ⟨-, name, slot, htarget, hslot, rfl⟩ | ⟨hop, rfl⟩
  · simp [Instruction.control, htarget, hop]
  · simp [Instruction.control, htarget, hslot]
  · obtain ⟨op, captures⟩ := i
    obtain rfl : op = .halt := hop
    rfl

/-- **A jump is a branch that is taken**, to the slot of its label. -/
theorem Instruction.control_eq_jump_iff {i : Instruction} {labels : Labels} {flag : Option Flag}
    {slot : Nat} : i.control labels flag = .jump slot ↔
      ∃ name, i.target? flag = some name ∧ labels.slot? name = some slot := by
  rw [← Option.bind_eq_some_iff]
  unfold Instruction.control
  split
  · next place hplace => simp [hplace]
  · next hnone => split <;> simp [hnone]

/-! ## Records -/

namespace Program

/-- The registers that the instructions of some records write. -/
def written (program : Program) (records : List Record) : List Register :=
  records.filterMap fun record => (program.instruction? record).bind Instruction.destination?

/-- The warnings of the slot at a place, after some records. -/
def warningsAt (program : Program) (records : List Record) (place : Nat) : List Event :=
  match program.slots[place]? with
  | some slot =>
    slot.instruction.warnings (program.written records) (program.machineAfter records).memory.size
  | none => []

/-- The warnings of records, one after the other, when others stand before them. -/
def warnings (program : Program) : List Record → List Record → List Event
  | _, [] => []
  | before, record :: records =>
    program.warningsAt before record.counter ++ program.warnings (before ++ [record]) records

/-- The warnings of the slot that a run fails at: only a store that goes past the
limit has any. -/
def faultWarnings (program : Program) (records : List Record) (place : Nat) :
    Option (Except Fault Outcome) → List Event
  | some (.error (.addressOutOfRange ..)) => program.warningsAt records place
  | _ => []

/-- What the log is told of a slot that has been executed, after some records: where it
stands and where it leads. -/
def stepped (program : Program) (before : List Record) (record : Record) : List Event :=
  match program.slots[record.counter]? with
  | some slot =>
    [.stepped record.counter slot.line record.text
      (slot.instruction.control program.labels (program.machineAfter before).registers.flag)]
  | none => []

/-- What the log is told of records but for warnings, when others stand before them. -/
def steps (program : Program) : List Record → List Record → List Event
  | _, [] => []
  | before, record :: records =>
    program.stepped before record ++ program.steps (before ++ [record]) records

/-- **What the log is told of records**, one after the other, when others stand before
them: what a slot warns of, and then that it has been executed. -/
def told (program : Program) : List Record → List Record → List Event
  | _, [] => []
  | before, record :: records =>
    program.warningsAt before record.counter ++ program.stepped before record ++
      program.told (before ++ [record]) records

variable {program : Program} {before records : List Record} {record : Record} {r : Register}
variable {e : Execution} {slot : Slot} {report : Report (Effect × Control)}

theorem told_append (program : Program) (before records others : List Record) :
    program.told before (records ++ others) =
      program.told before records ++ program.told (before ++ records) others := by
  induction records generalizing before with
  | nil => simp [told]
  | cons record records ih =>
    rw [List.cons_append, told, ih, told, List.append_assoc _ [record], List.singleton_append,
      List.append_assoc (_ ++ _)]

theorem isWarning_of_mem_warningsAt {place : Nat} {event : Event}
    (h : event ∈ program.warningsAt before place) : event.isWarning := by
  unfold warningsAt at h
  split at h
  · exact Instruction.isWarning_of_mem_warnings h
  · cases h

theorem isWarning_of_mem_faultWarnings {place : Nat} {result : Option (Except Fault Outcome)}
    {event : Event} (h : event ∈ program.faultWarnings before place result) :
    event.isWarning := by
  unfold faultWarnings at h
  split at h
  · exact isWarning_of_mem_warningsAt h
  · cases h

theorem isWarning_of_mem_stepped {event : Event} (h : event ∈ program.stepped before record) :
    event.isWarning = false := by
  unfold stepped at h
  split at h
  · rw [List.mem_singleton.1 h]
    rfl
  · cases h

/-- The warnings in what the log is told. -/
theorem filter_isWarning_told (program : Program) (before records : List Record) :
    (program.told before records).filter Event.isWarning = program.warnings before records := by
  induction records generalizing before with
  | nil => rfl
  | cons record records ih =>
    have hwarnings : (program.warningsAt before record.counter).filter Event.isWarning =
        program.warningsAt before record.counter :=
      List.filter_eq_self.2 fun _ => isWarning_of_mem_warningsAt
    have hstepped : (program.stepped before record).filter Event.isWarning = [] :=
      List.filter_eq_nil_iff.2 fun event hevent => by
        simp [isWarning_of_mem_stepped hevent]
    rw [told, List.filter_append, List.filter_append, hwarnings, hstepped, ih, List.append_nil,
      warnings]

/-- And what else there is. -/
theorem filter_not_isWarning_told (program : Program) (before records : List Record) :
    (program.told before records).filter (fun event => !event.isWarning) =
      program.steps before records := by
  induction records generalizing before with
  | nil => rfl
  | cons record records ih =>
    have hwarnings : (program.warningsAt before record.counter).filter
        (fun event => !event.isWarning) = [] :=
      List.filter_eq_nil_iff.2 fun event hevent => by
        simp [isWarning_of_mem_warningsAt hevent]
    have hstepped : (program.stepped before record).filter (fun event => !event.isWarning) =
        program.stepped before record :=
      List.filter_eq_self.2 fun event hevent => by simp [isWarning_of_mem_stepped hevent]
    rw [told, List.filter_append, List.filter_append, hwarnings, hstepped, ih, List.nil_append,
      steps]

/-- **A register exists just when it has been written.** -/
theorem Replays.isSome_get?_iff (h : program.Replays records) (hwf : program.WellFormed) :
    ((program.machineAfter records).registers.get? r).isSome ↔ r ∈ program.written records := by
  induction records using List.reverseRecOn with
  | nil => exact iff_of_false (fun h => nomatch h) List.not_mem_nil
  | append_singleton records record ih =>
    obtain ⟨i, around, effect, control, hi, hshape, hresult, hmachine⟩ := h.exists_effect hwf
    have hwritten : r ∈ program.written (records ++ [record]) ↔
        r ∈ program.written records ∨ i.destination? = some r := by
      simp [written, hi]
    rw [machineAfter_concat, hmachine, Effect.isSome_get?_apply,
      (hshape.writes_of_evaluate hresult).2, ih (replays_concat_iff.1 h).1, hwritten, or_comm]

/-- **What a slot tells of when it is executed is settled by the records**, but for
whether it fails. -/
theorem Replays.events_evaluate (h : program.Replays records) (hwf : program.WellFormed)
    {slot : Slot} (hshape : slot.instruction.Shaped) :
    (slot.instruction.evaluate ⟨program.labels, slot.line⟩ (program.machineAfter records)).events =
      slot.instruction.warnings (program.written records)
        (program.machineAfter records).memory.size := by
  rw [hshape.events_evaluate, Instruction.warnings]
  refine congrArg (· ++ _) (congrArg (List.map _) (List.filter_congr fun r _ => ?_))
  rw [Bool.eq_iff_iff, Option.isNone_iff_eq_none, decide_eq_true_iff, ← h.isSome_get?_iff hwf,
    Option.not_isSome_iff_eq_none]

/-- What a slot warns of that fails, and that no record tells of. -/
theorem faultWarnings_eq (hwf : program.WellFormed) {e : Execution} {slot : Slot}
    {report : Report (Effect × Control)} {fault : Fault}
    (hcurrent : e.current? program = some (slot, report))
    (hresult : report.result = .error fault) (records : List Record) :
    program.faultWarnings records e.counter (some (.error fault)) =
      program.warningsAt records e.counter := by
  obtain ⟨hslot, hshape, rfl⟩ := Execution.shaped_of_current? hwf hcurrent
  rcases hshape.result_evaluate_eq_error_iff.1 hresult with
    ⟨condition, name, hbranch, -, -, rfl⟩ | ⟨r, a, -, -, rfl⟩
  · simp only [warningsAt, hslot, hbranch]
    rfl
  · rfl

theorem steps_append (program : Program) (before records others : List Record) :
    program.steps before (records ++ others) =
      program.steps before records ++ program.steps (before ++ records) others := by
  simp only [← filter_not_isWarning_told, told_append, List.filter_append]

/-- What a slot tells of that is executed next. -/
theorem warningsAt_eq_events (h : program.Replays records) (hwf : program.WellFormed)
    (hmachine : program.machineAfter records = e.machine)
    (hcurrent : e.current? program = some (slot, report)) :
    program.warningsAt records e.counter = report.events := by
  obtain ⟨hslot, hshape, rfl⟩ := Execution.shaped_of_current? hwf hcurrent
  rw [← hmachine, h.events_evaluate hwf hshape]
  simp only [warningsAt, hslot]

/-- **A stride tells what its record does.** -/
theorem told_singleton (h : program.Replays records) (hwf : program.WellFormed)
    (stride : Stride program) (hmachine : program.machineAfter records = stride.before.machine) :
    program.told records [stride.record] = stride.events := by
  have hshape := hwf.shaped stride.slot (Array.mem_of_getElem? stride.slot_eq)
  have hcontrol := hshape.control_eq stride.result_evaluate
  have hcounter : stride.record.counter = stride.before.counter := rfl
  rw [told, told, List.append_nil, Stride.events, stepped, hcounter, stride.slot_eq, hmachine,
    hcontrol, warningsAt_eq_events h hwf hmachine stride.current]
  rfl

/-- Each record is told of once. -/
theorem length_steps (h : program.Replays (before ++ records)) :
    (program.steps before records).length = records.length := by
  induction records generalizing before with
  | nil => rfl
  | cons record records ih =>
    obtain ⟨slot, htells⟩ := h rfl
    rw [List.append_cons] at h
    rw [steps, List.length_append, ih h, List.length_cons, stepped, htells.slot_eq, Nat.add_comm]
    rfl

/-- **The event of a record stands at the place of the record.** -/
theorem getElem?_steps {front back : List Record}
    (h : program.Replays (front ++ record :: back))
    (hslot : program.slots[record.counter]? = some slot) :
    (program.steps [] (front ++ record :: back))[front.length]? =
      some (.stepped record.counter slot.line record.text
        (slot.instruction.control program.labels
          (program.machineAfter front).registers.flag)) := by
  have hfront : (program.steps [] front).length = front.length := length_steps h.of_append
  rw [steps_append, List.nil_append, steps, stepped, hslot, ← hfront,
    List.getElem?_append_right (Nat.le_refl _), Nat.sub_self]
  rfl

end Program

/-! ## Sessions -/

namespace Session

variable {σ : Type} {program : Program} {s mid next : Session (σ × List Record)}
variable {result : Option (Except Fault Outcome)}

/-- What the log is told when a run has come to its end. -/
def stopEvents : Option (Except Fault Outcome) → List Event
  | some (.ok outcome) => [.stopped outcome.state outcome.operations]
  | _ => []

/-- **What is logged between two sessions**: what is told of the records that have been
offered, one after the other, and after it what the slot warns of that a fault is about,
or that execution is over. -/
def Logs (program : Program) (s next : Session (σ × List Record))
    (result : Option (Except Fault Outcome)) : Prop :=
  ∃ later, next.trace.2 = s.trace.2 ++ later ∧
    next.log.toList = s.log.toList ++ program.told s.trace.2 later ++
      program.faultWarnings next.trace.2 next.execution.counter result ++ stopEvents result

/-- Where nothing is offered and no slot fails, no more is logged than the end. -/
theorem Logs.of_eq (htrace : next.trace = s.trace)
    (hlog : next.log.toList = s.log.toList ++ stopEvents result)
    (hresult : program.faultWarnings next.trace.2 next.execution.counter result = []) :
    s.Logs program next result :=
  ⟨[], by rw [htrace, List.append_nil], by simp [hresult, hlog, Program.told]⟩

theorem Logs.trans (h : s.Logs program mid none) (h' : mid.Logs program next result) :
    s.Logs program next result := by
  obtain ⟨later, hrecords, hlog⟩ := h
  obtain ⟨later', hrecords', hlog'⟩ := h'
  refine ⟨later ++ later', by rw [hrecords', hrecords, List.append_assoc], ?_⟩
  have hnone : program.faultWarnings mid.trace.2 mid.execution.counter none = [] := rfl
  have hgoes : stopEvents none = [] := rfl
  rw [hlog', hlog, hnone, hgoes, List.append_nil, List.append_nil, hrecords, Program.told_append]
  simp only [List.append_assoc]

/-- **What one step logs.** -/
theorem Replayed.logs_step (h : s.Replayed program) (hwf : program.WellFormed)
    (hactive : s.execution.state = .active) (tracer : Tracer σ) :
    s.Logs program (s.step program tracer.transcript).1
      (match (s.step program tracer.transcript).2 with
        | .ok _ => none
        | .error fault => some (.error fault)) := by
  rcases step_cases program tracer.transcript s with
    ⟨hover, -⟩ | ⟨-, hstep⟩ | ⟨slot, report, fault, hcurrent, hresult, hstep⟩ |
      ⟨stride, hbefore, hstep⟩
  · exact absurd hactive hover
  · rw [hstep]
    exact .of_eq rfl (List.append_nil _).symm rfl
  · have hwarnings := Program.faultWarnings_eq hwf hcurrent hresult s.trace.2
    rw [Program.warningsAt_eq_events h.replays hwf h.machine_eq hcurrent] at hwarnings
    rw [hstep]
    refine ⟨[], (List.append_nil _).symm, ?_⟩
    have hlog : (s.note report.events).log.toList = s.log.toList ++ report.events :=
      Array.toList_appendList
    rw [hlog, ← hwarnings]
    simp [Program.told, note, stopEvents]
  · have htold := Program.told_singleton h.replays hwf stride (by rw [h.machine_eq, hbefore])
    have hlog : (s.log ++ stride.events).toList =
        s.log.toList ++ program.told s.trace.2 [stride.record] := by
      rw [htold]
      exact Array.toList_appendList
    have hnone (result : Option (Except Fault Outcome)) (place : Nat) (later : List Record)
        (hresult : result = none ∨ result = some (.error .traceFailed)) :
        program.faultWarnings later place result ++ stopEvents result = [] := by
      rcases hresult with rfl | rfl <;> rfl
    rw [hstep]
    -- the record is offered, whether it is taken or refused
    split
    · refine ⟨[stride.record], rfl, ?_⟩
      rw [List.append_assoc _ _ (stopEvents _), hnone _ _ _ (.inl rfl), List.append_nil]
      exact hlog
    · refine ⟨[stride.record], rfl, ?_⟩
      rw [List.append_assoc _ _ (stopEvents _), hnone _ _ _ (.inr rfl), List.append_nil]
      exact hlog

/-- **What a run logs.** -/
theorem Replayed.logs_runFor (h : s.Replayed program) (hwf : program.WellFormed)
    (tracer : Tracer σ) (limit : Option Nat) (rounds : Nat) :
    s.Logs program (s.runFor program limit tracer.transcript rounds).1
      (s.runFor program limit tracer.transcript rounds).2 := by
  induction rounds generalizing s with
  | zero => exact .of_eq rfl (List.append_nil _).symm rfl
  | succ rounds ih =>
    unfold Session.runFor
    split
    · next hactive =>
      split
      · exact .of_eq rfl (List.append_nil _).symm rfl
      · have hreplayed := h.step tracer
        have hlogs := h.logs_step hwf hactive tracer
        rcases hstep : s.step program tracer.transcript with ⟨next, fault | state⟩
        · rw [hstep] at hlogs
          exact hlogs
        · rw [hstep] at hlogs hreplayed
          exact hlogs.trans (ih hreplayed)
    · exact .of_eq rfl Array.toList_appendList rfl

end Session

/-! ## Whole runs -/

/-- Nothing is warned of while a program is loaded. -/
theorem Program.LoadLog.isWarning_eq_false {lines : List Line} {result : Except Fault Program}
    {events : List Event} (h : LoadLog lines result events) :
    ∀ event ∈ events, event.isWarning = false := by
  have hresolved {slots : List (Slot × Nat)} :
      ∀ event ∈ Slot.resolved slots, event.isWarning = false := by
    intro event hevent
    obtain ⟨⟨slot, place⟩, -, hevent⟩ := List.mem_filterMap.1 hevent
    obtain ⟨name, -, rfl⟩ := Option.map_eq_some_iff.1 hevent
    rfl
  cases h with
  | missingImage | malformedImage => simp
  | unknownInstruction => exact List.forall_mem_singleton.2 rfl
  | duplicateLabel => exact List.forall_mem_cons.2 ⟨rfl, hresolved⟩
  | program =>
    exact List.forall_mem_append.2
      ⟨List.forall_mem_cons.2 ⟨rfl, hresolved⟩, List.forall_mem_singleton.2 rfl⟩

/-- Without its warnings, the log of a run has what loading has logged, the events of the
records, and the end. -/
theorem Program.LoadLog.filter_not_isWarning {lines : List Line} {loaded : Except Fault Program}
    {events : List Event} (h : LoadLog lines loaded events) (program : Program)
    (records : List Record) (place : Nat) (result : Option (Except Fault Outcome)) :
    (events ++ program.told [] records ++ program.faultWarnings records place result ++
        Session.stopEvents result).filter (fun event => !event.isWarning) =
      events ++ program.steps [] records ++ Session.stopEvents result := by
  have hevents : events.filter (fun event => !event.isWarning) = events :=
    List.filter_eq_self.2 fun event hevent => by simp [h.isWarning_eq_false event hevent]
  have hfault : (program.faultWarnings records place result).filter
      (fun event => !event.isWarning) = [] :=
    List.filter_eq_nil_iff.2 fun event hevent => by simp [isWarning_of_mem_faultWarnings hevent]
  have hstop : (Session.stopEvents result).filter (fun event => !event.isWarning) =
      Session.stopEvents result := by
    rcases result with _ | _ | _ <;> rfl
  rw [List.filter_append, List.filter_append, List.filter_append, hevents, hfault, hstop,
    filter_not_isWarning_told, List.append_nil]

namespace Run

open Session

variable {σ : Type}

/-- What the log of a run of a loaded program is told, and by which records. -/
theorem log_of_ok {source : Text} {program : Program}
    (hload : (Program.ofSource source).result = .ok program) (limit : Option Nat)
    (tracer : Tracer σ) (trace : σ) :
    let seen := ofSource source limit tracer.transcript (trace, [])
    program.Replays seen.trace.2 ∧
      ∃ ended : Session (σ × List Record),
        (start program (trace, []) (Program.ofSource source).events.toArray).run program limit
          tracer.transcript = (ended, seen.result) ∧
        seen.log.toList = (Program.ofSource source).events ++ program.told [] seen.trace.2 ++
          program.faultWarnings seen.trace.2 ended.execution.counter seen.result ++
            stopEvents seen.result := by
  intro seen
  let first : Session (σ × List Record) :=
    .start program (trace, []) (Program.ofSource source).events.toArray
  let ended := first.run program limit tracer.transcript
  have hseen : seen = ⟨ended.1.trace, ended.1.log, ended.2⟩ :=
    ofSource_of_ok hload limit tracer.transcript (trace, [])
  have hfirst : first.Replayed program := ⟨rfl, Program.replays_nil⟩
  obtain ⟨later, hlater, hlog⟩ :=
    hfirst.logs_runFor (Program.wellFormed_of_ofSource hload) tracer limit (capacity + 1)
  obtain rfl : later = ended.1.trace.2 := hlater.symm
  rw [hseen]
  exact ⟨(hfirst.runFor tracer limit (capacity + 1)).replays, ended.1, rfl, hlog⟩

/-- **The log of a run**, whatever the source, the limit and the tracer. It starts with
what loading has logged, and ends there if that fails. Behind it, each record that the
tracer is offered has one event, in the same order, that says where it stands and what
its text is; it tells of a jump to a slot just when the record is that of a branch that
is taken, and the slot that of its label. The warnings of a slot stand right before its
event. Behind the events of the records there are no more than the warnings of the slot
that the run fails at; and at the end, if there is an outcome and only then, that the
program has stopped. -/
theorem log_ofSource (source : Text) (limit : Option Nat) (tracer : Tracer σ) (trace : σ) :
    let loaded := Program.ofSource source
    let seen := ofSource source limit tracer.transcript (trace, [])
    let plain := ofSource source limit tracer trace
    let records := seen.trace.2
    plain = seen.mapTrace Prod.fst ∧
    Program.LoadLog (Line.ofSource source) loaded.result loaded.events ∧
    (∀ fault, loaded.result = .error fault →
      records = [] ∧ plain.log.toList = loaded.events ∧ plain.result = some (.error fault)) ∧
    ∀ program, loaded.result = .ok program →
      (∃ ended : Session (σ × List Record),
        (start program (trace, []) loaded.events.toArray).run program limit tracer.transcript =
          (ended, plain.result) ∧
        plain.log.toList = loaded.events ++ program.told [] records ++
          program.faultWarnings records ended.execution.counter plain.result ++
            stopEvents plain.result) ∧
      ∃ steps, plain.log.toList.filter (fun event => !event.isWarning) =
          loaded.events ++ steps ++ stopEvents plain.result ∧
        steps.length = records.length ∧
        ∀ front record back, records = front ++ record :: back →
          ∃ slot control, program.slots[record.counter]? = some slot ∧
            steps[front.length]? =
              some (.stepped record.counter slot.line record.text control) ∧
            ∀ place, control = .jump place ↔
              ∃ name, slot.instruction.target? (program.machineAfter front).registers.flag =
                some name ∧ program.labels.slot? name = some place := by
  intro loaded seen plain records
  have hplain : plain = seen.mapTrace Prod.fst :=
    ofReport_mapTrace tracer.mirrors_transcript _ limit (trace, [])
  have hloadLog : Program.LoadLog (Line.ofSource source) loaded.result loaded.events :=
    Program.loadLog_ofLines _
  refine ⟨hplain, hloadLog, fun fault hload => ?_, fun program hload => ?_⟩
  · have hseen : seen = _ := ofSource_of_error hload limit tracer.transcript (trace, [])
    rw [show records = seen.trace.2 from rfl, hplain, hseen]
    exact ⟨rfl, rfl, rfl⟩
  · obtain ⟨hreplays, ended, hrun, hlog⟩ := log_of_ok hload limit tracer trace
    have hlog : plain.log.toList = loaded.events ++ program.told [] records ++
        program.faultWarnings records ended.execution.counter plain.result ++
          stopEvents plain.result := by
      rw [hplain]
      exact hlog
    refine ⟨⟨ended, by rw [hplain]; exact hrun, hlog⟩, program.steps [] records, ?_,
      Program.length_steps hreplays, ?_⟩
    · rw [hlog, hloadLog.filter_not_isWarning]
    · intro front record back hsplit
      have hsplits : program.Replays (front ++ record :: back) := hsplit ▸ hreplays
      obtain ⟨slot, htells⟩ := hsplits rfl
      refine ⟨slot, _, htells.slot_eq, ?_, fun place => Instruction.control_eq_jump_iff⟩
      rw [hsplit, Program.getElem?_steps hsplits htells.slot_eq]

/-- A slot that warns and is executed, and one that fails, as its label is not declared:
the log ends with the event of the first. -/
theorem log_ofSource_undeclared :
    let source : Text := "[0]\nADD R0, R0, #1\nB a".toList
    let program : Program :=
      { image := ⟨#[0]⟩
        slots := #[⟨2, "ADD R0, R0, #1".toList,
            ⟨.compute .add, [.register 0, .register 0, .operand (.immediate 1)]⟩⟩,
          ⟨3, "B a".toList, ⟨.branch .always, [.label "a".toList]⟩⟩]
        labels := {} }
    let run := ofSource source none .silent ()
    (Program.ofSource source).result = .ok program ∧
      run.result = some (.error (.undeclaredLabel 3 "a".toList)) ∧
      run.log.toList = [.imageParsed 1, .programLoaded 2 0, .unsetRegister 0,
        .stepped 0 2 "ADD R0, R0, #1".toList .next] ∧
      ∃ steps, run.log.toList.filter (fun event => !event.isWarning) =
          [.imageParsed 1, .programLoaded 2 0] ++ steps ∧ steps.length = 1 := by
  intro source program run
  have hload : (Program.ofSource source).result = .ok program := by decide +kernel
  have hresult : run.result = some (.error (.undeclaredLabel 3 "a".toList)) := by decide +kernel
  have hevents : (Program.ofSource source).events = [.imageParsed 1, .programLoaded 2 0] := by
    decide +kernel
  have hrecords : (ofSource source none Tracer.silent.transcript ((), [])).trace.2.length = 1 := by
    decide +kernel
  obtain ⟨-, -, -, hruns⟩ := log_ofSource source none .silent ()
  obtain ⟨-, steps, hsteps, hlength, -⟩ := hruns program hload
  refine ⟨hload, hresult, by decide +kernel, steps, ?_, hlength.trans hrecords⟩
  rw [hsteps, hevents, hresult]
  exact List.append_nil _

end Run

end TeachAsm
