import TeachAsm.Execution.Run
import TeachAsm.Proofs.Program.Numbering
/-!
# Running under other line numbers

An instruction knows the line it stands on, and uses it for its faults only. A
program with other line numbers therefore runs step for step as the program
itself does: the execution and what the tracer is told are the same, and the
log and the fault that may end the run are the same with these line numbers
(`Session.step_renumber`, `Run.ofReport_renumber`). No hypothesis on the program,
on its tracer or on the limit is needed.
-/

namespace TeachAsm

/-! ## Instructions -/

section Renumbering

variable (f : Nat → Nat)

/-- Work on a machine that reports with other line numbers. -/
def Action.renumber {α : Type} (x : Action α) : Action α := fun machine =>
  ((x machine).1, (x machine).2.renumber f)

/-- Surroundings with other line numbers. -/
def Surroundings.renumber (around : Surroundings) : Surroundings :=
  ⟨around.labels.renumber f, f around.line⟩

/-- A session with other line numbers in its log. -/
def Session.renumber {σ : Type} (s : Session σ) : Session σ :=
  { s with log := s.log.map (Event.renumber f) }

/-- A run with other line numbers in its log and its fault. -/
def Run.renumber {σ : Type} (run : Run σ) : Run σ :=
  ⟨run.trace, run.log.map (Event.renumber f), run.result.map (Except.mapError (Fault.renumber f))⟩

end Renumbering

variable {f : Nat → Nat}

/-- A missing capture is told by its position. -/
@[simp] theorem Captures.mapError_field {α : Type} (pick : Capture → Option α)
    (captures : Captures) (position : Nat) :
    (field pick captures position).mapError (Fault.renumber f) = field pick captures position := by
  unfold field
  split <;> rfl

/-! Warnings have no line number. -/

@[simp] theorem Registers.renumber_read (rs : Registers) (r : Register) :
    (rs.read r).renumber f = rs.read r := by
  unfold Registers.read
  split <;> rfl

@[simp] theorem Memory.renumber_read (m : Memory) (a : Nat) : (m.read a).renumber f = m.read a := by
  unfold Memory.read
  split <;> rfl

@[simp] theorem Memory.renumber_growth (m : Memory) (a : Nat) :
    (m.growth a).map (Event.renumber f) = m.growth a := by
  unfold Memory.growth
  split <;> rfl

@[simp] theorem Machine.renumber_operand (machine : Machine) (o : Operand) :
    (machine.operand o).renumber f = machine.operand o := by
  cases o with
  | register r => exact Registers.renumber_read ..
  | immediate w => rfl

/-- A name stands for the same slot, or for none. -/
@[simp] theorem Surroundings.slot_renumber (around : Surroundings) (name : Text) :
    (around.renumber f).slot name = (around.slot name).mapError (Fault.renumber f) := by
  simp only [slot, renumber, Labels.slot?_renumber]
  cases around.labels.slot? name <;> rfl

namespace Action

variable {α β : Type}

@[simp] theorem renumber_pure (a : α) : (pure a : Action α).renumber f = pure a :=
  rfl

@[simp] theorem renumber_view (g : Machine → Report α) :
    (view g).renumber f = view fun machine => (g machine).renumber f :=
  rfl

@[simp] theorem renumber_lift (result : Except Fault α) :
    (liftM result : Action α).renumber f = liftM (result.mapError (Fault.renumber f)) :=
  rfl

@[simp] theorem renumber_setRegister (r : Register) (w : Word) :
    (setRegister r w).renumber f = setRegister r w :=
  rfl

@[simp] theorem renumber_setFlag (flag : Flag) : (setFlag flag).renumber f = setFlag flag :=
  rfl

@[simp] theorem renumber_setWord (a : Nat) (w : Word) (fault : Fault) :
    (setWord a w fault).renumber f = setWord a w (fault.renumber f) := by
  funext machine
  simp only [renumber, setWord]
  split
  · rw [Report.renumber_note, Memory.renumber_growth]
  · rfl

/-- **A chain is renumbered link by link.** -/
@[simp] theorem renumber_bind (x : Action α) (g : α → Action β) :
    (x >>= g).renumber f = x.renumber f >>= fun a => (g a).renumber f := by
  funext machine
  change Action.renumber f (Action.bind x g) machine =
    Action.bind (x.renumber f) (fun a => (g a).renumber f) machine
  rcases hx : x machine with ⟨machine', ⟨events, result⟩⟩
  cases result with
  | error fault => simp [Action.bind, renumber, Report.renumber, hx]
  | ok a => simp [Action.bind, renumber, Report.renumber, hx]

end Action

/-- **An instruction does the same under other line numbers.** -/
theorem Opcode.execute_renumber (around : Surroundings) (captures : Captures) (op : Opcode) :
    op.execute (around.renumber f) captures = (op.execute around captures).renumber f := by
  cases op with
  | branch condition =>
    simp only [execute, Action.renumber_bind, Action.renumber_view, Report.renumber_pure]
    congr 1
    funext flag
    split
    · simp [Captures.label]
    · rfl
  | _ => simp [execute, Captures.register, Captures.address, Captures.operand, Fault.renumber,
      Surroundings.renumber]

/-! ## Sessions -/

namespace Session

variable {σ : Type} {program : Program} {tracer : Tracer σ}

/-- Events that are logged are renumbered with those before them. -/
theorem map_append_list {α β : Type} (g : α → β) (xs : Array α) (ys : List α) :
    (xs ++ ys).map g = xs.map g ++ ys.map g := by
  apply Array.toList_inj.1
  simp

theorem perform_renumber (slot : Slot) (s : Session σ) :
    (s.renumber f).perform (program.renumber f) (slot.renumber f) =
      ((s.perform program slot).1.renumber f,
        (s.perform program slot).2.mapError (Fault.renumber f)) := by
  obtain ⟨⟨counter, operations, machine, state⟩, trace, log⟩ := s
  have hexecute : (slot.renumber f).instruction.execute
      ⟨(program.renumber f).labels, (slot.renumber f).line⟩ machine =
        (slot.instruction.execute ⟨program.labels, slot.line⟩).renumber f machine :=
    congrFun (Opcode.execute_renumber ⟨program.labels, slot.line⟩ slot.instruction.captures
      slot.instruction.opcode) machine
  simp only [perform, renumber, hexecute, Action.renumber, Report.renumber, map_append_list]

theorem commit_renumber (s : Session σ) (slot : Slot) (control : Control) :
    (s.renumber f).commit tracer (slot.renumber f) control =
      ((s.commit tracer slot control).1.renumber f, (s.commit tracer slot control).2) := by
  simp [commit, renumber, Slot.renumber, Event.renumber, Execution.record]

/-- **A step is the same under other line numbers**, whatever it does. -/
theorem step_renumber (s : Session σ) :
    (s.renumber f).step (program.renumber f) tracer =
      ((s.step program tracer).1.renumber f,
        (s.step program tracer).2.mapError (Fault.renumber f)) := by
  have hslots : (program.renumber f).slots[s.execution.counter]? =
      program.slots[s.execution.counter]?.map (Slot.renumber f) := Array.getElem?_map ..
  have hexecution : (s.renumber f).execution = s.execution := rfl
  unfold step
  rw [hexecution, hslots]
  split
  · cases program.slots[s.execution.counter]? with
    | none => rfl
    | some slot =>
      rw [Option.map_some]
      simp only [perform_renumber]
      rcases s.perform program slot with ⟨s', fault | control⟩
      · rfl
      · simp only [Fault.mapError_ok, commit_renumber]
        rcases s'.commit tracer slot control with ⟨s'', _ | _⟩
        · rfl
        · simp [advance, renumber]
  · rfl

/-- **And so is a run.** -/
theorem runFor_renumber (limit : Option Nat) (rounds : Nat) (s : Session σ) :
    (s.renumber f).runFor (program.renumber f) limit tracer rounds =
      ((s.runFor program limit tracer rounds).1.renumber f,
        (s.runFor program limit tracer rounds).2.map (Except.mapError (Fault.renumber f))) :=
  runFor_map (f := renumber f) (g := Fault.renumber f) (fun _ => rfl)
    (fun _ _ _ => by simp [note, renumber, Event.renumber]) (fun _ => rfl) step_renumber limit
    rounds s

theorem start_renumber (program : Program) (trace : σ) (log : Array Event) :
    start (program.renumber f) trace (log.map (Event.renumber f)) =
      (start program trace log).renumber f := by
  simp [start, renumber, Execution.start, Program.renumber, Program.size]

end Session

/-- **What has been loaded with other line numbers runs as it did**: the tracer
is told the same, and the log and the result differ in these numbers. -/
theorem Run.ofReport_renumber {σ : Type} (loaded : Report Program) (limit : Option Nat)
    (tracer : Tracer σ) (trace : σ) :
    ofReport ((Program.renumber f <$> loaded).renumber f) limit tracer trace =
      (ofReport loaded limit tracer trace).renumber f := by
  obtain ⟨events, fault | program⟩ := loaded
  · have hload : (Program.renumber f <$> Report.mk events (.error fault)).renumber f =
        ⟨events.map (Event.renumber f), .error (fault.renumber f)⟩ := rfl
    simp only [hload, ofReport, renumber, List.map_toArray]
    rfl
  · have hload : (Program.renumber f <$> Report.mk events (.ok program)).renumber f =
        ⟨events.map (Event.renumber f), .ok (program.renumber f)⟩ := by
      rw [← bind_pure_comp, Report.bind_of_ok rfl]
      simp [Report.renumber]
    have hlog : (events.map (Event.renumber f)).toArray = events.toArray.map (Event.renumber f) :=
      (List.map_toArray ..).symm
    simp only [hload, ofReport, hlog, Session.start_renumber, Session.run, Session.runFor_renumber]
    rfl

end TeachAsm
