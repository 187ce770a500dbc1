import Mathlib.Logic.Relation
import TeachAsm.Execution.Session
import TeachAsm.Proofs.Instruction.Evaluation
/-!
# What a step can do

A step finds the session over, past its program, at a slot that fails, or at a
slot that does something; one equation for each says what comes of it, and
`Session.Stepped` lists them all. Seen from the execution alone, tracer and log
apart, a step leaves it as it was, makes an effect and stops there because the
tracer failed, or makes an effect and moves on: this is `Execution.Moved`, and
everything that steps and runs preserve is proved by its four cases. A run is a
chain of such moves (`moves_of_runFor`), and a fault it ends with is its limit
or the fault of one of its steps (`stepLimit_or_step_of_runFor`).
-/

namespace TeachAsm

open Relation

namespace Execution

/-- The slot that an execution is at, and what it comes to; there is none past
the end. -/
def current? (program : Program) (e : Execution) : Option (Slot × Report (Effect × Control)) :=
  program.slots[e.counter]?.map fun slot =>
    (slot, slot.instruction.evaluate ⟨program.labels, slot.line⟩ e.machine)

/-- The execution with an effect made and its slot counted, still at its slot. -/
def commit (e : Execution) (effect : Effect) : Execution :=
  { e with machine := effect.apply e.machine }.count

variable {program : Program} {e e' : Execution} {slot : Slot} {report : Report (Effect × Control)}

/-- An execution is at a slot when its counter is the slot's place. -/
theorem current?_eq_some_iff :
    e.current? program = some (slot, report) ↔ program.slots[e.counter]? = some slot ∧
      report = slot.instruction.evaluate ⟨program.labels, slot.line⟩ e.machine := by
  simp only [current?, Option.map_eq_some_iff, Prod.mk.injEq]
  constructor
  · rintro ⟨_, hslot, rfl, rfl⟩
    exact ⟨hslot, rfl⟩
  · rintro ⟨hslot, rfl⟩
    exact ⟨slot, hslot, rfl, rfl⟩

/-- An execution is at no slot past the end of its program. -/
theorem current?_eq_none_iff : e.current? program = none ↔ program.size ≤ e.counter := by
  simp [current?, Program.size]

/-- **What a step may make of an execution.** -/
inductive Moved (program : Program) (e : Execution) : Execution → Prop
  /-- Execution is over, or its slot fails. -/
  | stay : Moved program e e
  /-- There is no slot. -/
  | pastEnd (hactive : e.state = .active) (hcurrent : e.current? program = none) :
      Moved program e { e with state := .finished }
  /-- The slot has its effect, and the tracer fails. -/
  | interrupted {slot : Slot} {report : Report (Effect × Control)} {effect : Effect}
      {control : Control} (hactive : e.state = .active)
      (hcurrent : e.current? program = some (slot, report))
      (hresult : report.result = .ok (effect, control)) : Moved program e (e.commit effect)
  /-- The slot has its effect, and execution moves on. -/
  | completed {slot : Slot} {report : Report (Effect × Control)} {effect : Effect}
      {control : Control} (hactive : e.state = .active)
      (hcurrent : e.current? program = some (slot, report))
      (hresult : report.result = .ok (effect, control)) :
      Moved program e ((e.commit effect).advance program.size control)

/-- An execution that is over moves nowhere. -/
theorem Moved.eq_of_ne_active (h : e.Moved program e') (he : e.state ≠ .active) : e' = e := by
  cases h with
  | stay => rfl
  | pastEnd hactive | interrupted hactive | completed hactive => exact absurd hactive he

end Execution

namespace Session

variable {σ : Type} {program : Program} {tracer : Tracer σ} {s : Session σ}
variable {slot : Slot} {report : Report (Effect × Control)} {effect : Effect} {control : Control}
variable {fault : Fault}

/-! ## A slot -/

/-- The session in which a slot has had its effect, and its report is logged. -/
def effected (s : Session σ) (report : Report (Effect × Control)) (effect : Effect) : Session σ :=
  { s.note report.events with execution.machine := effect.apply s.execution.machine }

/-- A slot that fails has changed nothing. -/
theorem perform_of_error (hcurrent : s.execution.current? program = some (slot, report))
    (hresult : report.result = .error fault) :
    s.perform program slot = (s.note report.events, .error fault) := by
  obtain ⟨-, rfl⟩ := Execution.current?_eq_some_iff.1 hcurrent
  rw [perform, Instruction.execute_of_error hresult]
  rfl

theorem perform_of_ok (hcurrent : s.execution.current? program = some (slot, report))
    (hresult : report.result = .ok (effect, control)) :
    s.perform program slot = (s.effected report effect, .ok control) := by
  obtain ⟨-, rfl⟩ := Execution.current?_eq_some_iff.1 hcurrent
  rw [perform, Instruction.execute_of_ok hresult]
  rfl

theorem taken_commit :
    (s.commit tracer slot control).2 = (tracer.record (s.execution.count.record slot) s.trace).2 :=
  rfl

/-! ## A step -/

theorem step_of_ne_active (h : s.execution.state ≠ .active) :
    s.step program tracer = (s, .ok s.execution.state) := by
  rw [step, if_neg h]

theorem step_of_pastEnd (hactive : s.execution.state = .active)
    (hcurrent : s.execution.current? program = none) :
    s.step program tracer = ({ s with execution.state := .finished }, .ok .finished) := by
  have hslot : program.slots[s.execution.counter]? = none := Option.map_eq_none_iff.1 hcurrent
  rw [step, if_pos hactive, hslot]

theorem step_of_fault (hactive : s.execution.state = .active)
    (hcurrent : s.execution.current? program = some (slot, report))
    (hresult : report.result = .error fault) :
    s.step program tracer = (s.note report.events, .error fault) := by
  obtain ⟨hslot, -⟩ := Execution.current?_eq_some_iff.1 hcurrent
  rw [step, if_pos hactive, hslot]
  simp only [perform_of_error hcurrent hresult]

/-- At a slot that does something, the tracer decides whether execution moves on. -/
theorem step_of_ok (hactive : s.execution.state = .active)
    (hcurrent : s.execution.current? program = some (slot, report))
    (hresult : report.result = .ok (effect, control)) :
    s.step program tracer =
      if ((s.effected report effect).commit tracer slot control).2 then
        (((s.effected report effect).commit tracer slot control).1.advance program.size control,
          .ok ((s.execution.commit effect).advance program.size control).state)
      else
        (((s.effected report effect).commit tracer slot control).1, .error .traceFailed) := by
  obtain ⟨hslot, -⟩ := Execution.current?_eq_some_iff.1 hcurrent
  rw [step, if_pos hactive, hslot]
  simp only [perform_of_ok hcurrent hresult]
  have hexecution : ((s.effected report effect).commit tracer slot control).1.execution =
      s.execution.commit effect := rfl
  -- the answer of the tracer decides, and nothing else of what it leaves behind
  rcases hcommit : (s.effected report effect).commit tracer slot control with ⟨next, taken⟩
  rw [hcommit] at hexecution
  cases taken with
  | false => rfl
  | true =>
    rw [← hexecution]
    rfl

/-- **What a step can do**, and the result it then has. -/
inductive Stepped (program : Program) (tracer : Tracer σ) (s : Session σ) :
    Session σ × Except Fault State → Prop
  | stopped (h : s.execution.state ≠ .active) : Stepped program tracer s (s, .ok s.execution.state)
  | pastEnd (hactive : s.execution.state = .active)
      (hcurrent : s.execution.current? program = none) :
      Stepped program tracer s ({ s with execution.state := .finished }, .ok .finished)
  | failed {slot : Slot} {report : Report (Effect × Control)} {fault : Fault}
      (hactive : s.execution.state = .active)
      (hcurrent : s.execution.current? program = some (slot, report))
      (hresult : report.result = .error fault) :
      Stepped program tracer s (s.note report.events, .error fault)
  | interrupted {slot : Slot} {report : Report (Effect × Control)} {effect : Effect}
      {control : Control} (hactive : s.execution.state = .active)
      (hcurrent : s.execution.current? program = some (slot, report))
      (hresult : report.result = .ok (effect, control))
      (htaken : ((s.effected report effect).commit tracer slot control).2 = false) :
      Stepped program tracer s
        (((s.effected report effect).commit tracer slot control).1, .error .traceFailed)
  | completed {slot : Slot} {report : Report (Effect × Control)} {effect : Effect}
      {control : Control} (hactive : s.execution.state = .active)
      (hcurrent : s.execution.current? program = some (slot, report))
      (hresult : report.result = .ok (effect, control))
      (htaken : ((s.effected report effect).commit tracer slot control).2 = true) :
      Stepped program tracer s
        (((s.effected report effect).commit tracer slot control).1.advance program.size control,
          .ok ((s.execution.commit effect).advance program.size control).state)

/-- **Every step does one of these things.** -/
theorem stepped (program : Program) (tracer : Tracer σ) (s : Session σ) :
    Stepped program tracer s (s.step program tracer) := by
  by_cases hactive : s.execution.state = .active
  · rcases hcurrent : s.execution.current? program with _ | ⟨slot, report⟩
    · rw [step_of_pastEnd hactive hcurrent]
      exact .pastEnd hactive hcurrent
    · rcases hresult : report.result with fault | ⟨effect, control⟩
      · rw [step_of_fault hactive hcurrent hresult]
        exact .failed hactive hcurrent hresult
      · rw [step_of_ok hactive hcurrent hresult]
        split
        · next htaken => exact .completed hactive hcurrent hresult htaken
        · next htaken =>
          exact .interrupted hactive hcurrent hresult (Bool.eq_false_iff.2 htaken)
  · rw [step_of_ne_active hactive]
    exact .stopped hactive

/-- **A step moves the execution**, whatever the tracer does. -/
theorem moved_of_step (program : Program) (tracer : Tracer σ) (s : Session σ) :
    s.execution.Moved program (s.step program tracer).1.execution := by
  have hstepped := stepped program tracer s
  generalize s.step program tracer = after at hstepped ⊢
  cases hstepped with
  | stopped | failed => exact .stay
  | pastEnd hactive hcurrent => exact .pastEnd hactive hcurrent
  | interrupted hactive hcurrent hresult => exact .interrupted hactive hcurrent hresult
  | completed hactive hcurrent hresult => exact .completed hactive hcurrent hresult

/-- With a tracer that takes every record, a step fails where its slot does. -/
theorem step_eq_error_iff (hreliable : tracer.Reliable) (hactive : s.execution.state = .active)
    (hcurrent : s.execution.current? program = some (slot, report)) :
    (s.step program tracer).2 = .error fault ↔ report.result = .error fault := by
  cases hresult : report.result with
  | error other =>
    rw [step_of_fault hactive hcurrent hresult]
    simp
  | ok change =>
    obtain ⟨effect, control⟩ := change
    rw [step_of_ok hactive hcurrent hresult, if_pos (taken_commit.trans (hreliable _ _))]
    simp

/-- With any tracer, a step fails where its slot does, or because of the tracer. -/
theorem traceFailed_or_current_of_step (h : (s.step program tracer).2 = .error fault) :
    fault = .traceFailed ∨ ∃ slot report, s.execution.current? program = some (slot, report) ∧
      report.result = .error fault := by
  have hstepped := stepped program tracer s
  generalize s.step program tracer = after at hstepped h
  cases hstepped with
  | stopped | pastEnd | completed => exact absurd h (by simp)
  | @failed slot report other _ hcurrent hresult =>
    obtain rfl : other = fault := Except.error.inj h
    exact .inr ⟨slot, report, hcurrent, hresult⟩
  | interrupted => exact .inl (Except.error.inj h).symm

/-! ## A run -/

variable {limit : Option Nat} {rounds : Nat}

theorem run_of_ne_active (h : s.execution.state ≠ .active) :
    s.run program limit tracer =
      (s.note [.stopped s.execution.state s.execution.operations],
        some (.ok s.execution.outcome)) := by
  rw [run, runFor, if_neg h]
  rfl

/-- **A run is a chain of moves.** -/
theorem moves_of_runFor (program : Program) (limit : Option Nat) (tracer : Tracer σ) (rounds : Nat)
    (s : Session σ) :
    ReflTransGen (Execution.Moved program) s.execution
      (s.runFor program limit tracer rounds).1.execution := by
  -- a round is a step, and the rounds after it start from where the step ends
  induction rounds generalizing s with
  | zero => exact .refl
  | succ rounds ih =>
    have hmoved := moved_of_step program tracer s
    unfold runFor
    split
    · split
      · exact .refl
      · rcases hstep : s.step program tracer with ⟨next, result⟩
        rw [hstep] at hmoved
        cases result with
        | ok state => exact .head hmoved (ih next)
        | error fault => exact .single hmoved
    · exact .refl

/-- A fault that a run ends with is its limit, or the fault of one of its steps. -/
theorem stepLimit_or_step_of_runFor (s : Session σ)
    (h : (s.runFor program limit tracer rounds).2 = some (.error fault)) :
    (∃ n, fault = .stepLimit n) ∨ ∃ s' : Session σ,
      ReflTransGen (Execution.Moved program) s.execution s'.execution ∧
        (s'.step program tracer).2 = .error fault := by
  induction rounds generalizing s with
  | zero => cases h
  | succ rounds ih =>
    have hmoved := moved_of_step program tracer s
    unfold runFor at h
    split at h
    · split at h
      · next n _ =>
        cases h
        exact .inl ⟨n, rfl⟩
      · rcases hstep : s.step program tracer with ⟨next, result⟩
        rw [hstep] at h hmoved
        cases result with
        | ok state =>
          rcases ih next h with hlimit | ⟨s', hmoves, hfault⟩
          · exact .inl hlimit
          · exact .inr ⟨s', .head hmoved hmoves, hfault⟩
        | error other =>
          cases h
          exact .inr ⟨s, .refl, by rw [hstep]⟩
    · cases h

end Session

end TeachAsm
