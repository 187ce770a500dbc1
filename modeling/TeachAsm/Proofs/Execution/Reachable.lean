import TeachAsm.Proofs.Execution.Step
import TeachAsm.Proofs.Instruction.Outcome
import TeachAsm.Proofs.Program.Loading
/-!
# Reachable executions

An execution is reachable when steps and runs lead to it from the start of a
program, in any number and mixture, with any limits and any tracers, and on
after every fault (`Execution.Reachable`). Every reachable execution of a loaded
program is `Sound`: its counter is where its state says, and memory has kept to
its bounds (`Reachable.sound`). What a step could do wrong is thereby excluded,
and an execution that is over stays as it is (`eq_of_calls`).
-/

namespace TeachAsm

open Relation

namespace Execution

/-- One call: a step or a run of a session that is at an execution, whatever the
tracer, its state and the log. -/
inductive Call (program : Program) : Execution → Execution → Prop
  | step {σ : Type} (tracer : Tracer σ) (s : Session σ) :
      Call program s.execution (s.step program tracer).1.execution
  | run {σ : Type} (limit : Option Nat) (tracer : Tracer σ) (s : Session σ) :
      Call program s.execution (s.run program limit tracer).1.execution

/-- What finitely many calls make of the start of a program. -/
def Reachable (program : Program) (e : Execution) : Prop :=
  ReflTransGen (Call program) (start program) e

/-- **What holds of every reachable execution.** -/
structure Sound (program : Program) (e : Execution) : Prop where
  counter_lt : e.state = .active → e.counter < program.size
  counter_eq : e.state = .finished → e.counter = program.size
  at_halt : e.state = .halted →
    ∃ slot, program.slots[e.counter]? = some slot ∧ slot.instruction.opcode = .halt
  image_le : program.image.size ≤ e.machine.memory.size
  size_le : e.machine.memory.size ≤ max program.image.size Memory.limit

variable {program : Program} {e e' : Execution}

/-! ## Calls are chains of moves -/

theorem Call.moves (h : Call program e e') : ReflTransGen (Moved program) e e' := by
  cases h with
  | step tracer s => exact .single (Session.moved_of_step program tracer s)
  | run limit tracer s => exact Session.moves_of_runFor program limit tracer _ s

theorem moves_of_calls (h : ReflTransGen (Call program) e e') :
    ReflTransGen (Moved program) e e' := by
  induction h with
  | refl => exact .refl
  | tail _ hcall ih => exact ih.trans hcall.moves

theorem eq_of_moves (h : ReflTransGen (Moved program) e e') (he : e.state ≠ .active) : e' = e := by
  induction h with
  | refl => rfl
  | tail _ hmoved ih =>
    subst ih
    exact hmoved.eq_of_ne_active he

/-- **An execution that is over is left as it is** by every chain of calls. -/
theorem eq_of_calls (h : ReflTransGen (Call program) e e') (he : e.state ≠ .active) : e' = e :=
  eq_of_moves (moves_of_calls h) he

/-! ## The invariant -/

/-- The slot that an execution is at holds a shaped instruction. -/
theorem shaped_of_current? (hwf : program.WellFormed) {slot : Slot}
    {report : Report (Effect × Control)} (hcurrent : e.current? program = some (slot, report)) :
    program.slots[e.counter]? = some slot ∧ slot.instruction.Shaped ∧
      report = slot.instruction.evaluate ⟨program.labels, slot.line⟩ e.machine := by
  obtain ⟨hslot, hreport⟩ := current?_eq_some_iff.1 hcurrent
  exact ⟨hslot, hwf.shaped slot (Array.mem_of_getElem? hslot), hreport⟩

/-- An active execution is at a slot. -/
theorem Sound.current?_ne_none (hs : e.Sound program) (hactive : e.state = .active) :
    e.current? program ≠ none := by
  intro hnone
  have hlt := hs.counter_lt hactive
  have hge := current?_eq_none_iff.1 hnone
  omega

theorem sound_start (program : Program) : (start program).Sound program := by
  refine ⟨fun h => ?_, fun h => ?_, fun h => ?_, Nat.le_refl _, Nat.le_max_left _ _⟩
  · have hsize : ¬ program.size = 0 := by simpa [start] using h
    exact Nat.pos_of_ne_zero hsize
  · have hsize : program.size = 0 := by simpa [start] using h
    exact hsize.symm
  · simp only [start] at h
    split at h <;> cases h

/-- A slot that an execution is at has an effect that keeps memory to its bounds. -/
theorem Sound.commit_bounds (hs : e.Sound program) (hwf : program.WellFormed) {slot : Slot}
    {report : Report (Effect × Control)} {effect : Effect} {control : Control}
    (hcurrent : e.current? program = some (slot, report))
    (hresult : report.result = .ok (effect, control)) :
    program.image.size ≤ (effect.apply e.machine).memory.size ∧
      (effect.apply e.machine).memory.size ≤ max program.image.size Memory.limit := by
  obtain ⟨-, hshape, rfl⟩ := shaped_of_current? hwf hcurrent
  have hsize := hshape.size_memory_of_evaluate hresult
  have hlower := hs.image_le
  have hupper := hs.size_le
  omega

/-- An effect without a move keeps an active execution sound. -/
theorem Sound.commit (hs : e.Sound program) (hwf : program.WellFormed)
    (hactive : e.state = .active) {slot : Slot}
    {report : Report (Effect × Control)} {effect : Effect} {control : Control}
    (hcurrent : e.current? program = some (slot, report))
    (hresult : report.result = .ok (effect, control)) : (e.commit effect).Sound program := by
  obtain ⟨hlower, hupper⟩ := hs.commit_bounds hwf hcurrent hresult
  refine ⟨hs.counter_lt, fun h => ?_, fun h => ?_, hlower, hupper⟩
  · exact absurd (hactive.symm.trans h) (by simp)
  · exact absurd (hactive.symm.trans h) (by simp)

/-- Going to a slot of the program, or just past its last, keeps an active
execution sound. -/
theorem Sound.goto (hs : e.Sound program) (hactive : e.state = .active) {slot : Nat}
    (hslot : slot ≤ program.size) : (e.goto program.size slot).Sound program := by
  by_cases hlt : slot < program.size
  · refine ⟨fun _ => hlt, fun h => ?_, fun h => ?_, hs.image_le, hs.size_le⟩
    · simp [Execution.goto, hlt, hactive] at h
    · simp [Execution.goto, hlt, hactive] at h
  · refine ⟨fun h => ?_, fun _ => ?_, fun h => ?_, hs.image_le, hs.size_le⟩
    · simp [Execution.goto, hlt] at h
    · simp only [Execution.goto]
      omega
    · simp [Execution.goto, hlt] at h

/-- **A move keeps an execution sound**: labels stand for slots of the program,
so that a jump cannot leave it, and the slot behind the last is the only one
past its end that is ever reached. -/
theorem Sound.moved (hs : e.Sound program) (hwf : program.WellFormed)
    (h : Moved program e e') : e'.Sound program := by
  cases h with
  | stay => exact hs
  | pastEnd hactive hcurrent => exact absurd hcurrent (hs.current?_ne_none hactive)
  | interrupted hactive hcurrent hresult => exact hs.commit hwf hactive hcurrent hresult
  | @completed slot report effect control hactive hcurrent hresult =>
    have hcommit := hs.commit hwf hactive hcurrent hresult
    obtain ⟨hslot, hshape, rfl⟩ := shaped_of_current? hwf hcurrent
    -- the next slot may be the one just past the end, a label's slot never is
    rcases hshape.control_of_evaluate hresult with
      ⟨-, -, rfl⟩ | ⟨-, name, target, -, htarget, rfl⟩ | ⟨hop, rfl⟩
    · exact hcommit.goto hactive (hs.counter_lt hactive)
    · obtain ⟨other, hother, -⟩ := hwf.slot?_eq_some_iff.1 htarget
      obtain ⟨hlt, -⟩ := Array.getElem?_eq_some_iff.1 hother
      exact hcommit.goto hactive (Nat.le_of_lt hlt)
    · refine ⟨fun h => ?_, fun h => ?_, fun _ => ⟨slot, hslot, hop⟩, hcommit.image_le,
        hcommit.size_le⟩
      · simp [advance] at h
      · simp [advance] at h

theorem Sound.moves (hs : e.Sound program) (hwf : program.WellFormed)
    (h : ReflTransGen (Moved program) e e') : e'.Sound program := by
  induction h with
  | refl => exact hs
  | tail _ hmoved ih => exact ih.moved hwf hmoved

/-- **Every reachable execution of a well-formed program is sound.** -/
theorem Reachable.sound (h : Reachable program e) (hwf : program.WellFormed) : e.Sound program :=
  (sound_start program).moves hwf (moves_of_calls h)

/-- A word that is written past the end of memory lies below the limit. -/
theorem succ_le_limit_of_setWord (hwf : program.WellFormed) {slot : Slot}
    {report : Report (Effect × Control)} {a : Nat} {w : Word} {control : Control}
    (hcurrent : e.current? program = some (slot, report))
    (hresult : report.result = .ok (.setWord a w, control))
    (ha : e.machine.memory.size ≤ a) : a + 1 ≤ Memory.limit := by
  obtain ⟨-, hshape, rfl⟩ := shaped_of_current? hwf hcurrent
  have hw := hshape.writable_of_evaluate hresult
  omega

/-- **What holds of every execution that a loaded program can reach.** It is
sound. While it is active there is a slot to execute, and the sums that a step
forms stay in range: the next counter is at most the size of the program, and
memory that grows for a store grows to an address below its limit. Once it is
over, no calls change it, and no call tells a tracer anything. -/
theorem sound_of_reachable {source : Text} {program : Program}
    (hload : (Program.ofSource source).result = .ok program) {e : Execution}
    (h : Reachable program e) :
    e.Sound program ∧
      (e.state = .active →
        (∃ slot, program.slots[e.counter]? = some slot) ∧ e.counter + 1 ≤ program.size) ∧
      (∀ slot report a w control, e.current? program = some (slot, report) →
        report.result = .ok (.setWord a w, control) → e.machine.memory.size ≤ a →
          a + 1 ≤ Memory.limit) ∧
      (e.state ≠ .active →
        (∀ e', ReflTransGen (Call program) e e' → e' = e) ∧
          ∀ {σ : Type} (tracer : Tracer σ) (limit : Option Nat) (s : Session σ), s.execution = e →
            (s.step program tracer).1.execution = e ∧ (s.step program tracer).1.trace = s.trace ∧
              (s.run program limit tracer).1.execution = e ∧
              (s.run program limit tracer).1.trace = s.trace) := by
  have hwf := Program.wellFormed_of_ofSource hload
  have hsound := h.sound hwf
  refine ⟨hsound, fun hactive => ⟨?_, hsound.counter_lt hactive⟩, ?_, fun hover => ⟨?_, ?_⟩⟩
  · exact ⟨_, Array.getElem?_eq_getElem (hsound.counter_lt hactive)⟩
  · intro slot report a w control hcurrent hresult ha
    exact succ_le_limit_of_setWord hwf hcurrent hresult ha
  · intro e' hcalls
    exact eq_of_calls hcalls hover
  · intro σ tracer limit s hs
    subst hs
    rw [Session.step_of_ne_active hover, Session.run_of_ne_active hover]
    exact ⟨rfl, rfl, rfl, rfl⟩

/-- A program of a label and a branch back to it, limited to three steps: the
execution is at the branch's slot, and active. -/
theorem sound_of_reachable_loop :
    let program : Program :=
      { image := ⟨#[7]⟩
        slots := #[⟨2, "loop:".toList, ⟨.label, [.label "loop".toList]⟩⟩,
          ⟨2, "B loop".toList, ⟨.branch .always, [.label "loop".toList]⟩⟩]
        labels := ⟨[⟨"loop".toList, 0, 2⟩]⟩ }
    let s := ((Session.start program () #[]).run program (some 3) .silent).1
    (Program.ofSource "[7]\nloop: B loop".toList).result = .ok program ∧
      Reachable program s.execution ∧ s.execution.state = .active ∧ s.execution.Sound program ∧
      s.execution.counter + 1 ≤ program.size := by
  intro program s
  have hload : (Program.ofSource "[7]\nloop: B loop".toList).result = .ok program := by
    decide +kernel
  have hreach : Reachable program s.execution :=
    .single (.run (some 3) .silent (Session.start program () #[]))
  have hactive : s.execution.state = .active := by decide +kernel
  have hsound := sound_of_reachable hload hreach
  exact ⟨hload, hreach, hactive, hsound.1, (hsound.2.1 hactive).2⟩

end Execution

end TeachAsm
