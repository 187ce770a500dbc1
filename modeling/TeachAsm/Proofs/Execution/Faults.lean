import TeachAsm.Proofs.Execution.Reachable
/-!
# How execution fails

There are two ways for an active execution of a loaded program to fail, and
`Execution.FaultsWith` says which slot and machine lead to which fault. The
first is a branch that is taken to a name that no slot declares. The second is
a store past the limit of memory, and the limit is that of the image: memory
that has grown has not passed it, so whether a store fails does not depend on
what has been stored before. A step with a reliable tracer fails just then
(`Session.step_eq_error_iff_faultsWith`), it leaves the execution as it was, and
no calls lead away from there (`FaultsWith.eq_of_calls`).
-/

namespace TeachAsm

open Relation

namespace Execution

/-- **The fault of the slot that an execution is at**: a branch that is taken to
a name that no slot declares, or a store past the limit of memory. -/
inductive FaultsWith (program : Program) (e : Execution) : Fault → Prop
  | undeclared {slot : Slot} {condition : Condition} {name : Text}
      (hslot : program.slots[e.counter]? = some slot)
      (hbranch : slot.instruction = ⟨.branch condition, [.label name]⟩)
      (htaken : condition.holds e.machine.registers.flag)
      (hnone : ∀ other ∈ program.slots, other.instruction ≠ ⟨.label, [.label name]⟩) :
      FaultsWith program e (.undeclaredLabel slot.line name)
  | outOfRange {slot : Slot} {r : Register} {a : Address}
      (hslot : program.slots[e.counter]? = some slot)
      (hstore : slot.instruction = ⟨.store, [.register r, .address a]⟩)
      (hpast : max program.image.size Memory.limit ≤ a.toNat) :
      FaultsWith program e (.addressOutOfRange slot.line a)

variable {program : Program} {e : Execution} {fault : Fault}

/-- A name stands for no slot when no slot declares it. -/
theorem slot?_eq_none_iff (hwf : program.WellFormed) {name : Text} :
    program.labels.slot? name = none ↔
      ∀ other ∈ program.slots, other.instruction ≠ ⟨.label, [.label name]⟩ := by
  constructor
  · intro hnone other hmem heq
    obtain ⟨place, hplace⟩ := Array.getElem?_of_mem hmem
    have hdeclares : other.declares? = some name := by
      rw [Slot.declares?, heq]
      rfl
    rw [hwf.slot?_eq_some_iff.2 ⟨other, hplace, hdeclares⟩] at hnone
    cases hnone
  · intro hall
    cases hslot : program.labels.slot? name with
    | none => rfl
    | some place =>
      obtain ⟨other, hother, hdeclares⟩ := hwf.slot?_eq_some_iff.1 hslot
      have hmem := Array.mem_of_getElem? hother
      exact absurd ((hwf.shaped other hmem).declares?_eq_some_iff.1 hdeclares) (hall other hmem)

/-- **The limit of memory is that of the image**, however memory has grown. -/
theorem Sound.not_writable_iff (hs : e.Sound program) {a : Nat} :
    ¬ e.machine.memory.Writable a ↔ max program.image.size Memory.limit ≤ a := by
  have hlower := hs.image_le
  have hupper := hs.size_le
  omega

/-- **A slot fails just as `FaultsWith` says.** -/
theorem Sound.result_eq_error_iff (hs : e.Sound program) (hwf : program.WellFormed) {slot : Slot}
    {report : Report (Effect × Control)} (hcurrent : e.current? program = some (slot, report)) :
    report.result = .error fault ↔ e.FaultsWith program fault := by
  obtain ⟨hslot, hshape, rfl⟩ := shaped_of_current? hwf hcurrent
  rw [hshape.result_evaluate_eq_error_iff]
  constructor
  · rintro (⟨condition, name, hi, htaken, hnone, rfl⟩ | ⟨r, a, hi, hw, rfl⟩)
    · exact .undeclared hslot hi htaken ((slot?_eq_none_iff hwf).1 hnone)
    · exact .outOfRange hslot hi (hs.not_writable_iff.1 hw)
  · rintro (⟨hslot', hi, htaken, hnone⟩ | ⟨hslot', hi, hpast⟩)
    · cases hslot.symm.trans hslot'
      exact .inl ⟨_, _, hi, htaken, (slot?_eq_none_iff hwf).2 hnone, rfl⟩
    · cases hslot.symm.trans hslot'
      exact .inr ⟨_, _, hi, hs.not_writable_iff.2 hpast, rfl⟩

/-- An execution at a slot that fails moves nowhere. -/
theorem FaultsWith.eq_of_moved (h : e.FaultsWith program fault) (hs : e.Sound program)
    (hwf : program.WellFormed) {e' : Execution} (hmoved : Moved program e e') : e' = e := by
  cases hmoved with
  | stay => rfl
  | pastEnd hactive hcurrent => exact absurd hcurrent (hs.current?_ne_none hactive)
  | interrupted _ hcurrent hresult | completed _ hcurrent hresult =>
    rw [(hs.result_eq_error_iff hwf hcurrent).2 h] at hresult
    cases hresult

/-- **A fault lasts**: no chain of calls leads away from it. -/
theorem FaultsWith.eq_of_calls (h : e.FaultsWith program fault) (hs : e.Sound program)
    (hwf : program.WellFormed) {e' : Execution} (hcalls : ReflTransGen (Call program) e e') :
    e' = e := by
  have hmoves := moves_of_calls hcalls
  clear hcalls
  -- after each move the execution is still the one that the fault is about
  induction hmoves with
  | refl => rfl
  | tail _ hmoved ih =>
    subst ih
    exact h.eq_of_moved hs hwf hmoved

/-- A slot that fails is there to be executed. -/
theorem FaultsWith.exists_current (h : e.FaultsWith program fault) :
    ∃ slot report, e.current? program = some (slot, report) := by
  cases h with
  | undeclared hslot | outOfRange hslot =>
    exact ⟨_, _, current?_eq_some_iff.2 ⟨hslot, rfl⟩⟩

end Execution

namespace Session

open Execution

variable {program : Program} {σ : Type} {tracer : Tracer σ} {s : Session σ} {fault : Fault}

/-- With a tracer that takes every record, an active execution fails with the
fault of its slot and no other. -/
theorem step_eq_error_iff_faultsWith (hs : s.execution.Sound program) (hwf : program.WellFormed)
    (hactive : s.execution.state = .active) (hreliable : tracer.Reliable) :
    (s.step program tracer).2 = .error fault ↔ s.execution.FaultsWith program fault := by
  cases hcurrent : s.execution.current? program with
  | none => exact absurd hcurrent (hs.current?_ne_none hactive)
  | some now =>
    obtain ⟨slot, report⟩ := now
    rw [step_eq_error_iff hreliable hactive hcurrent, hs.result_eq_error_iff hwf hcurrent]

/-- At a slot that fails, every tracer sees the fault and no record. -/
theorem step_of_faultsWith (h : s.execution.FaultsWith program fault)
    (hs : s.execution.Sound program) (hwf : program.WellFormed)
    (hactive : s.execution.state = .active) (tracer : Tracer σ) :
    (s.step program tracer).2 = .error fault ∧ (s.step program tracer).1.execution = s.execution ∧
      (s.step program tracer).1.trace = s.trace := by
  obtain ⟨slot, report, hcurrent⟩ := h.exists_current
  rw [step_of_fault hactive hcurrent ((hs.result_eq_error_iff hwf hcurrent).2 h)]
  exact ⟨rfl, rfl, rfl⟩

/-- A step never misses a capture. -/
theorem step_ne_missingCapture (hwf : program.WellFormed) (tracer : Tracer σ) (s : Session σ)
    (position : Nat) : (s.step program tracer).2 ≠ .error (.missingCapture position) := by
  intro h
  rcases traceFailed_or_current_of_step h with hf | ⟨slot, report, hcurrent, hresult⟩
  · cases hf
  · obtain ⟨-, hshape, rfl⟩ := shaped_of_current? hwf hcurrent
    exact hshape.result_evaluate_ne_missingCapture position hresult

/-- And so a run never does. -/
theorem run_ne_missingCapture (hwf : program.WellFormed) (limit : Option Nat) (tracer : Tracer σ)
    (s : Session σ) (position : Nat) :
    (s.run program limit tracer).2 ≠ some (.error (.missingCapture position)) := by
  intro h
  rcases stepLimit_or_step_of_runFor s h with ⟨_, hf⟩ | ⟨later, -, hfault⟩
  · cases hf
  · exact step_ne_missingCapture hwf tracer later position hfault

/-- **How loading and execution fail.** No source and no execution of its
program ever misses a capture. With a tracer that takes every record, a step of
an active execution that can be reached fails with the fault of its slot, and
only there; the execution is then as it was, the tracer has been told nothing,
and whatever is called afterwards, each further step fails in the same way. -/
theorem step_fails_iff_faultsWith (source : Text) :
    (∀ position, (Program.ofSource source).result ≠ .error (.missingCapture position)) ∧
      ∀ program, (Program.ofSource source).result = .ok program →
        ∀ {σ : Type} (tracer : Tracer σ) (s : Session σ), Reachable program s.execution →
          (∀ limit position, (s.step program tracer).2 ≠ .error (.missingCapture position) ∧
            (s.run program limit tracer).2 ≠ some (.error (.missingCapture position))) ∧
          (s.execution.state = .active → tracer.Reliable → ∀ fault,
            ((s.step program tracer).2 = .error fault ↔ s.execution.FaultsWith program fault) ∧
            ((s.step program tracer).2 = .error fault →
              (s.step program tracer).1.execution = s.execution ∧
              (s.step program tracer).1.trace = s.trace ∧
              ∀ e', ReflTransGen (Call program) s.execution e' →
                e' = s.execution ∧
                ∀ {τ : Type} (other : Tracer τ) (later : Session τ), later.execution = e' →
                  (later.step program other).2 = .error fault)) := by
  refine ⟨Program.result_ofSource_ne_missingCapture source,
    fun program hload σ tracer s hreach => ?_⟩
  have hwf := Program.wellFormed_of_ofSource hload
  have hs := hreach.sound hwf
  refine ⟨fun limit position => ⟨step_ne_missingCapture hwf tracer s position,
    run_ne_missingCapture hwf limit tracer s position⟩, fun hactive hreliable fault => ?_⟩
  have hiff : (s.step program tracer).2 = .error fault ↔ s.execution.FaultsWith program fault :=
    step_eq_error_iff_faultsWith hs hwf hactive hreliable
  refine ⟨hiff, fun herror => ?_⟩
  have hfaults := hiff.1 herror
  obtain ⟨-, hexecution, htrace⟩ := step_of_faultsWith hfaults hs hwf hactive tracer
  refine ⟨hexecution, htrace, fun e' hcalls => ?_⟩
  have hsame := hfaults.eq_of_calls hs hwf hcalls
  refine ⟨hsame, fun {τ} other later hlater => ?_⟩
  have heq : later.execution = s.execution := hlater.trans hsame
  rw [← heq] at hfaults hs hactive
  exact (step_of_faultsWith hfaults hs hwf hactive other).1

/-- The store in a program of one store goes just past the limit, and fails. -/
theorem step_fails_at_limit :
    let program : Program :=
      { image := ⟨#[0]⟩
        slots := #[⟨2, "STR R1, 65536".toList, ⟨.store, [.register 1, .address 65536]⟩⟩]
        labels := {} }
    let s := Session.start program () #[]
    (Program.ofSource "[0]\nSTR R1, 65536".toList).result = .ok program ∧
      Reachable program s.execution ∧ s.execution.state = .active ∧
      (Tracer.silent : Tracer Unit).Reliable ∧
      (s.step program .silent).2 = .error (.addressOutOfRange 2 65536) ∧
      (s.step program .silent).1.execution = s.execution := by
  intro program s
  have hload : (Program.ofSource "[0]\nSTR R1, 65536".toList).result = .ok program := by
    decide +kernel
  have hreach : Reachable program s.execution := .refl
  have hactive : s.execution.state = .active := rfl
  have hfaults : s.execution.FaultsWith program (.addressOutOfRange 2 65536) :=
    @FaultsWith.outOfRange program s.execution program.slots[0] 1 65536 rfl rfl (by decide)
  have hlaw := (step_fails_iff_faultsWith _).2 program hload .silent s hreach
  obtain ⟨hiff, hsame⟩ := hlaw.2 hactive Tracer.reliable_silent (.addressOutOfRange 2 65536)
  exact ⟨hload, hreach, hactive, Tracer.reliable_silent, hiff.2 hfaults, (hsame (hiff.2 hfaults)).1⟩

end Session

end TeachAsm
