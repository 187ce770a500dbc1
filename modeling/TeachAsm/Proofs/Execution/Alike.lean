import TeachAsm.Proofs.Execution.Replay
import TeachAsm.Proofs.Instruction.Alike
/-!
# Executions that read alike

Two executions of programs with the same slots and the same labels, at the same
place and with machines that read alike, go on in the same way: each step has the
same result on both and tells the same of itself, and leaves machines that read
alike again (`Session.Related.step`). So runs of any length do, with any limit
(`Session.Related.runFor`). This is proved of every relation that machines keep in
lockstep. Zeros that are appended to a memory image are one case of it: they
change nothing that can be read (`Run.unset_means_zero`).
-/

namespace TeachAsm

variable {M : Machine → Machine → Prop} {program program' : Program}

/-- Executions at the same place, with related machines. -/
structure Execution.Related (M : Machine → Machine → Prop) (e e' : Execution) : Prop where
  counter_eq : e.counter = e'.counter
  operations_eq : e.operations = e'.operations
  state_eq : e.state = e'.state
  machine : M e.machine e'.machine

/-- Records of the same step, with related machines. -/
structure Record.Related (M : Machine → Machine → Prop) (record record' : Record) : Prop where
  counter_eq : record.counter = record'.counter
  operations_eq : record.operations = record'.operations
  text_eq : record.text = record'.text
  name_eq : record.name = record'.name
  machine : M record.machine record'.machine

/-- Sessions whose executions and transcripts are related. -/
structure Session.Related {σ τ : Type} (M : Machine → Machine → Prop)
    (s : Session (σ × List Record)) (s' : Session (τ × List Record)) : Prop where
  execution : s.execution.Related M s'.execution
  records : List.Forall₂ (Record.Related M) s.trace.2 s'.trace.2

/-! ## One stride -/

namespace Execution

variable {e e' : Execution}

/-- Related executions are at the same slot, and it comes to the same. -/
theorem Related.exists_current (hM : Machine.Lockstep M) (hslots : program.slots = program'.slots)
    (hlabels : program.labels = program'.labels) (h : e.Related M e') {slot : Slot}
    {report : Report (Effect × Control)} (hcurrent : e.current? program = some (slot, report)) :
    ∃ report', e'.current? program' = some (slot, report') ∧ report'.result = report.result := by
  obtain ⟨hslot, rfl⟩ := current?_eq_some_iff.1 hcurrent
  refine ⟨_, current?_eq_some_iff.2 ⟨?_, rfl⟩, ?_⟩
  · rw [← hslots, ← h.counter_eq, hslot]
  · rw [← hlabels, Instruction.result_evaluate_of_alike (hM.alike h.machine)]

/-- **The same effect keeps executions related.** -/
theorem Related.commit (hM : Machine.Lockstep M) (h : e.Related M e') (effect : Effect) :
    (e.commit effect).Related M (e'.commit effect) :=
  ⟨h.counter_eq, congrArg (· + 1) h.operations_eq, h.state_eq, hM.apply effect h.machine⟩

theorem Related.goto (h : e.Related M e') (size place : Nat) :
    (e.goto size place).Related M (e'.goto size place) where
  counter_eq := rfl
  operations_eq := h.operations_eq
  state_eq := by rw [Execution.goto, Execution.goto, h.state_eq]
  machine := h.machine

/-- And so does the same move. -/
theorem Related.advance (h : e.Related M e') (size : Nat) (control : Control) :
    (e.advance size control).Related M (e'.advance size control) := by
  cases control with
  | next =>
    rw [Execution.advance, Execution.advance, h.counter_eq]
    exact h.goto size _
  | jump place => exact h.goto size place
  | halt => exact { h with state_eq := rfl }

/-- What related executions tell of a slot is related. -/
theorem Related.record (h : e.Related M e') (slot : Slot) :
    (e.record slot).Related M (e'.record slot) :=
  ⟨h.counter_eq, h.operations_eq, rfl, rfl, h.machine⟩

end Execution

/-! ## Steps and runs -/

namespace Session

open Execution

variable {σ τ : Type} {tracer : Tracer σ} {tracer' : Tracer τ}
variable {s : Session (σ × List Record)} {s' : Session (τ × List Record)}
variable (hM : Machine.Lockstep M) (hslots : program.slots = program'.slots)
variable (hlabels : program.labels = program'.labels)
variable (hreliable : tracer.Reliable) (hreliable' : tracer'.Reliable)

include hM hslots hlabels hreliable hreliable'

/-- **Related sessions step alike.** -/
theorem Related.step (h : s.Related M s') :
    (s.step program tracer.transcript).2 = (s'.step program' tracer'.transcript).2 ∧
      (s.step program tracer.transcript).1.Related M
        (s'.step program' tracer'.transcript).1 := by
  have hstate := h.execution.state_eq
  by_cases hactive : s.execution.state = .active
  · have hactive' : s'.execution.state = .active := hstate.symm.trans hactive
    rcases hcurrent : s.execution.current? program with _ | ⟨slot, report⟩
    · have hcurrent' : s'.execution.current? program' = none := by
        rw [current?_eq_none_iff, Program.size] at hcurrent ⊢
        rwa [← hslots, ← h.execution.counter_eq]
      rw [step_of_pastEnd hactive hcurrent, step_of_pastEnd hactive' hcurrent']
      exact ⟨rfl, { h.execution with state_eq := rfl }, h.records⟩
    · obtain ⟨report', hcurrent', hsame⟩ := h.execution.exists_current hM hslots hlabels hcurrent
      rcases hresult : report.result with fault | ⟨effect, control⟩
      · rw [step_of_fault hactive hcurrent hresult,
          step_of_fault hactive' hcurrent' (hsame.trans hresult)]
        exact ⟨rfl, h.execution, h.records⟩
      · -- both make a stride, and the tracers take its record
        let stride : Stride program :=
          ⟨s.execution, slot, report, effect, control, hactive, hcurrent, hresult⟩
        let stride' : Stride program' :=
          ⟨s'.execution, slot, report', effect, control, hactive', hcurrent',
            hsame.trans hresult⟩
        rw [step_of_taken stride rfl (hreliable.transcript _ _),
          step_of_taken stride' rfl (hreliable'.transcript _ _)]
        have hafter : stride.after.Related M stride'.after := by
          have hsize : program.size = program'.size := congrArg Array.size hslots
          rw [Stride.after, Stride.after, hsize]
          exact (h.execution.commit hM effect).advance _ control
        have hrecord : stride.record.Related M stride'.record :=
          (h.execution.commit hM effect).record slot
        exact ⟨congrArg Except.ok hafter.state_eq, hafter,
          List.rel_append h.records (.cons hrecord .nil)⟩
  · rw [step_of_ne_active hactive, step_of_ne_active (hstate ▸ hactive), hstate]
    exact ⟨rfl, h⟩

/-- **Related sessions run alike**, as long as the run goes on. -/
theorem Related.runFor (h : s.Related M s') (limit : Option Nat) (rounds : Nat) :
    (s.runFor program limit tracer.transcript rounds).2 =
        (s'.runFor program' limit tracer'.transcript rounds).2 ∧
      (s.runFor program limit tracer.transcript rounds).1.Related M
        (s'.runFor program' limit tracer'.transcript rounds).1 := by
  induction rounds generalizing s s' with
  | zero => exact ⟨rfl, h⟩
  | succ rounds ih =>
    obtain ⟨hresult, hnext⟩ := h.step hM hslots hlabels hreliable hreliable'
    unfold Session.runFor
    rw [← h.execution.state_eq, ← h.execution.operations_eq]
    split
    · split
      · exact ⟨rfl, h⟩
      · rcases hstep : s.step program tracer.transcript with ⟨next, result⟩
        rcases hstep' : s'.step program' tracer'.transcript with ⟨next', result'⟩
        rw [hstep, hstep'] at hresult hnext
        obtain rfl : result = result' := hresult
        cases result with
        | ok state => exact ih hnext
        | error fault => exact ⟨rfl, hnext⟩
    · refine ⟨?_, h.execution, h.records⟩
      simp only [outcome, h.execution.state_eq, h.execution.operations_eq]

end Session

/-! ## Zeros behind the image -/

namespace Program

/-- The program with zeros appended to its image until it has `n` words. -/
def growImage (program : Program) (n : Nat) : Program :=
  { program with image := program.image.grow n }

variable {first first' : Line} {rest : List Line} {image : Memory} {n : Nat}

/-- **An image with zeros behind it loads with the same lines**, and meets the same
faults. -/
theorem result_ofLines_grow (himage : Memory.ofText? first.text = some image)
    (himage' : Memory.ofText? first'.text = some (image.grow n)) :
    (ofLines (first' :: rest)).result =
      (ofLines (first :: rest)).result.map fun program => program.growImage n := by
  rw [result_ofLines_cons himage, result_ofLines_cons himage']
  cases Slot.ofLines rest with
  | error fault => rfl
  | ok slots =>
    simp only [bind, Except.bind]
    cases (Labels.resolve {} slots.zipIdx).result <;> rfl

/-- The two programs start alike. -/
theorem related_start (program : Program) (hn : n ≤ Memory.limit) :
    (Execution.start program).Related Machine.Padded (Execution.start (program.growImage n)) :=
  ⟨rfl, rfl, rfl, Machine.padded_grow _ hn⟩

end Program

section Run

variable {σ τ : Type} {tracer : Tracer σ} {tracer' : Tracer τ} {n : Nat}
variable (hreliable : tracer.Reliable) (hreliable' : tracer'.Reliable) (hn : n ≤ Memory.limit)

include hreliable hreliable' hn

/-- **Zeros behind the image change nothing that can be read**, in any number of
rounds and with any limit. -/
theorem Session.related_runFor_growImage (program : Program) (limit : Option Nat) (rounds : Nat)
    (trace : σ) (trace' : τ) (log log' : Array Event) :
    let ended := (start program (trace, []) log).runFor program limit tracer.transcript rounds
    let ended' := (start (program.growImage n) (trace', []) log').runFor (program.growImage n)
      limit tracer'.transcript rounds
    ended.2 = ended'.2 ∧ ended.1.Related Machine.Padded ended'.1 := by
  have hstart : (start program (trace, []) log).Related Machine.Padded
      (start (program.growImage n) (trace', []) log') := ⟨program.related_start hn, .nil⟩
  have hslots : program.slots = (program.growImage n).slots := rfl
  exact hstart.runFor Machine.lockstep_padded hslots rfl hreliable hreliable' limit rounds

/-- And so a run of what has been loaded has the same result. -/
theorem Run.result_ofReport_growImage {loaded loaded' : Report Program}
    (hload : loaded'.result = loaded.result.map fun program => program.growImage n)
    (limit : Option Nat) (trace : σ) (trace' : τ) :
    (ofReport loaded limit tracer trace).result =
      (ofReport loaded' limit tracer' trace').result := by
  obtain ⟨events, fault | program⟩ := loaded <;> obtain ⟨events', result⟩ := loaded'
  · obtain rfl : result = .error fault := hload
    rfl
  · obtain rfl : result = .ok (program.growImage n) := hload
    -- a tracer does not see less of the run than its transcript
    have hplain := ofReport_mapTrace tracer.mirrors_transcript ⟨events, .ok program⟩ limit
      (trace, [])
    have hplain' := ofReport_mapTrace tracer'.mirrors_transcript
      ⟨events', .ok (program.growImage n)⟩ limit (trace', [])
    rw [hplain, hplain']
    exact (Session.related_runFor_growImage hreliable hreliable' hn program limit
      (Session.capacity + 1) trace trace' events.toArray events'.toArray).1

end Run

/-- **Unset means zero.** Executions of programs with the same slots and labels, at
the same place and with machines that read alike, step alike: with tracers that
take every record, the result is the same, the records are of the same step, and
the executions are related again. So a source whose image has zeros appended, up
to a length that does not pass the limit of memory, loads as it did, or meets the
same fault. Its run has the same outcome or fault, with any limit. Wherever the
runs have come to, in any number of rounds, they have taken the same path, and
after each step the same registers exist and every address reads the same. -/
theorem Run.unset_means_zero :
    (∀ {program program' : Program}, program.slots = program'.slots →
      program.labels = program'.labels →
      ∀ {σ τ : Type} {tracer : Tracer σ} {tracer' : Tracer τ}, tracer.Reliable →
        tracer'.Reliable →
        ∀ {e e' : Execution}, e.Related Machine.Alike e' → ∀ trace trace' log log',
          let next := (Session.resumed e trace log).step program tracer.transcript
          let next' := (Session.resumed e' trace' log').step program' tracer'.transcript
          next.2 = next'.2 ∧ next.1.execution.Related Machine.Alike next'.1.execution ∧
            List.Forall₂ (Record.Related Machine.Alike) next.1.trace.2 next'.1.trace.2) ∧
    ∀ {source source' : Text} {first first' : Line} {rest : List Line} {image : Memory} {n : Nat},
      Line.ofSource source = first :: rest → Line.ofSource source' = first' :: rest →
      Memory.ofText? first.text = some image → Memory.ofText? first'.text = some (image.grow n) →
      n ≤ Memory.limit →
      (Program.ofSource source').result =
        (Program.ofSource source).result.map (fun program => program.growImage n) ∧
      ∀ {σ τ : Type} {tracer : Tracer σ} {tracer' : Tracer τ}, tracer.Reliable →
        tracer'.Reliable → ∀ (limit : Option Nat) trace trace',
          (ofSource source limit tracer trace).result =
            (ofSource source' limit tracer' trace').result ∧
          ∀ program, (Program.ofSource source).result = .ok program → ∀ rounds log log',
            let ended := (Session.start program (trace, []) log).runFor program limit
              tracer.transcript rounds
            let ended' := (Session.start (program.growImage n) (trace', []) log').runFor
              (program.growImage n) limit tracer'.transcript rounds
            ended.2 = ended'.2 ∧ ended.1.execution.Related Machine.Padded ended'.1.execution ∧
              List.Forall₂ (Record.Related Machine.Padded) ended.1.trace.2 ended'.1.trace.2 := by
  constructor
  · intro program program' hslots hlabels σ τ tracer tracer' hreliable hreliable' e e' h
      trace trace' log log' next next'
    have hrelated : (Session.resumed e trace log).Related Machine.Alike
        (Session.resumed e' trace' log') := ⟨h, .nil⟩
    obtain ⟨hresult, hnext⟩ :=
      hrelated.step Machine.lockstep_alike hslots hlabels hreliable hreliable'
    exact ⟨hresult, hnext.execution, hnext.records⟩
  · intro source source' first first' rest image n hlines hlines' himage himage' hn
    have hload : (Program.ofSource source').result =
        (Program.ofSource source).result.map fun program => program.growImage n := by
      rw [Program.ofSource, Program.ofSource, hlines, hlines']
      exact Program.result_ofLines_grow himage himage'
    refine ⟨hload, fun {σ τ tracer tracer'} hreliable hreliable' limit trace trace' =>
      ⟨?_, fun program _ rounds log log' => ?_⟩⟩
    · exact result_ofReport_growImage hreliable hreliable' hn hload limit trace trace'
    · obtain ⟨hresult, hended⟩ := Session.related_runFor_growImage hreliable hreliable' hn
        program limit rounds trace trace' log log'
      exact ⟨hresult, hended.execution, hended.records⟩

/-- A register that does not exist is stored past the end of memory, and a word in
the gap is loaded. It makes no difference if the register exists and is zero, or
if memory is longer from the start. -/
theorem Run.unset_means_zero_store :
    let program : Program :=
      { image := ⟨#[7]⟩
        slots := #[⟨2, "STR R1, 3".toList, ⟨.store, [.register 1, .address 3]⟩⟩,
          ⟨3, "LDR R0, 2".toList, ⟨.load, [.register 0, .address 2]⟩⟩,
          ⟨4, "HALT".toList, ⟨.halt, []⟩⟩]
        labels := {} }
    let source := "[7]\nSTR R1, 3\nLDR R0, 2\nHALT".toList
    let source' := "[7, 0, 0, 0, 0]\nSTR R1, 3\nLDR R0, 2\nHALT".toList
    let e := Execution.start program
    let e' : Execution :=
      { e with machine := ⟨e.machine.memory.grow 3, e.machine.registers.write 1 0⟩ }
    let next := (Session.resumed e #[] #[]).step program Tracer.steps.transcript
    let next' := (Session.resumed e' () #[]).step program Tracer.silent.transcript
    e.Related Machine.Alike e' ∧ next.2 = next'.2 ∧
      next.1.execution.Related Machine.Alike next'.1.execution ∧
      (Program.ofSource source).result = .ok program ∧
      (Program.ofSource source').result = .ok (program.growImage 5) ∧
      (ofSource source none .steps #[]).result = (ofSource source' none .silent ()).result ∧
      (ofSource source' none .silent ()).result = some (.ok ⟨.halted, 3⟩) := by
  intro program source source' e e' next next'
  obtain ⟨hstep, hzeros⟩ := unset_means_zero
  have hregister (r : Register) : e.machine.registers.get r =
      (e.machine.registers.write 1 0).get r := by
    rw [Registers.get_write]
    split <;> rfl
  have hlonger := Machine.padded_grow e.machine (show 3 ≤ Memory.limit by decide)
  have hrelated : e.Related Machine.Alike e' :=
    ⟨rfl, rfl, rfl, rfl, hregister, hlonger.word_eq, hlonger.bound_eq⟩
  obtain ⟨hresult, hnext, -⟩ := hstep rfl rfl Tracer.reliable_steps Tracer.reliable_silent
    hrelated #[] () #[] #[]
  have hload : (Program.ofSource source).result = .ok program := by decide +kernel
  obtain ⟨hload', hruns⟩ := @hzeros source source' ⟨1, "[7]".toList⟩
    ⟨1, "[7, 0, 0, 0, 0]".toList⟩
    [⟨2, "STR R1, 3".toList⟩, ⟨3, "LDR R0, 2".toList⟩, ⟨4, "HALT".toList⟩] ⟨#[7]⟩ 5
    (by decide +kernel) (by decide +kernel) (by decide +kernel) (by decide +kernel) (by decide)
  obtain ⟨hsame, -⟩ := hruns Tracer.reliable_steps Tracer.reliable_silent none #[] ()
  rw [hload] at hload'
  exact ⟨hrelated, hresult, hnext, hload, hload', hsame, by decide +kernel⟩

end TeachAsm
