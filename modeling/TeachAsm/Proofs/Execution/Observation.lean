import TeachAsm.Execution.Run
import TeachAsm.Proofs.Execution.Return
/-!
# Tracers only observe

What a tracer is told never comes back to the machine. A tracer that mirrors
another one leads to the mirrored session (`runFor_mapTrace`), so that a
transcript may be taken of any tracer, and any tracer may be lent, without a
change to the run. Two tracers that share nothing are compared through the trail
that both runs follow (`runFor_observed`): the run is that of the silent tracer
as long as the records are taken, and where one is refused the machine and the
count of operations have gone one step further than the place.
-/

namespace TeachAsm

namespace Session

open Execution

variable {σ τ : Type} {program : Program} {limit : Option Nat}

/-! ## Tracers that mirror each other -/

/-- The session with another state of its tracer. -/
def mapTrace (g : σ → τ) (s : Session σ) : Session τ where
  execution := s.execution
  trace := g s.trace
  log := s.log

section Mirrors

variable {tracer : Tracer τ} {g : σ → τ} {other : Tracer σ} (h : tracer.Mirrors g other)

include h

theorem commit_mapTrace (s : Session σ) (slot : Slot) (control : Control) :
    (s.mapTrace g).commit tracer slot control =
      ((s.commit other slot control).1.mapTrace g, (s.commit other slot control).2) := by
  simp only [commit, mapTrace, h _ s.trace]

/-- **A step is the same through a mirror.** -/
theorem step_mapTrace (s : Session σ) :
    (s.mapTrace g).step program tracer =
      ((s.step program other).1.mapTrace g, (s.step program other).2) := by
  have hexecution : (s.mapTrace g).execution = s.execution := rfl
  have hperform (slot : Slot) : (s.mapTrace g).perform program slot =
      ((s.perform program slot).1.mapTrace g, (s.perform program slot).2) := rfl
  unfold step
  rw [hexecution]
  split
  · cases program.slots[s.execution.counter]? with
    | none => rfl
    | some slot =>
      simp only [hperform]
      rcases s.perform program slot with ⟨s', fault | control⟩
      · rfl
      · simp only [commit_mapTrace h]
        rcases s'.commit other slot control with ⟨s'', _ | _⟩
        · rfl
        · rfl
  · rfl

/-- **And so is a run.** -/
theorem runFor_mapTrace (rounds : Nat) (s : Session σ) :
    (s.mapTrace g).runFor program limit tracer rounds =
      ((s.runFor program limit other rounds).1.mapTrace g,
        (s.runFor program limit other rounds).2) := by
  have hnone {α : Type} (result : Except Fault α) : result.mapError id = result := by
    cases result <;> rfl
  have hstep (s : Session σ) : (s.mapTrace g).step program tracer =
      ((s.step program other).1.mapTrace g, (s.step program other).2.mapError id) := by
    rw [hnone]
    exact step_mapTrace h s
  have hrun := runFor_map (f := mapTrace g) (g := id) (fun _ => rfl) (fun _ _ _ => rfl)
    (fun _ => rfl) hstep limit rounds s
  simpa [funext hnone] using hrun

end Mirrors

end Session

/-- The run with another state of its tracer. -/
def Run.mapTrace {σ τ : Type} (g : σ → τ) (run : Run σ) : Run τ where
  trace := g run.trace
  log := run.log
  result := run.result

/-- **And so is what a run of something loaded leaves behind.** -/
theorem Run.ofReport_mapTrace {σ τ : Type} {tracer : Tracer τ} {g : σ → τ} {other : Tracer σ}
    (h : tracer.Mirrors g other) (loaded : Report Program) (limit : Option Nat) (trace : σ) :
    Run.ofReport loaded limit tracer (g trace) =
      (Run.ofReport loaded limit other trace).mapTrace g := by
  obtain ⟨events, fault | program⟩ := loaded
  · rfl
  · let s := Session.start program trace events.toArray
    have hrun : (s.mapTrace g).run program limit tracer =
        ((s.run program limit other).1.mapTrace g, (s.run program limit other).2) :=
      Session.runFor_mapTrace h _ s
    exact congrArg (fun ended => Run.mk ended.1.trace ended.1.log ended.2) hrun

section Loaded

variable {σ : Type} {loaded : Report Program} {source : Text} {program : Program} {fault : Fault}

/-- What has been loaded is run from the start. -/
theorem Run.ofReport_of_ok (hload : loaded.result = .ok program) (limit : Option Nat)
    (tracer : Tracer σ) (trace : σ) :
    let ended := (Session.start program trace loaded.events.toArray).run program limit tracer
    ofReport loaded limit tracer trace = ⟨ended.1.trace, ended.1.log, ended.2⟩ := by
  rw [ofReport, hload]

/-- What has not been loaded is not run. -/
theorem Run.ofReport_of_error (hload : loaded.result = .error fault) (limit : Option Nat)
    (tracer : Tracer σ) (trace : σ) :
    ofReport loaded limit tracer trace =
      ⟨trace, loaded.events.toArray, some (.error fault)⟩ := by
  rw [ofReport, hload]

theorem Run.ofSource_of_ok (hload : (Program.ofSource source).result = .ok program)
    (limit : Option Nat) (tracer : Tracer σ) (trace : σ) :
    let ended := (Session.start program trace (Program.ofSource source).events.toArray).run
      program limit tracer
    ofSource source limit tracer trace = ⟨ended.1.trace, ended.1.log, ended.2⟩ :=
  ofReport_of_ok hload limit tracer trace

theorem Run.ofSource_of_error (hload : (Program.ofSource source).result = .error fault)
    (limit : Option Nat) (tracer : Tracer σ) (trace : σ) :
    ofSource source limit tracer trace =
      ⟨trace, (Program.ofSource source).events.toArray, some (.error fault)⟩ :=
  ofReport_of_error hload limit tracer trace

end Loaded

namespace Session

open Execution

variable {σ τ : Type} {program : Program} {limit : Option Nat}

/-! ## Tracers that share nothing -/

section Transcript

variable {tracer : Tracer σ} {rounds : Nat} {s : Session (σ × List Record)} {e : Execution}
variable {strides front back : List (Stride program)} {stride : Stride program}
variable {ending : Option (Except Fault Outcome)}

/-- The transcript of a run whose tracer takes every record. -/
theorem transcript_runFor_of_comes (h : s.execution.Comes program limit rounds strides e ending)
    (htakes : tracer.Takes s.trace.1 (strides.map Stride.record)) :
    (s.runFor program limit tracer.transcript rounds).2 = ending ∧
      (s.runFor program limit tracer.transcript rounds).1.execution = e ∧
      (s.runFor program limit tracer.transcript rounds).1.trace.2 =
        s.trace.2 ++ strides.map Stride.record := by
  obtain ⟨hresult, hexecution, htrace⟩ :=
    runFor_of_comes h (Tracer.takes_transcript_iff.2 htakes)
  exact ⟨hresult, hexecution, by rw [htrace, Tracer.after_transcript]⟩

/-- The transcript of a run whose tracer refuses a record: that record is the last
one. -/
theorem transcript_runFor_of_refused
    (h : s.execution.Comes program limit rounds (front ++ stride :: back) e ending)
    (htakes : tracer.Takes s.trace.1 (front.map Stride.record))
    (hrefused : (tracer.record stride.record
      (tracer.after s.trace.1 (front.map Stride.record))).2 = false) :
    (s.runFor program limit tracer.transcript rounds).2 = some (.error .traceFailed) ∧
      (s.runFor program limit tracer.transcript rounds).1.execution =
        stride.before.commit stride.effect ∧
      (s.runFor program limit tracer.transcript rounds).1.trace.2 =
        s.trace.2 ++ front.map Stride.record ++ [stride.record] := by
  have hafter : tracer.transcript.after s.trace (front.map Stride.record) =
      (tracer.after s.trace.1 (front.map Stride.record),
        s.trace.2 ++ front.map Stride.record) := Tracer.after_transcript
  rw [runFor_of_refused h (Tracer.takes_transcript_iff.2 htakes) (by rwa [hafter]), interrupt,
    trace_follow, hafter]
  exact ⟨rfl, rfl, rfl⟩

end Transcript

/-- Single steps without refusals come to the end of a trail. -/
theorem execution_iterate_step_of_trail {tracer : Tracer σ} (hreliable : tracer.Reliable)
    {s : Session σ} {strides : List (Stride program)} {e : Execution}
    (h : Trail program s.execution strides e) {steps : Nat} (hsteps : strides.length = steps) :
    ((fun s => (s.step program tracer).1)^[steps] s).execution = e := by
  rw [← hsteps, iterate_step_of_trail hreliable h, execution_follow h]

/-- **Tracers only observe.** In any number of rounds, and so in `run`, a run of a
loaded program does not depend on whether a transcript is taken of its tracer, or
the tracer is lent. A tracer that takes what the silent tracer is offered is
offered just that, with the same result and the same execution. A tracer that
refuses one of those records has been offered the records up to it: the run fails
with the machine and the operations that single steps without a tracer come to
after so many steps, and in the place and the state of one step before. -/
theorem runFor_observed {source : Text} (hload : (Program.ofSource source).result = .ok program)
    (limit : Option Nat) (rounds : Nat) (tracer : Tracer σ) (trace : σ) (rest : τ)
    (log : Array Event) :
    let quiet := (start program ((), []) log).runFor program limit Tracer.silent.transcript rounds
    let seen := (start program (trace, []) log).runFor program limit tracer.transcript rounds
    let plain := (start program trace log).runFor program limit tracer rounds
    let lent := (start program (trace, rest) log).runFor program limit tracer.onFirst rounds
    let quietly (steps : Nat) : Execution :=
      ((fun s => (s.step program .silent).1)^[steps] (start program () log)).execution
    plain = (seen.1.mapTrace Prod.fst, seen.2) ∧
      lent = (plain.1.mapTrace (·, rest), plain.2) ∧
      (tracer.Takes trace quiet.1.trace.2 →
        plain.2 = quiet.2 ∧ plain.1.execution = quiet.1.execution ∧
          seen.1.trace.2 = quiet.1.trace.2) ∧
      ∀ front record back, quiet.1.trace.2 = front ++ record :: back →
        tracer.Takes trace front →
        (tracer.record record (tracer.after trace front)).2 = false →
          plain.2 = some (.error .traceFailed) ∧ seen.1.trace.2 = front ++ [record] ∧
            plain.1.execution.machine = (quietly (front.length + 1)).machine ∧
            plain.1.execution.operations = (quietly (front.length + 1)).operations ∧
            plain.1.execution.counter = (quietly front.length).counter ∧
            plain.1.execution.state = (quietly front.length).state := by
  intro quiet seen plain lent quietly
  have hplain : plain = (seen.1.mapTrace Prod.fst, seen.2) :=
    runFor_mapTrace tracer.mirrors_transcript rounds (start program (trace, []) log)
  have hlent : lent = (plain.1.mapTrace (·, rest), plain.2) :=
    runFor_mapTrace (tracer.mirrors_onFirst rest) rounds (start program trace log)
  have hresult : plain.2 = seen.2 := by rw [hplain]
  have hexecution : plain.1.execution = seen.1.execution := by rw [hplain]; rfl
  -- where the execution comes to, however it is watched
  obtain ⟨strides, e, ending, hcomes⟩ := (sound_start program).exists_comes
    (Program.wellFormed_of_ofSource hload) limit rounds
  obtain ⟨hquiet, hquietly, hrecords⟩ :=
    transcript_runFor_of_comes (s := start program ((), []) log) hcomes
      (Tracer.reliable_silent.takes _ _)
  refine ⟨hplain, hlent, ?_⟩
  rw [hresult, hexecution, show quiet.1.trace.2 = strides.map Stride.record from hrecords]
  refine ⟨fun htakes => ?_, fun front record back hsplit hfront hrefused => ?_⟩
  · obtain ⟨hseen, hseenly, hoffered⟩ :=
      transcript_runFor_of_comes (s := start program (trace, []) log) hcomes htakes
    exact ⟨hseen.trans hquiet.symm, hseenly.trans hquietly.symm, hoffered⟩
  · obtain ⟨before, stride, after, rfl, rfl, rfl, rfl⟩ :=
      Stride.exists_append_of_map_record hsplit
    obtain ⟨hseen, hseenly, hoffered⟩ :=
      transcript_runFor_of_refused (s := start program (trace, []) log) hcomes hfront hrefused
    refine ⟨hseen, hoffered, ?_⟩
    obtain ⟨_, htrail, htrail'⟩ := Trail.append_iff.1 hcomes.stretch.trail
    obtain ⟨rfl, -⟩ := Trail.cons_iff.1 htrail'
    have hbefore : quietly (before.map Stride.record).length = stride.before :=
      execution_iterate_step_of_trail Tracer.reliable_silent htrail (by simp)
    have hafter : quietly ((before.map Stride.record).length + 1) = stride.after :=
      execution_iterate_step_of_trail Tracer.reliable_silent (Trail.concat_iff.2 ⟨htrail, rfl⟩)
        (by simp)
    rw [hseenly, hbefore, hafter, stride.machine_after, stride.operations_after]
    exact ⟨rfl, rfl, rfl, rfl⟩

/-- A program that halts with its second step, and text of which the sink has room
for the first record only: the run fails at the slot that halts, not halted and
with both steps counted. With room for everything the run is that without a
tracer. -/
theorem runFor_observed_halt :
    let program : Program :=
      { image := ⟨#[0]⟩
        slots := #[⟨2, "MOV R0, #5".toList, ⟨.copy, [.register 0, .operand (.immediate 5)]⟩⟩,
          ⟨3, "HALT".toList, ⟨.halt, []⟩⟩]
        labels := {} }
    let narrow : Sink := { room := some 150 }
    let quiet := (start program ((), []) #[]).runFor program none Tracer.silent.transcript 3
    let narrowly := (start program narrow #[]).runFor program none .text 3
    let widely := (start program ({} : Sink) #[]).runFor program none .text 3
    (Program.ofSource "[0]\nMOV R0, #5\nHALT".toList).result = .ok program ∧
      widely.2 = quiet.2 ∧ quiet.2 = some (.ok ⟨.halted, 2⟩) ∧
      narrowly.2 = some (.error .traceFailed) ∧ narrowly.1.execution.operations = 2 ∧
      narrowly.1.execution.counter = 1 ∧ narrowly.1.execution.state = .active := by
  intro program narrow quiet narrowly widely
  have hload : (Program.ofSource "[0]\nMOV R0, #5\nHALT".toList).result = .ok program := by
    decide +kernel
  have hquiet : quiet.2 = some (.ok ⟨.halted, 2⟩) := by decide +kernel
  obtain ⟨-, -, hwidely, -⟩ := runFor_observed hload none 3 .text ({} : Sink) () #[]
  obtain ⟨-, -, -, hnarrowly⟩ := runFor_observed hload none 3 .text narrow () #[]
  let five : Registers := ⟨[(0, 5)], by decide, none⟩
  let first : Record :=
    ⟨0, 1, "MOV R0, #5".toList, "Copy to register".toList, ⟨#[0]⟩, five⟩
  let second : Record := ⟨1, 2, "HALT".toList, "Halt".toList, ⟨#[0]⟩, five⟩
  have hrecords : quiet.1.trace.2 = [first] ++ [second] := by decide +kernel
  obtain ⟨hresult, -, -, hoperations, hcounter, hstate⟩ :=
    hnarrowly [first] second [] hrecords ⟨by decide +kernel, trivial⟩ (by decide +kernel)
  refine ⟨hload, (hwidely (Tracer.takes_text rfl _)).1, hquiet, hresult, ?_, ?_, ?_⟩
  · rw [hoperations]
    decide +kernel
  · rw [hcounter]
    decide +kernel
  · rw [hstate]
    decide +kernel

end Session

end TeachAsm
