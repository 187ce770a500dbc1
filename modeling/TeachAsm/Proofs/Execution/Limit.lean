import Mathlib.Data.ENat.Basic
import TeachAsm.Proofs.Execution.Trail
/-!
# Runs with a limit

A run tests its limit in front of each step, and an execution that is over takes
no step any more. So a program that stops with as many steps as the limit allows
stops, one whose next step would be a fault does not get as far as the fault, and
otherwise a run makes as many steps as it may and says that it has used them up
(`Session.run_limit`). What the limit cuts short is the `Execution.Course`: how
many steps there are without a limit, and how they end.
-/

namespace TeachAsm

/-! ## The course of an execution -/

/-- **How many steps an execution completes, and how it ends**: after so many
strides it is at its end, or there is no end to them. -/
inductive Execution.Course (program : Program) (e : Execution) :
    ℕ∞ → Option (Except Fault Outcome) → Prop
  | ends {strides : List (Stride program)} {e' : Execution} {result : Except Fault Outcome}
      (htrail : Trail program e strides e') (hend : e'.AtEnd program result) :
      Course program e strides.length (some result)
  | forever (h : ∀ n : ℕ, ∃ strides e', Trail program e strides e' ∧ strides.length = n) :
      Course program e ⊤ none

namespace Execution

variable {program : Program} {e : Execution} {steps steps' : ℕ∞}
variable {ending ending' : Option (Except Fault Outcome)}

/-- Every execution of a loaded program has a course. -/
theorem Sound.exists_course (hs : e.Sound program) (hwf : program.WellFormed) :
    ∃ steps ending, e.Course program steps ending := by
  by_cases h : ∃ strides e' result, Trail program e strides e' ∧ e'.AtEnd program result
  · obtain ⟨strides, e', result, htrail, hend⟩ := h
    exact ⟨_, _, .ends htrail hend⟩
  · refine ⟨⊤, none, .forever fun n => ?_⟩
    rcases Trail.exists_length_eq_or_atEnd hs hwf n with
      htrail | ⟨strides, e', result, htrail, hend, -⟩
    · exact htrail
    · exact absurd ⟨strides, e', result, htrail, hend⟩ h

/-- And it has one only. -/
theorem Course.unique (h : e.Course program steps ending) (h' : e.Course program steps' ending') :
    steps' = steps ∧ ending' = ending := by
  have hends : ∀ {strides : List (Stride program)} {e' : Execution} {result : Except Fault Outcome},
      Trail program e strides e' → e'.AtEnd program result →
        ¬ ∀ n : ℕ, ∃ others e'', Trail program e others e'' ∧ others.length = n := by
    intro strides e' result htrail hend hforever
    obtain ⟨others, e'', htrail', hlength⟩ := hforever (strides.length + 1)
    have hle := htrail.length_le hend htrail'
    omega
  cases h with
  | ends htrail hend =>
    cases h' with
    | ends htrail' hend' =>
      obtain ⟨rfl, rfl⟩ := htrail.eq_of_atEnd hend htrail' hend'
      exact ⟨rfl, rfl⟩
    | forever hforever => exact absurd hforever (hends htrail hend)
  | forever hforever =>
    cases h' with
    | ends htrail' hend' => exact absurd hforever (hends htrail' hend')
    | forever => exact ⟨rfl, rfl⟩

/-- Where the course is not at its end yet, there is a trail that is to go on. -/
theorem Course.exists_active (h : e.Course program steps ending) {n : ℕ}
    (hok : ∀ outcome, ending = some (.ok outcome) → n < steps)
    (herror : ∀ fault, ending = some (.error fault) → n ≤ steps) :
    ∃ strides e', Trail program e strides e' ∧ strides.length = n ∧ e'.state = .active := by
  cases h with
  | forever hforever =>
    obtain ⟨strides, e', htrail, hlength⟩ := hforever (n + 1)
    exact htrail.exists_active_of_lt (by omega)
  | @ends strides e' result htrail hend =>
    cases hend with
    | stopped => exact htrail.exists_active_of_lt (Nat.cast_lt.1 (hok _ rfl))
    | fault hactive =>
      -- the limit may stand right in front of the fault
      rcases Nat.lt_or_eq_of_le (Nat.cast_le.1 (herror _ rfl)) with hlt | rfl
      · exact htrail.exists_active_of_lt hlt
      · exact ⟨strides, e', htrail, rfl, hactive⟩

end Execution

namespace Session

open Execution

variable {σ : Type} {program : Program} {tracer : Tracer σ} {limit : Option Nat} {s : Session σ}
variable {e : Execution} {strides : List (Stride program)} {result : Except Fault Outcome}

/-! ## The end of a run -/

/-- At the end of an execution a run has its result, unless the limit is reached
in front of a fault. -/
theorem runFor_of_atEnd (hend : s.execution.AtEnd program result)
    (hlimit : s.execution.state = .active → s.execution.Below limit) (rounds : Nat) :
    (s.runFor program limit tracer (rounds + 1)).2 = some result ∧
      (s.runFor program limit tracer (rounds + 1)).1.execution = s.execution ∧
      (s.runFor program limit tracer (rounds + 1)).1.trace = s.trace := by
  cases hend with
  | stopped hover =>
    rw [runFor, if_neg hover]
    exact ⟨rfl, rfl, rfl⟩
  | fault hactive hcurrent hresult =>
    have hbelow : limit.filter (· ≤ s.execution.operations) = none :=
      Below.filter_eq_none (hlimit hactive)
    rw [runFor, if_pos hactive, hbelow]
    simp only [step_of_fault hactive hcurrent hresult, true_and]
    exact ⟨rfl, rfl⟩

/-- A run that has used up its steps says so. -/
theorem runFor_of_limit (hactive : s.execution.state = .active) {n : Nat}
    (hlimit : n ≤ s.execution.operations) (rounds : Nat) :
    s.runFor program (some n) tracer (rounds + 1) = (s, some (.error (.stepLimit n))) := by
  have hfilter : (some n).filter (· ≤ s.execution.operations) = some n := by simp [hlimit]
  rw [runFor, if_pos hactive, hfilter]

/-! ## Whole runs -/

/-- **A run that its limit lets come to the end** has the result it has there. -/
theorem run_of_trail (hreliable : tracer.Reliable) (htrail : Trail program s.execution strides e)
    (hend : e.AtEnd program result) (hlength : strides.length ≤ capacity)
    (hle : ∀ n ∈ limit, e.operations ≤ n)
    (hlt : e.state = .active → ∀ n ∈ limit, e.operations < n) :
    (s.run program limit tracer).2 = some result ∧
      (s.run program limit tracer).1.execution = e := by
  have hrounds : capacity + 1 = strides.length + (capacity - strides.length + 1) := by omega
  have hexecution := @execution_follow _ _ tracer _ _ _ htrail
  rw [run, hrounds, runFor_of_trail hreliable htrail hle]
  rw [← hexecution] at hend hlt ⊢
  obtain ⟨hresult, hsame, -⟩ := runFor_of_atEnd hend hlt (capacity - strides.length)
  exact ⟨hresult, hsame⟩

/-- **A run that its limit stops** has followed the trail up to there. -/
theorem run_of_trail_limit (hreliable : tracer.Reliable)
    (htrail : Trail program s.execution strides e) (hactive : e.state = .active)
    (hlength : strides.length ≤ capacity) :
    s.run program (some e.operations) tracer =
      (s.follow tracer strides, some (.error (.stepLimit e.operations))) := by
  have hrounds : capacity + 1 = strides.length + (capacity - strides.length + 1) := by omega
  have hexecution := @execution_follow _ _ tracer _ _ _ htrail
  rw [run, hrounds, runFor_of_trail hreliable htrail (by simp)]
  exact runFor_of_limit (hexecution.symm ▸ hactive) (Nat.le_of_eq (by rw [hexecution])) _

/-! ## Runs from the first step on -/

section FromStart

variable {steps : ℕ∞} {ending : Option (Except Fault Outcome)} {n : Nat}
variable (hreliable : tracer.Reliable) (hstart : s.execution.operations = 0)

include hreliable hstart

/-- Without a limit a run ends as its course does. -/
theorem run_none_of_course (hcourse : s.execution.Course program steps ending)
    (hsteps : steps < UInt64.size) :
    (s.run program none tracer).2 = ending ∧
      (s.run program none tracer).1.execution.operations = steps := by
  cases hcourse with
  | forever => exact absurd hsteps (by simp)
  | @ends strides e result htrail hend =>
    have hlength : strides.length ≤ capacity := Nat.le_of_lt (Nat.cast_lt.1 hsteps)
    obtain ⟨hresult, hexecution⟩ :=
      @run_of_trail _ _ _ none _ _ _ _ hreliable htrail hend hlength (by simp) (by simp)
    have hoperations := htrail.operations_eq
    rw [hstart, Nat.zero_add] at hoperations
    exact ⟨hresult, by rw [hexecution, hoperations]⟩

/-- A limit that allows all steps of a course that stops makes no difference. -/
theorem run_of_course_ok {outcome : Outcome}
    (hcourse : s.execution.Course program steps (some (.ok outcome))) (hle : steps ≤ n)
    (hn : n < UInt64.size) : (s.run program (some n) tracer).2 = some (.ok outcome) := by
  cases hcourse with
  | @ends strides e _ htrail hend =>
    have hle : strides.length ≤ n := Nat.cast_le.1 hle
    have hoperations := htrail.operations_eq
    cases hend with
    | stopped hover =>
      have hlength : strides.length ≤ capacity := hle.trans (Nat.le_of_lt hn)
      refine (run_of_trail hreliable htrail (.stopped hover) hlength ?_ ?_).1
      · simpa [hoperations, hstart] using hle
      · exact fun hactive => absurd hactive hover

/-- A limit that allows one step more than there are before a fault makes no
difference. -/
theorem run_of_course_error {fault : Fault}
    (hcourse : s.execution.Course program steps (some (.error fault))) (hlt : steps < n)
    (hn : n < UInt64.size) : (s.run program (some n) tracer).2 = some (.error fault) := by
  cases hcourse with
  | @ends strides e _ htrail hend =>
    have hlt : strides.length < n := Nat.cast_lt.1 hlt
    have hoperations := htrail.operations_eq
    have hlength : strides.length ≤ capacity := Nat.le_of_lt (hlt.trans hn)
    refine (run_of_trail hreliable htrail hend hlength ?_ ?_).1
    · simpa [hoperations, hstart] using Nat.le_of_lt hlt
    · simpa [hoperations, hstart] using fun _ => hlt

/-- **Every other limit is reached**, after as many steps. -/
theorem run_of_course_limit (hcourse : s.execution.Course program steps ending)
    (hok : ∀ outcome, ending = some (.ok outcome) → n < steps)
    (herror : ∀ fault, ending = some (.error fault) → n ≤ steps) (hn : n < UInt64.size) :
    ∃ strides e, strides.length = n ∧ Trail program s.execution strides e ∧
      s.run program (some n) tracer =
        (s.follow tracer strides, some (.error (.stepLimit n))) := by
  obtain ⟨strides, e, htrail, hlength, hactive⟩ := hcourse.exists_active hok herror
  have hoperations := htrail.operations_eq
  rw [hstart, Nat.zero_add, hlength] at hoperations
  have hrun := run_of_trail_limit hreliable htrail hactive (hlength ▸ Nat.le_of_lt hn)
  rw [hoperations] at hrun
  exact ⟨strides, e, hlength, htrail, hrun⟩

end FromStart

/-- The course of a program without slots. -/
theorem course_start_of_size_eq_zero (hsize : program.size = 0) :
    (Execution.start program).Course program 0 (some (.ok ⟨.finished, 0⟩)) := by
  have hstate : (Execution.start program).state = .finished := by
    simp [Execution.start, hsize]
  have hend := @AtEnd.stopped program (Execution.start program) (by simp [hstate])
  rw [Execution.outcome, hstate] at hend
  exact .ends (.nil _) hend

/-- **What a limit does to the run of a loaded program.** The program has one
course: so many steps without a limit, and then an outcome, a fault, or nothing
at all. A run without a limit ends as the course does, if its steps can be
counted. A run with a limit has the same outcome when the course stops within
the limit, and the same fault when there is a step left to meet it. Otherwise it
says that it has reached the limit: it is where as many single steps lead, and
as many records, those of the first steps of the course, have been taken. A
program without slots succeeds under every limit. -/
theorem run_limit {source : Text} (hload : (Program.ofSource source).result = .ok program)
    (hreliable : tracer.Reliable) (trace : σ) (log : Array Event) :
    let s := start program trace log
    ∃ steps ending, s.execution.Course program steps ending ∧
      (∀ steps' ending', s.execution.Course program steps' ending' →
        steps' = steps ∧ ending' = ending) ∧
      (steps < UInt64.size → (s.run program none tracer).2 = ending ∧
        (s.run program none tracer).1.execution.operations = steps) ∧
      (∀ limit < UInt64.size,
        (∀ outcome, ending = some (.ok outcome) → steps ≤ limit →
          (s.run program (some limit) tracer).2 = some (.ok outcome)) ∧
        (∀ fault, ending = some (.error fault) → steps < limit →
          (s.run program (some limit) tracer).2 = some (.error fault)) ∧
        ((∀ outcome, ending = some (.ok outcome) → limit < steps) →
          (∀ fault, ending = some (.error fault) → limit ≤ steps) →
            (s.run program (some limit) tracer).2 = some (.error (.stepLimit limit)) ∧
            (s.run program (some limit) tracer).1 =
              (fun s => (s.step program tracer).1)^[limit] s ∧
            ∃ strides, strides.length = limit ∧
              Trail program s.execution strides (s.run program (some limit) tracer).1.execution ∧
              (s.run program (some limit) tracer).1.trace =
                (strides.map Stride.record).foldl
                  (fun trace record => (tracer.record record trace).1) trace)) ∧
      (program.size = 0 → ∀ limit < UInt64.size,
        (s.run program (some limit) tracer).2 = some (.ok ⟨.finished, 0⟩)) := by
  intro s
  have hwf := Program.wellFormed_of_ofSource hload
  have hs : s.execution.Sound program := sound_start program
  have hstart : s.execution.operations = 0 := rfl
  obtain ⟨steps, ending, hcourse⟩ := hs.exists_course hwf
  refine ⟨steps, ending, hcourse, fun _ _ => hcourse.unique,
    run_none_of_course hreliable hstart hcourse, fun limit hlimit => ⟨?_, ?_, ?_⟩, ?_⟩
  · rintro outcome rfl hle
    exact run_of_course_ok hreliable hstart hcourse hle hlimit
  · rintro fault rfl hlt
    exact run_of_course_error hreliable hstart hcourse hlt hlimit
  · intro hok herror
    obtain ⟨strides, e, hlength, htrail, hrun⟩ :=
      run_of_course_limit hreliable hstart hcourse hok herror hlimit
    rw [hrun]
    refine ⟨rfl, ?_, strides, hlength, ?_, trace_follow tracer s strides⟩
    · rw [← hlength, iterate_step_of_trail hreliable htrail]
    · rwa [execution_follow htrail]
  · intro hsize limit hlimit
    have hempty := course_start_of_size_eq_zero hsize
    exact run_of_course_ok hreliable hstart hempty (by simp) hlimit

/-- A program that halts with its first step: a limit of one step is enough, and
none is not. -/
theorem run_limit_halt :
    let program : Program :=
      { image := ⟨#[0]⟩, slots := #[⟨2, "HALT".toList, ⟨.halt, []⟩⟩], labels := {} }
    let s := start program #[] #[]
    (Program.ofSource "[0]\nHALT".toList).result = .ok program ∧ Tracer.steps.Reliable ∧
      s.execution.Course program 1 (some (.ok ⟨.halted, 1⟩)) ∧
      (s.run program (some 1) .steps).2 = some (.ok ⟨.halted, 1⟩) ∧
      (s.run program (some 0) .steps).2 = some (.error (.stepLimit 0)) := by
  intro program s
  have hload : (Program.ofSource "[0]\nHALT".toList).result = .ok program := by decide +kernel
  let stride : Stride program :=
    ⟨s.execution, program.slots[0], ⟨[], .ok (.none, .halt)⟩, .none, .halt, rfl, rfl, rfl⟩
  have hcourse : s.execution.Course program 1 (some (.ok ⟨.halted, 1⟩)) :=
    .ends (.cons stride (.nil stride.after)) (.stopped (by decide))
  obtain ⟨steps, ending, -, hunique, -, hlimit, -⟩ :=
    run_limit hload Tracer.reliable_steps #[] #[]
  obtain ⟨rfl, rfl⟩ := hunique _ _ hcourse
  refine ⟨hload, Tracer.reliable_steps, hcourse, ?_, ?_⟩
  · exact (hlimit 1 (by decide)).1 _ rfl (by simp)
  · exact ((hlimit 0 (by decide)).2.2 (fun _ _ => by simp) (fun _ _ => by simp)).1

end Session

end TeachAsm
