import TeachAsm.Proofs.Execution.Log
/-!
# Steps until there are no more

Instead of a run there may be single steps, as long as execution is active, with the
limit tested in front of each (`Session.Drives`). A run returns just where such a drive
does, with the same result; it only logs, when there is an outcome, that the program has
stopped (`Session.runs_iff_drives`).
-/

namespace TeachAsm

namespace Session

variable {σ : Type} {program : Program} {limit : Option Nat} {tracer : Tracer σ}
variable {s s' : Session σ} {result : Except Fault Outcome}

/-- **A session is driven by single steps** until execution is over, a step fails, or the
limit is met in front of a step. -/
inductive Drives (program : Program) (limit : Option Nat) (tracer : Tracer σ) :
    Session σ → Session σ → Except Fault Outcome → Prop
  | finished {s : Session σ} (hover : s.execution.state ≠ .active) :
      Drives program limit tracer s s (.ok s.execution.outcome)
  | exhausted {s : Session σ} {n : Nat} (hactive : s.execution.state = .active) (hn : n ∈ limit)
      (hle : n ≤ s.execution.operations) : Drives program limit tracer s s (.error (.stepLimit n))
  | failed {s s' : Session σ} {fault : Fault} (hactive : s.execution.state = .active)
      (hbelow : s.execution.Below limit) (hstep : s.step program tracer = (s', .error fault)) :
      Drives program limit tracer s s' (.error fault)
  | stepped {s s' s'' : Session σ} {state : State} {result : Except Fault Outcome}
      (hactive : s.execution.state = .active) (hbelow : s.execution.Below limit)
      (hstep : s.step program tracer = (s', .ok state))
      (h : Drives program limit tracer s' s'' result) : Drives program limit tracer s s'' result

/-- A run returns where a drive does. -/
theorem Drives.runs (h : Drives program limit tracer s s' result) :
    Runs program limit tracer s (s'.note (stopEvents (some result))) result := by
  induction h with
  | finished hover =>
    refine ⟨1, ?_⟩
    rw [runFor, if_neg hover]
    rfl
  | @exhausted s n hactive hn hle =>
    obtain rfl := Option.mem_def.1 hn
    refine ⟨1, ?_⟩
    rw [runFor_of_limit hactive hle]
    exact congrArg (·, _) (note_nil s).symm
  | @failed s s' fault hactive hbelow hstep =>
    refine ⟨1, ?_⟩
    rw [runFor, if_pos hactive, hbelow.filter_eq_none]
    simp only [hstep]
    exact congrArg (·, _) (note_nil s').symm
  | stepped hactive hbelow hstep _ ih =>
    obtain ⟨rounds, hrun⟩ := ih
    refine ⟨rounds + 1, ?_⟩
    rw [runFor, if_pos hactive, hbelow.filter_eq_none]
    simp only [hstep]
    exact hrun

/-- And a drive ends where a run returns. -/
theorem Runs.exists_drives {ended : Session σ} (h : Runs program limit tracer s ended result) :
    ∃ s', Drives program limit tracer s s' result ∧ ended = s'.note (stopEvents (some result)) := by
  obtain ⟨rounds, hrun⟩ := h
  induction rounds generalizing s with
  | zero => cases hrun
  | succ rounds ih =>
    unfold runFor at hrun
    split at hrun
    · next hactive =>
      split at hrun
      · next n hn =>
        obtain ⟨hmem, hle⟩ := Option.filter_eq_some_iff.1 hn
        cases hrun
        exact ⟨_, .exhausted hactive hmem (by simpa using hle), (note_nil _).symm⟩
      · next hn =>
        have hbelow : s.execution.Below limit := fun n hmem => by
          simpa using Option.filter_eq_none_iff.1 hn n hmem
        rcases hstep : s.step program tracer with ⟨next, fault | state⟩
        · simp only [hstep] at hrun
          cases hrun
          exact ⟨_, .failed hactive hbelow hstep, (note_nil _).symm⟩
        · simp only [hstep] at hrun
          obtain ⟨s', hdrives, hended⟩ := ih hrun
          exact ⟨s', .stepped hactive hbelow hstep hdrives, hended⟩
    · next hover =>
      cases hrun
      exact ⟨s, .finished hover, rfl⟩

/-- **A run does what single steps do**, and logs the end of it. -/
theorem runs_iff_drives {ended : Session σ} :
    Runs program limit tracer s ended result ↔
      ∃ s', Drives program limit tracer s s' result ∧
        ended = s'.note (stopEvents (some result)) := by
  refine ⟨Runs.exists_drives, ?_⟩
  rintro ⟨s', hdrives, rfl⟩
  exact hdrives.runs

end Session

end TeachAsm
