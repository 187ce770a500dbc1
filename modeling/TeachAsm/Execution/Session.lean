import TeachAsm.Execution.Basic
import TeachAsm.Trace.Tracer
/-!
# Sessions

A session is an execution together with what it shows: the state of a tracer,
and the log. It is carried on by single steps and by runs, in any mixture; a
fault ends the step or the run, and the session can be carried on after it.

A run tests its limit before each step, against all the operations of the
execution so far. It is bounded by a number of rounds, and `run` gives it more
rounds than an operation count of 64 bits can number. What a map of sessions does
to single steps it does to runs (`runFor_map`).
-/

namespace TeachAsm

/-- An execution, the state of its tracer, and its log. -/
structure Session (σ : Type) where
  execution : Execution
  trace : σ
  log : Array Event := #[]

namespace Session

variable {σ : Type}

/-- The session with more events in its log. -/
def note (s : Session σ) (events : List Event) : Session σ :=
  { s with log := s.log ++ events }

@[simp] theorem note_nil (s : Session σ) : s.note [] = s := by
  simp [note]

/-- The session after a slot is executed on its machine, and what came of it. -/
def perform (program : Program) (slot : Slot) : Session σ → Session σ × Except Fault Control
  -- Taken apart, the session lets its machine be changed in place.
  | ⟨⟨counter, operations, machine, state⟩, trace, log⟩ =>
    let (machine, ⟨events, result⟩) :=
      slot.instruction.execute ⟨program.labels, slot.line⟩ machine
    (⟨⟨counter, operations, machine, state⟩, trace, log ++ events⟩, result)

/-- The session after its slot is counted and logged, and whether its record
has been taken. -/
def commit (tracer : Tracer σ) (s : Session σ) (slot : Slot) (control : Control) :
    Session σ × Bool :=
  let execution := s.execution.count
  let log := s.log.push (.stepped execution.counter slot.line slot.text control)
  let (trace, taken) := tracer.record (execution.record slot) s.trace
  (⟨execution, trace, log⟩, taken)

/-- The session with its execution moved on. -/
def advance (s : Session σ) (size : Nat) (control : Control) : Session σ :=
  { s with execution := s.execution.advance size control }

/-- Executes the slot that the session is at. Nothing happens once execution
is over. -/
def step (program : Program) (tracer : Tracer σ) (s : Session σ) :
    Session σ × Except Fault State :=
  if s.execution.state = .active then
    match program.slots[s.execution.counter]? with
    | none => ({ s with execution.state := .finished }, .ok .finished)
    | some slot =>
      match s.perform program slot with
      | (s, .error fault) => (s, .error fault)
      | (s, .ok control) =>
        match s.commit tracer slot control with
        -- The machine stays changed, but execution does not move on.
        | (s, false) => (s, .error .traceFailed)
        | (s, true) =>
          let s := s.advance program.size control
          (s, .ok s.execution.state)
  else
    (s, .ok s.execution.state)

/-- Carries a session on until its execution is over, a fault occurs, or the
limit is reached, for a number of rounds at most. Without a result the run is
not over yet, and the session can be carried on. -/
def runFor (program : Program) (limit : Option Nat) (tracer : Tracer σ) :
    Nat → Session σ → Session σ × Option (Except Fault Outcome)
  | 0, s => (s, none)
  | rounds + 1, s =>
    if s.execution.state = .active then
      match limit.filter (· ≤ s.execution.operations) with
      | some limit => (s, some (.error (.stepLimit limit)))
      | none =>
        match s.step program tracer with
        | (s, .ok _) => runFor program limit tracer rounds s
        | (s, .error fault) => (s, some (.error fault))
    else
      let outcome := s.execution.outcome
      (s.note [.stopped outcome.state outcome.operations], some (.ok outcome))

/-- **A run is the same through a map of sessions** that leaves executions as they
are, if a step is. -/
theorem runFor_map {τ : Type} {program program' : Program} {tracer : Tracer σ} {tracer' : Tracer τ}
    {f : Session σ → Session τ} {g : Fault → Fault}
    (hexecution : ∀ s, (f s).execution = s.execution)
    (hnote : ∀ s state operations,
      (f s).note [.stopped state operations] = f (s.note [.stopped state operations]))
    (hlimit : ∀ n, g (.stepLimit n) = .stepLimit n)
    (hstep : ∀ s, (f s).step program' tracer' =
      (f (s.step program tracer).1, (s.step program tracer).2.mapError g))
    (limit : Option Nat) (rounds : Nat) (s : Session σ) :
    (f s).runFor program' limit tracer' rounds =
      (f (s.runFor program limit tracer rounds).1,
        (s.runFor program limit tracer rounds).2.map (Except.mapError g)) := by
  induction rounds generalizing s with
  | zero => rfl
  | succ rounds ih =>
    unfold runFor
    rw [hexecution, hstep]
    split
    · split
      · simp [hlimit]
      · rcases s.step program tracer with ⟨s', fault | state⟩
        · rfl
        · exact ih s'
    · simp [hnote]

/-- One more than the largest count of operations. -/
def capacity : Nat := UInt64.size

/-- Carries a session on until its execution is over, a fault occurs, or the
limit is reached. -/
def run (program : Program) (limit : Option Nat) (tracer : Tracer σ) (s : Session σ) :
    Session σ × Option (Except Fault Outcome) :=
  runFor program limit tracer (capacity + 1) s

/-- The session of a program before its first step. -/
def start (program : Program) (trace : σ) (log : Array Event) : Session σ :=
  ⟨.start program, trace, log⟩

end Session

end TeachAsm
