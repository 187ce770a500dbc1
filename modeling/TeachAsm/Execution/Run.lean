import TeachAsm.Execution.Session
/-!
# Whole runs

Loading a program and running it from its first slot, in one go. The log
starts with what loading told; a program that cannot be loaded is not run, and
its tracer is told nothing.
-/

namespace TeachAsm

/-- What a run leaves behind. -/
structure Run (σ : Type) where
  /-- The state of the tracer. -/
  trace : σ
  log : Array Event
  /-- The outcome or the fault that ended the run. -/
  result : Option (Except Fault Outcome)

namespace Run

variable {σ : Type}

/-- Runs what has been loaded. -/
def ofReport (loaded : Report Program) (limit : Option Nat) (tracer : Tracer σ) (trace : σ) :
    Run σ :=
  match loaded.result with
  | .error fault => ⟨trace, loaded.events.toArray, some (.error fault)⟩
  | .ok program =>
    let (s, result) := (Session.start program trace loaded.events.toArray).run program limit tracer
    ⟨s.trace, s.log, result⟩

/-- Runs the program that a source text makes up. -/
def ofSource (source : Text) (limit : Option Nat) (tracer : Tracer σ) (trace : σ) : Run σ :=
  ofReport (Program.ofSource source) limit tracer trace

/-- Runs the program in the file at a path, given what the file holds. -/
def ofFile (path : Text) (contents : Option ByteArray) (limit : Option Nat) (tracer : Tracer σ)
    (trace : σ) : Run σ :=
  ofReport (Program.ofFile path contents) limit tracer trace

end Run

end TeachAsm
