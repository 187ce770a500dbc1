import TeachAsm.Trace.Record
import TeachAsm.Trace.Sink
/-!
# Tracers

A tracer is told of every step. It keeps a state of its own type `σ`, which
each record changes, and it may fail to take a record. `silent` drops all
records, `steps` keeps them, and `text` writes their blocks to a sink.
`onFirst` lends a tracer the first half of a larger state.
-/

namespace TeachAsm

/-- What is done with each record: the tracer's next state, and whether the
record has been taken. -/
structure Tracer (σ : Type) where
  record : Record → σ → σ × Bool

namespace Tracer

variable {σ τ : Type}

/-- Drops every record. -/
def silent : Tracer σ :=
  ⟨fun _ s => (s, true)⟩

/-- Keeps every record, in order. -/
def steps : Tracer (Array Record) :=
  ⟨fun record records => (records.push record, true)⟩

/-- Writes the block of every record to a sink. -/
def text : Tracer Sink :=
  ⟨fun record sink => sink.write record.block.utf8⟩

/-- A tracer that works on the first half of a pair and leaves the second. -/
def onFirst (tracer : Tracer σ) : Tracer (σ × τ) :=
  ⟨fun record (s, t) =>
    let (s, taken) := tracer.record record s
    ((s, t), taken)⟩

/-- Whether a tracer takes every record in every state. -/
def Reliable (tracer : Tracer σ) : Prop :=
  ∀ record s, (tracer.record record s).2 = true

theorem reliable_silent : (silent : Tracer σ).Reliable :=
  fun _ _ => rfl

theorem reliable_steps : steps.Reliable :=
  fun _ _ => rfl

theorem Reliable.onFirst {tracer : Tracer σ} (h : tracer.Reliable) :
    (tracer.onFirst : Tracer (σ × τ)).Reliable :=
  fun record s => h record s.1

end Tracer

end TeachAsm
