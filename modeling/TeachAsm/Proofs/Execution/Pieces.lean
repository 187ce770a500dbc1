import TeachAsm.Proofs.Execution.Return
/-!
# Runs in pieces

An execution may be carried on in pieces: by steps and by runs with any limits
and any tracers that take every record, and on after a piece that has ended with
a fault or at its limit. Each piece makes some strides of the one trail there is
(`Piece.exists_trail`), so that a last run ends as a single run from the start
does, as long as the pieces have not gone further than its limit allows
(`runs_iff_of_pieces`). The records of the pieces, one behind the other, are the
records of the single run.
-/

namespace TeachAsm

namespace Execution

/-- **A piece**: a step or a run that returns, whatever its result, with a tracer
that takes every record. It leads from one execution to another, and offers
some records. -/
inductive Piece (program : Program) (e : Execution) : List Record → Execution → Prop
  | step {σ : Type} {tracer : Tracer σ} (hreliable : tracer.Reliable) (trace : σ)
      (log : Array Event) {s : Session (σ × List Record)} {result : Except Fault State}
      (hstep : (Session.resumed e trace log).step program tracer.transcript = (s, result)) :
      Piece program e s.trace.2 s.execution
  | run {σ : Type} {tracer : Tracer σ} (hreliable : tracer.Reliable) (trace : σ)
      (log : Array Event) {limit : Option Nat} {s : Session (σ × List Record)}
      {result : Except Fault Outcome}
      (hruns : Session.Runs program limit tracer.transcript (.resumed e trace log) s result) :
      Piece program e s.trace.2 s.execution

/-- Pieces, one after the other, with the records of all of them. -/
inductive Pieces (program : Program) : Execution → List Record → Execution → Prop
  | nil (e : Execution) : Pieces program e [] e
  | cons {e e' e'' : Execution} {records later : List Record} (h : Piece program e records e')
      (hlater : Pieces program e' later e'') : Pieces program e (records ++ later) e''

variable {program : Program} {e e' : Execution} {records : List Record}

/-- **A piece makes strides**, and offers their records. -/
theorem Piece.exists_trail (h : Piece program e records e') (hs : e.Sound program)
    (hwf : program.WellFormed) :
    ∃ strides, Trail program e strides e' ∧ records = strides.map Stride.record := by
  cases h with
  | @step σ tracer hreliable trace log s result hstep =>
    obtain rfl : _ = s := congrArg Prod.fst hstep
    rcases hs.exists_stride_or_atEnd with ⟨stride, rfl⟩ | ⟨_, hend⟩
    · have htaken := hreliable.transcript stride.record (trace, [])
      rw [Session.step_of_taken (s := .resumed stride.before trace log) stride rfl htaken]
      exact ⟨[stride], .cons stride (.nil _), rfl⟩
    · obtain ⟨hexecution, htrace⟩ := Session.step_of_atEnd (s := .resumed e trace log) hend
      rw [hexecution, htrace]
      exact ⟨[], .nil e, rfl⟩
  | @run σ tracer hreliable trace log limit s result hruns =>
    obtain ⟨strides, hstretch, -, htrace⟩ := hruns.exists_stretch hs hwf hreliable.transcript
    refine ⟨strides, hstretch.trail, ?_⟩
    rw [htrace, Session.resumed, Tracer.after_transcript, List.nil_append]

/-- And so do pieces. -/
theorem Pieces.exists_trail (h : Pieces program e records e') (hs : e.Sound program)
    (hwf : program.WellFormed) :
    ∃ strides, Trail program e strides e' ∧ records = strides.map Stride.record := by
  induction h with
  | nil e => exact ⟨[], .nil e, rfl⟩
  | cons hpiece _ ih =>
    obtain ⟨strides, htrail, rfl⟩ := hpiece.exists_trail hs hwf
    obtain ⟨others, htrail', rfl⟩ := ih (htrail.sound hs hwf)
    exact ⟨strides ++ others, Trail.append_iff.2 ⟨_, htrail, htrail'⟩, by simp⟩

end Execution

namespace Session

open Execution

variable {program : Program} {limit : Option Nat} {records : List Record} {e : Execution}
variable {σ τ : Type} {tracer : Tracer σ} {other : Tracer τ}

/-- **A run may be cut into pieces.** The pieces are steps and runs of a loaded
program, from its start on, and together they make no more steps than a limit
allows. A last run with this limit returns just when a single run with it, from
the start, returns. It then has the same result and leaves the same execution
behind, and the records of the pieces and of the last run are those of the single
run; where the operations can be counted with 64 bits, all this is so of `run`. -/
theorem runs_iff_of_pieces {source : Text} (hload : (Program.ofSource source).result = .ok program)
    (hpieces : Pieces program (.start program) records e)
    (hlength : ∀ n ∈ limit, records.length ≤ n) (hreliable : tracer.Reliable)
    (hother : other.Reliable) (trace : σ) (trace' : τ) (log log' : Array Event) :
    let last := resumed e trace log
    let whole := start program (trace', []) log'
    ((∃ s result, Runs program limit tracer.transcript last s result) ↔
      ∃ s result, Runs program limit other.transcript whole s result) ∧
      ∀ s result s' result', Runs program limit tracer.transcript last s result →
        Runs program limit other.transcript whole s' result' →
          result = result' ∧ s.execution = s'.execution ∧ records ++ s.trace.2 = s'.trace.2 ∧
            (s'.execution.operations < UInt64.size →
              last.run program limit tracer.transcript = (s, some result) ∧
                whole.run program limit other.transcript = (s', some result')) := by
  intro last whole
  have hwf := Program.wellFormed_of_ofSource hload
  have hs : whole.execution.Sound program := sound_start program
  obtain ⟨front, htrail, rfl⟩ := hpieces.exists_trail hs hwf
  have hs' : last.execution.Sound program := htrail.sound hs hwf
  have hfront : Stretch program limit whole.execution front last.execution := by
    refine htrail.stretch fun n hn => ?_
    have hoperations : e.operations = 0 + front.length := htrail.operations_eq
    have hle := hlength n hn
    rw [List.length_map] at hle
    omega
  refine ⟨⟨?_, ?_⟩, fun s result s' result' hruns hruns' => ?_⟩
  · rintro ⟨s, result, hruns⟩
    obtain ⟨later, hstretch, hstops, -⟩ := hruns.exists_stretch hs' hwf hreliable.transcript
    have hwhole := Stretch.append_iff.2 ⟨_, hfront, hstretch⟩
    obtain ⟨s', hruns', -⟩ :=
      exists_runs_of_stretch hwhole hstops (hother.transcript.takes whole.trace _)
    exact ⟨s', result, hruns'⟩
  · rintro ⟨s', result, hruns'⟩
    obtain ⟨strides, hstretch, hstops, -⟩ := hruns'.exists_stretch hs hwf hother.transcript
    obtain ⟨later, -, hlater⟩ := hstops.exists_append hstretch hfront
    obtain ⟨s, hruns, -⟩ :=
      exists_runs_of_stretch hlater hstops (hreliable.transcript.takes last.trace _)
    exact ⟨s, result, hruns⟩
  · obtain ⟨later, hstretch, hstops, htrace⟩ := hruns.exists_stretch hs' hwf hreliable.transcript
    obtain ⟨strides, hstretch', hstops', htrace'⟩ :=
      hruns'.exists_stretch hs hwf hother.transcript
    have hwhole := Stretch.append_iff.2 ⟨_, hfront, hstretch⟩
    obtain ⟨rfl, hsame, rfl⟩ := hstops.eq_of_stretch hstops' hwhole hstretch'
    refine ⟨rfl, hsame, ?_, fun hfits => ⟨?_, ?_⟩⟩
    · rw [htrace, htrace', Tracer.after_transcript, Tracer.after_transcript, List.map_append]
      rfl
    · exact run_eq_of_runs hruns hs' hwf hreliable.transcript (hsame ▸ hfits)
    · exact run_eq_of_runs hruns' hs hwf hother.transcript hfits

/-- A program of a label and a branch back to it: one step, a run as far as two
steps and a run as far as three steps make the records of one run as far as three
steps. -/
theorem runs_iff_of_pieces_loop :
    let program : Program :=
      { image := ⟨#[7]⟩
        slots := #[⟨2, "loop:".toList, ⟨.label, [.label "loop".toList]⟩⟩,
          ⟨2, "B loop".toList, ⟨.branch .always, [.label "loop".toList]⟩⟩]
        labels := ⟨[⟨"loop".toList, 0, 2⟩]⟩ }
    let first := ((resumed (.start program) #[] #[]).step program Tracer.steps.transcript).1
    let second := ((resumed first.execution () #[]).run program (some 2)
      Tracer.silent.transcript).1
    let third := ((resumed second.execution () #[]).run program (some 3)
      Tracer.silent.transcript).1
    let whole := ((start program (#[], []) #[]).run program (some 3) Tracer.steps.transcript).1
    (Program.ofSource "[7]\nloop: B loop".toList).result = .ok program ∧
      Pieces program (.start program) (first.trace.2 ++ (second.trace.2 ++ [])) second.execution ∧
      second.execution.operations = 2 ∧ third.execution = whole.execution ∧
      first.trace.2 ++ (second.trace.2 ++ []) ++ third.trace.2 = whole.trace.2 := by
  intro program first second third whole
  have hload : (Program.ofSource "[7]\nloop: B loop".toList).result = .ok program := by
    decide +kernel
  have hsecond : ((resumed first.execution () #[]).run program (some 2)
      Tracer.silent.transcript).2 = some (.error (.stepLimit 2)) := by decide +kernel
  have hthird : ((resumed second.execution () #[]).run program (some 3)
      Tracer.silent.transcript).2 = some (.error (.stepLimit 3)) := by decide +kernel
  have hwhole : ((start program (#[], []) #[]).run program (some 3)
      Tracer.steps.transcript).2 = some (.error (.stepLimit 3)) := by decide +kernel
  have hpieces : Pieces program (.start program) (first.trace.2 ++ (second.trace.2 ++ []))
      second.execution :=
    .cons (.step Tracer.reliable_steps #[] #[] rfl)
      (.cons (.run Tracer.reliable_silent () #[] (runs_of_run hsecond)) (.nil _))
  have hlength : ∀ n ∈ some 3, (first.trace.2 ++ (second.trace.2 ++ [])).length ≤ n := by
    decide +kernel
  obtain ⟨-, hsame⟩ := runs_iff_of_pieces hload hpieces hlength Tracer.reliable_silent
    Tracer.reliable_steps () #[] #[] #[]
  obtain ⟨-, hexecution, hrecords, -⟩ :=
    hsame _ _ _ _ (runs_of_run hthird) (runs_of_run hwhole)
  exact ⟨hload, hpieces, by decide +kernel, hexecution, hrecords⟩

end Session

end TeachAsm
