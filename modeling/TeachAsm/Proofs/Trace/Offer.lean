import TeachAsm.Trace.Tracer
/-!
# What a tracer is offered

A run offers its tracer one record after the other, until there are no more or
the tracer refuses one. `Takes` says that a tracer takes all records of a list
and `after` is the state it is then in; if it does not take them all, there is
a first one that it refuses (`exists_refused_of_not_takes`). `transcript` keeps,
beside the state of any tracer, what the tracer has been offered.

Tracers with different states may answer alike: `Mirrors` says that one is the
other seen through a map of their states. A transcript is mirrored by the tracer
that it is taken of, and a lent tracer mirrors the one that is lent.
-/

namespace TeachAsm

namespace Tracer

variable {σ τ : Type}

/-- Whether a tracer takes the records of a list, each in the state that those
before it have left. -/
def Takes (tracer : Tracer σ) : σ → List Record → Prop
  | _, [] => True
  | t, record :: records =>
    (tracer.record record t).2 = true ∧ tracer.Takes (tracer.record record t).1 records

/-- The state of a tracer that has been offered the records of a list. -/
def after (tracer : Tracer σ) (t : σ) (records : List Record) : σ :=
  records.foldl (fun t record => (tracer.record record t).1) t

/-- A tracer that keeps, beside its state, every record it has been offered, in
order. -/
def transcript (tracer : Tracer σ) : Tracer (σ × List Record) :=
  ⟨fun record (t, offered) =>
    let (t, taken) := tracer.record record t
    ((t, offered ++ [record]), taken)⟩

/-- Whether a tracer answers every record as another one does, and their states
stay related by `g`. -/
def Mirrors (tracer : Tracer τ) (g : σ → τ) (other : Tracer σ) : Prop :=
  ∀ record t, tracer.record record (g t) =
    (g (other.record record t).1, (other.record record t).2)

variable {tracer : Tracer σ} {t : σ} {record : Record} {records offered : List Record}

/-! ## Taking records -/

/-- **A tracer that does not take all records refuses a first one.** -/
theorem exists_refused_of_not_takes (h : ¬ tracer.Takes t records) :
    ∃ front record back, records = front ++ record :: back ∧ tracer.Takes t front ∧
      (tracer.record record (tracer.after t front)).2 = false := by
  induction records generalizing t with
  | nil => exact absurd trivial h
  | cons record records ih =>
    cases htaken : (tracer.record record t).2 with
    | false => exact ⟨[], record, records, rfl, trivial, htaken⟩
    | true =>
      obtain ⟨front, later, back, rfl, hfront, hrefused⟩ := ih fun hrest => h ⟨htaken, hrest⟩
      exact ⟨record :: front, later, back, rfl, ⟨htaken, hfront⟩, hrefused⟩

theorem takes_concat_iff :
    tracer.Takes t (records ++ [record]) ↔
      tracer.Takes t records ∧ (tracer.record record (tracer.after t records)).2 = true := by
  induction records generalizing t with
  | nil => exact and_comm
  | cons first records ih => exact (and_congr_right fun _ => ih).trans and_assoc.symm

theorem Reliable.takes (h : tracer.Reliable) (t : σ) (records : List Record) :
    tracer.Takes t records := by
  induction records generalizing t with
  | nil => trivial
  | cons record records ih => exact ⟨h record t, ih _⟩

/-- Text is taken without end by a sink without bound. -/
theorem takes_text {sink : Sink} (h : sink.room = none) (records : List Record) :
    text.Takes sink records := by
  induction records generalizing sink with
  | nil => trivial
  | cons record records ih =>
    have hwrite := Sink.write_of_room_eq_none h record.block.utf8
    have hnext : text.record record sink = sink.write record.block.utf8 := rfl
    rw [Takes, hnext, hwrite]
    exact ⟨rfl, ih h⟩

/-! ## Transcripts -/

theorem Reliable.transcript (h : tracer.Reliable) : tracer.transcript.Reliable :=
  fun record t => h record t.1

/-- **Taking a transcript changes no answer.** -/
theorem takes_transcript_iff :
    tracer.transcript.Takes (t, offered) records ↔ tracer.Takes t records := by
  induction records generalizing t offered with
  | nil => exact Iff.rfl
  | cons record records ih => exact and_congr Iff.rfl ih

/-- **A transcript holds what has been offered.** -/
@[simp] theorem after_transcript :
    tracer.transcript.after (t, offered) records =
      (tracer.after t records, offered ++ records) := by
  induction records generalizing t offered with
  | nil => simp [after]
  | cons record records ih =>
    have hnext := @ih (tracer.record record t).1 (offered ++ [record])
    rw [List.append_assoc] at hnext
    exact hnext

theorem mirrors_transcript (tracer : Tracer σ) : tracer.Mirrors Prod.fst tracer.transcript :=
  fun _ _ => rfl

theorem mirrors_onFirst (tracer : Tracer σ) (rest : τ) :
    (tracer.onFirst : Tracer (σ × τ)).Mirrors (·, rest) tracer :=
  fun _ _ => rfl

end Tracer

end TeachAsm
