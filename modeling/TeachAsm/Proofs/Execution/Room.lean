import TeachAsm.Proofs.Execution.Observation
import TeachAsm.Proofs.Trace.Room
/-!
# Runs with a bounded sink

A run that writes text to a sink with room for `n` bytes writes what it would have
written without bound, up to the first `n` bytes. If that is all, the run is the same.
If it is not, the run fails at the record whose block goes past the room, with as many
bytes of that block as there was room for, and no step is made after it
(`Run.text_within_room`). Where a fault of the program would have come later, or the
end, it does not come any more.
-/

namespace TeachAsm

/-! ## Logs -/

namespace Session

open Execution

variable {σ : Type} {program : Program} {tracer : Tracer σ} {limit : Option Nat} {s : Session σ}

/-- The log of what has been followed. -/
theorem log_follow (tracer : Tracer σ) (s : Session σ) (strides : List (Stride program)) :
    (s.follow tracer strides).log.toList = s.log.toList ++ strides.flatMap Stride.events := by
  induction strides generalizing s with
  | nil => exact (List.append_nil _).symm
  | cons stride strides ih =>
    have hmake : (s.make tracer stride).log.toList = s.log.toList ++ stride.events :=
      Array.toList_appendList
    rw [List.flatMap_cons, ← List.append_assoc, ← hmake]
    exact ih (s.make tracer stride)

/-- A step adds to the log. -/
theorem prefix_log_step (program : Program) (tracer : Tracer σ) (s : Session σ) :
    s.log.toList <+: (s.step program tracer).1.log.toList := by
  have hstepped := stepped program tracer s
  generalize s.step program tracer = after at hstepped ⊢
  cases hstepped with
  | stopped | pastEnd => exact List.prefix_rfl
  | failed => simp [note]
  | interrupted | completed => simp [commit, effected, note, advance]

/-- And so does a run. -/
theorem prefix_log_runFor (program : Program) (limit : Option Nat) (tracer : Tracer σ)
    (rounds : Nat) (s : Session σ) :
    s.log.toList <+: (s.runFor program limit tracer rounds).1.log.toList := by
  induction rounds generalizing s with
  | zero => exact List.prefix_rfl
  | succ rounds ih =>
    have hprefix := prefix_log_step program tracer s
    unfold runFor
    split
    · split
      · exact List.prefix_rfl
      · rcases hstep : s.step program tracer with ⟨next, fault | state⟩
        · rwa [hstep] at hprefix
        · rw [hstep] at hprefix
          exact hprefix.trans (ih next)
    · simp [note]

/-- What is logged on the way to where an execution comes. -/
theorem prefix_log_of_comes {rounds : Nat} {front back : List (Stride program)} {e : Execution}
    {ending : Option (Except Fault Outcome)}
    (h : s.execution.Comes program limit rounds (front ++ back) e ending)
    (htakes : tracer.Takes s.trace (front.map Stride.record)) :
    s.log.toList ++ front.flatMap Stride.events <+:
      (s.runFor program limit tracer rounds).1.log.toList := by
  obtain ⟨_, hfront, -⟩ := Stretch.append_iff.1 h.stretch
  have hle := h.length_le
  rw [List.length_append] at hle
  obtain ⟨more, rfl⟩ := Nat.exists_eq_add_of_le (Nat.le_of_add_right_le hle)
  rw [runFor_of_stretch hfront htakes, ← log_follow tracer]
  exact prefix_log_runFor program limit tracer more _

section Text

variable {s : Session (Sink × List Record)} {rounds : Nat}
variable {strides : List (Stride program)} {e : Execution}
variable {ending : Option (Except Fault Outcome)}

/-- What a run has written when all its records are taken. -/
theorem text_runFor_of_comes (h : s.execution.Comes program limit rounds strides e ending)
    (htakes : Tracer.text.Takes s.trace.1 (strides.map Stride.record)) :
    (s.runFor program limit Tracer.text.transcript rounds).2 = ending ∧
      (s.runFor program limit Tracer.text.transcript rounds).1.trace =
        ((s.trace.1.write (Record.blocks (strides.map Stride.record))).1,
          s.trace.2 ++ strides.map Stride.record) := by
  obtain ⟨hresult, -, htrace⟩ := runFor_of_comes h (Tracer.takes_transcript_iff.2 htakes)
  refine ⟨hresult, ?_⟩
  rw [htrace, ← Tracer.after_text htakes]
  exact Tracer.after_transcript

/-- What a run has written when a record is refused. Its log ends with the step that
the record tells of, and a run that goes on from the same place, with a tracer that
takes what comes, logs all that as well. -/
theorem text_runFor_of_refused
    (h : s.execution.Comes program limit rounds strides e ending)
    (wide : Session (Sink × List Record)) (hexecution : wide.execution = s.execution)
    (hlog : wide.log = s.log) (hroom : wide.trace.1.room = none) {front back : List Record}
    {record : Record}
    (hsplit : strides.map Stride.record = front ++ record :: back)
    (hfront : Tracer.text.Takes s.trace.1 front)
    (hrefused : (Tracer.text.record record (Tracer.text.after s.trace.1 front)).2 = false) :
    (s.runFor program limit Tracer.text.transcript rounds).2 = some (.error .traceFailed) ∧
      (s.runFor program limit Tracer.text.transcript rounds).1.trace =
        ((Tracer.text.record record (Tracer.text.after s.trace.1 front)).1,
          s.trace.2 ++ front ++ [record]) ∧
      (s.runFor program limit Tracer.text.transcript rounds).1.log.toList <+:
        (wide.runFor program limit Tracer.text.transcript rounds).1.log.toList ∧
      ∃ line control,
        (s.runFor program limit Tracer.text.transcript rounds).1.log.toList.getLast? =
          some (.stepped record.counter line record.text control) := by
  obtain ⟨before, stride, after, rfl, rfl, rfl, rfl⟩ := Stride.exists_append_of_map_record hsplit
  have hafter : Tracer.text.transcript.after s.trace (before.map Stride.record) =
      (Tracer.text.after s.trace.1 (before.map Stride.record),
        s.trace.2 ++ before.map Stride.record) := Tracer.after_transcript
  have hrun := runFor_of_refused h (Tracer.takes_transcript_iff.2 hfront) (by rwa [hafter])
  have hlogged : (s.runFor program limit Tracer.text.transcript rounds).1.log.toList =
      s.log.toList ++ (before ++ [stride]).flatMap Stride.events := by
    rw [hrun, List.flatMap_append, ← List.append_assoc, ← log_follow Tracer.text.transcript,
      List.flatMap_singleton]
    exact Array.toList_appendList
  refine ⟨by rw [hrun], ?_, ?_, ?_⟩
  · rw [hrun, interrupt, trace_follow, hafter]
    rfl
  · rw [← hexecution, List.append_cons] at h
    rw [hlogged, ← hlog]
    exact prefix_log_of_comes h (Tracer.takes_transcript_iff.2 (Tracer.takes_text hroom _))
  · refine ⟨stride.slot.line, stride.control, ?_⟩
    rw [hlogged, List.flatMap_append, List.flatMap_singleton, Stride.events,
      ← List.append_assoc, ← List.append_assoc, List.getLast?_concat]
    rfl

end Text

end Session

/-! ## Runs -/

/-- **How a run without bound, and one with room for `n` bytes, go**, each told by the
transcript of a tracer of text. -/
structure Run.Narrowed (n : Nat) (free narrow : Run (Sink × List Record)) : Prop where
  bytes_eq : free.trace.1.bytes = Record.blocks free.trace.2
  fits : (Record.blocks free.trace.2).size ≤ n →
    narrow.result = free.result ∧ narrow.trace.1.bytes = Record.blocks free.trace.2 ∧
      narrow.trace.2 = free.trace.2
  overflows : n < (Record.blocks free.trace.2).size →
    narrow.result = some (.error .traceFailed) ∧
      narrow.trace.1.bytes = (Record.blocks free.trace.2).extract 0 n ∧
      ∃ front record back, free.trace.2 = front ++ record :: back ∧
        narrow.trace.2 = front ++ [record] ∧ (Record.blocks front).size ≤ n ∧
        n < (Record.blocks (front ++ [record])).size ∧
        narrow.log.toList <+: free.log.toList ∧
        ∃ line control, narrow.log.toList.getLast? =
          some (.stepped record.counter line record.text control)

namespace Run

variable {source : Text} {program : Program}

/-- What a sink with room for `n` bytes makes of a run is settled by what it makes of
the run's records. -/
theorem Narrowed.of_records {n : Nat} {free narrow : Run (Sink × List Record)}
    {records : List Record}
    (hfree : free.trace = ((({} : Sink).write (Record.blocks records)).1, records))
    (hfits : Tracer.text.Takes { room := some n } records → narrow.result = free.result ∧
      narrow.trace = ((({ room := some n } : Sink).write (Record.blocks records)).1, records))
    (hrefused : ∀ front record back, records = front ++ record :: back →
      Tracer.text.Takes { room := some n } front →
      (Tracer.text.record record (Tracer.text.after { room := some n } front)).2 = false →
        narrow.result = some (.error .traceFailed) ∧
          narrow.trace = ((Tracer.text.record record
            (Tracer.text.after { room := some n } front)).1, front ++ [record]) ∧
          narrow.log.toList <+: free.log.toList ∧
          ∃ line control, narrow.log.toList.getLast? =
            some (.stepped record.counter line record.text control)) :
    Narrowed n free narrow := by
  have hroom : ({ room := some n } : Sink).room = some n := rfl
  have hempty (data : ByteArray) : ByteArray.empty ++ data = data := ByteArray.empty_append
  have hrecords : free.trace.2 = records := congrArg Prod.snd hfree
  refine ⟨?_, fun hle => ?_, fun hpast => ?_⟩
  · rw [hfree, Sink.write_of_room_eq_none rfl]
    exact hempty _
  · rw [hrecords] at hle ⊢
    have htakes : Tracer.text.Takes { room := some n } records :=
      Tracer.takes_text_iff.2 ((Sink.write_eq_true_iff hroom).2 hle)
    obtain ⟨hresult, htrace⟩ := hfits htakes
    refine ⟨hresult, ?_, by rw [htrace]⟩
    rw [htrace, Sink.bytes_write hroom, Sink.extract_of_size_le hle]
    exact hempty _
  · rw [hrecords] at hpast ⊢
    obtain ⟨front, record, back, hsplit, hfront, htoo, hbytes, hsize, hlt⟩ :=
      Tracer.exists_overflow hroom hpast
    obtain ⟨hresult, htrace, hlog, hlast⟩ := hrefused front record back hsplit hfront htoo
    refine ⟨hresult, ?_, front, record, back, hsplit, by rw [htrace], hsize, hlt, hlog, hlast⟩
    rw [htrace, hbytes]
    exact hempty _

/-- **A run with room for `n` bytes is a run without bound, cut off.** -/
theorem narrowed (source : Text) (limit : Option Nat) (n : Nat) :
    Narrowed n (ofSource source limit Tracer.text.transcript ({}, []))
      (ofSource source limit Tracer.text.transcript ({ room := some n }, [])) := by
  rcases hload : (Program.ofSource source).result with fault | program
  · rw [ofSource_of_error hload, ofSource_of_error hload]
    exact ⟨rfl, fun _ => ⟨rfl, rfl, rfl⟩, fun h => absurd h (Nat.not_lt_zero n)⟩
  · rw [ofSource_of_ok hload, ofSource_of_ok hload]
    obtain ⟨strides, e, ending, hcomes⟩ := (Execution.sound_start program).exists_comes
      (Program.wellFormed_of_ofSource hload) limit (Session.capacity + 1)
    generalize (Program.ofSource source).events.toArray = log
    let wide : Session (Sink × List Record) := .start program ({}, []) log
    let narrow : Session (Sink × List Record) := .start program ({ room := some n }, []) log
    have htakes : Tracer.text.Takes wide.trace.1 (strides.map Stride.record) :=
      Tracer.takes_text rfl _
    obtain ⟨hresult, htrace⟩ := Session.text_runFor_of_comes (s := wide) hcomes htakes
    refine .of_records htrace (fun hfits => ?_) fun front record back hsplit hfront hrefused => ?_
    · obtain ⟨hresult', htrace'⟩ := Session.text_runFor_of_comes (s := narrow) hcomes hfits
      exact ⟨hresult'.trans hresult.symm, htrace'⟩
    · exact Session.text_runFor_of_refused (s := narrow) hcomes wide rfl rfl rfl hsplit hfront
        hrefused

/-- **A bounded sink holds the first bytes of the text**, and a run fails where it runs
out of room. Let `T` be what a run with a sink without bound writes, and so the blocks
of all records that it is offered. With room for `n` bytes the run has the same result
and writes `T`, if that is no more than `n` bytes. Otherwise it fails because of the
tracer, with the first `n` bytes of `T`: the record whose block goes past them is the
last that has been offered, and its step is the last that has been logged, so that none
is made after it. The same holds through a tracer that is lent, and in whatever
fragments the blocks are written. -/
theorem text_within_room (source : Text) (limit : Option Nat) (n : Nat) :
    let free := ofSource source limit .text {}
    let narrow := ofSource source limit .text { room := some n }
    let offered (sink : Sink) : List Record :=
      (ofSource source limit Tracer.text.transcript (sink, [])).trace.2
    let T := free.trace.bytes
    T = Record.blocks (offered {}) ∧
    (T.size ≤ n → narrow.result = free.result ∧ narrow.trace.bytes = T ∧
      offered { room := some n } = offered {}) ∧
    (n < T.size → narrow.result = some (.error .traceFailed) ∧
      narrow.trace.bytes = T.extract 0 n ∧
      ∃ front record back, offered {} = front ++ record :: back ∧
        offered { room := some n } = front ++ [record] ∧ (Record.blocks front).size ≤ n ∧
        n < (Record.blocks (front ++ [record])).size ∧
        narrow.log.toList <+: free.log.toList ∧
        ∃ line control, narrow.log.toList.getLast? =
          some (.stepped record.counter line record.text control)) ∧
    (∀ {τ : Type} (sink : Sink) (rest : τ),
      ofSource source limit Tracer.text.onFirst (sink, rest) =
        (ofSource source limit .text sink).mapTrace (·, rest)) ∧
    ∀ cut : Record → List Text, (∀ record, (cut record).flatten = record.block) →
      Tracer.inFragments cut = .text := by
  intro free narrow offered T
  have hseen (sink : Sink) : ofSource source limit .text sink =
      (ofSource source limit Tracer.text.transcript (sink, [])).mapTrace Prod.fst :=
    ofReport_mapTrace Tracer.text.mirrors_transcript _ limit (sink, [])
  have hfree : free = _ := hseen {}
  have hnarrow : narrow = _ := hseen { room := some n }
  obtain ⟨hbytes, hfits, hoverflows⟩ := narrowed source limit n
  have hT : T = Record.blocks (offered {}) := (congrArg (·.trace.bytes) hfree).trans hbytes
  refine ⟨hT, ?_, ?_, fun sink rest => ?_, fun cut hcut => ?_⟩
  · rw [hT, hnarrow, hfree]
    exact hfits
  · rw [hT, hnarrow, hfree]
    exact hoverflows
  · exact ofReport_mapTrace (Tracer.text.mirrors_onFirst rest) _ limit sink
  · exact Tracer.inFragments_eq_text hcut

/-- A program of two records, the first of which has 123 bytes, and both together 228:
with room for 150 bytes the run fails at the second. -/
theorem text_within_room_halt :
    let source := "[0]\nMOV R0, #5\nHALT".toList
    let free := ofSource source none .text {}
    let narrow := ofSource source none .text { room := some 150 }
    let wide := ofSource source none .text { room := some 228 }
    let cut (record : Record) : List Text := record.lines.map (· ++ ['\n'])
    free.trace.bytes.size = 228 ∧ wide.result = free.result ∧
      wide.trace.bytes = free.trace.bytes ∧ narrow.result = some (.error .traceFailed) ∧
      narrow.trace.bytes = free.trace.bytes.extract 0 150 ∧
      (∀ record, (cut record).flatten = record.block) ∧ Tracer.inFragments cut = .text := by
  intro source free narrow wide cut
  have hsize : free.trace.bytes.size = 228 := by decide +kernel
  have hcut : ∀ record, (cut record).flatten = record.block :=
    fun record => (List.flatMap_def).symm
  obtain ⟨-, -, hnarrow, -, hfragments⟩ := text_within_room source none 150
  obtain ⟨-, hwide, -⟩ := text_within_room source none 228
  obtain ⟨hresult, hbytes, -⟩ := hnarrow (hsize ▸ by decide)
  obtain ⟨hresult', hbytes', -⟩ := hwide (Nat.le_of_eq hsize)
  exact ⟨hsize, hresult', hbytes', hresult, hbytes, hcut, hfragments cut hcut⟩

end Run

end TeachAsm
