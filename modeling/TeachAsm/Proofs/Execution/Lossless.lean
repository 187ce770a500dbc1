import TeachAsm.Proofs.Execution.History
import TeachAsm.Proofs.Execution.Room
import TeachAsm.Proofs.Program.Reprinting
import TeachAsm.Proofs.Trace.Injective
/-!
# Traces in text lose nothing

The text of a slot that has been loaded is plain, and so the records of a program are
unbroken (`History.unbroken`), whatever has been done to come by them. A run that
writes text to a sink without bound has written the blocks of its records, of which
there are as many as operations (`text_runFor_start`). It follows that records and
text tell the same (`text_lossless`).
-/

namespace TeachAsm

theorem Opcode.newline_notMem_name (op : Opcode) : '\n' ∉ op.name.toList := by
  rcases op with _ | _ | operation | _ | _ | _ | condition | _ | _
  case compute => cases operation <;> decide
  case branch => cases condition <;> decide
  all_goals decide

variable {source : Text} {program : Program} {e : Execution} {records : List Record}

/-- **The records of a loaded program are unbroken.** -/
theorem Execution.History.unbroken (h : History program e records)
    (hload : (Program.ofSource source).result = .ok program) :
    ∀ record ∈ records, record.Unbroken := by
  intro record hrecord
  obtain ⟨front, back, hsplit⟩ := List.append_of_mem hrecord
  obtain ⟨slot, htells⟩ := h.replays hsplit
  have hmem : slot ∈ program.slots.toList :=
    Array.mem_toList_iff.2 (Array.mem_of_getElem? htells.slot_eq)
  have hplain : slot.text.IsPlain := Program.isPlain_of_ofSource hload slot.text
    (List.mem_cons_of_mem _ (List.mem_map_of_mem hmem))
  refine ⟨?_, ?_⟩
  · rw [htells.text_eq]
    exact hplain.newline
  · rw [htells.name_eq]
    exact slot.instruction.opcode.newline_notMem_name

namespace Session

/-- **What a run from the start has written**, to a sink without bound: the blocks of
the records that it has offered, one for each operation. -/
theorem text_runFor_start (hwf : program.WellFormed) (limit : Option Nat) (rounds : Nat)
    (log : Array Event) :
    let ended := (start program ({} : Sink) log).runFor program limit .text rounds
    let seen := (start program (({} : Sink), []) log).runFor program limit Tracer.text.transcript
      rounds
    ended = (seen.1.mapTrace Prod.fst, seen.2) ∧
      seen.1.trace.2.length = ended.1.execution.operations ∧
      ended.1.trace.bytes = Record.blocks seen.1.trace.2 := by
  intro ended seen
  have hended : ended = (seen.1.mapTrace Prod.fst, seen.2) :=
    runFor_mapTrace Tracer.text.mirrors_transcript rounds (start program (({} : Sink), []) log)
  obtain ⟨strides, e, ending, hcomes⟩ := (Execution.sound_start program).exists_comes hwf limit
    rounds
  have htakes : Tracer.text.Takes ({} : Sink) (strides.map Stride.record) :=
    Tracer.takes_text rfl _
  obtain ⟨-, hexecution, -⟩ := transcript_runFor_of_comes
    (s := start program (({} : Sink), []) log) hcomes htakes
  obtain ⟨-, htrace⟩ := text_runFor_of_comes
    (s := start program (({} : Sink), []) log) hcomes htakes
  have hbytes : seen.1.trace.1.bytes =
      ByteArray.empty ++ Record.blocks (strides.map Stride.record) :=
    congrArg (·.1.bytes) htrace
  have hrecords : seen.1.trace.2 = strides.map Stride.record := congrArg Prod.snd htrace
  have hoperations : seen.1.execution.operations = 0 + strides.length :=
    hexecution ▸ hcomes.stretch.trail.operations_eq
  refine ⟨hended, ?_, ?_⟩
  · rw [hended, hrecords, List.length_map]
    exact (hoperations.trans (Nat.zero_add _)).symm
  · rw [hended, hrecords]
    exact hbytes.trans ByteArray.empty_append

/-- **The text of a trace loses nothing.** Where a sink takes all of some records, and
would take all of others, none of which has a line feed in its text or its name, it
holds the same bytes only if they are the same records: as many, and each with the
same counter, operations, text, name, memory, registers and flag. All records of a
program that has been loaded are so, whatever steps and runs have made them. And a run
of it writes seven lines for each operation, those of its records, each of them with a
line feed at its end and no other. -/
theorem text_lossless :
    (∀ (sink : Sink) (records others : List Record), (∀ record ∈ records, record.Unbroken) →
      (∀ record ∈ others, record.Unbroken) → Tracer.text.Takes sink records →
      Tracer.text.Takes sink others →
      (Tracer.text.after sink records).bytes = (Tracer.text.after sink others).bytes →
        records = others) ∧
    ∀ (source : Text) (program : Program), (Program.ofSource source).result = .ok program →
      (∀ (e : Execution) (records : List Record), Execution.History program e records →
        ∀ record ∈ records, record.Unbroken) ∧
      ∀ (limit : Option Nat) (rounds : Nat) (log : Array Event),
        let ended := (start program ({} : Sink) log).runFor program limit .text rounds
        let seen := (start program (({} : Sink), []) log).runFor program limit
          Tracer.text.transcript rounds
        let records := seen.1.trace.2
        ended = (seen.1.mapTrace Prod.fst, seen.2) ∧
          Execution.History program ended.1.execution records ∧
          records.length = ended.1.execution.operations ∧
          ended.1.trace.bytes =
            Text.utf8 ((Record.allLines records).flatMap (· ++ ['\n'])) ∧
          (∀ line ∈ Record.allLines records, '\n' ∉ line) ∧
          (Record.allLines records).length = 7 * ended.1.execution.operations := by
  refine ⟨fun sink records others hrecords hothers htakes htakes' hbytes => ?_,
    fun source program hload => ⟨fun e records h => h.unbroken hload,
      fun limit rounds log => ?_⟩⟩
  · exact Tracer.eq_of_bytes_after_text_eq hrecords hothers htakes htakes' hbytes
  · intro ended seen records
    obtain ⟨hended, hlength, hbytes⟩ :=
      text_runFor_start (Program.wellFormed_of_ofSource hload) limit rounds log
    have hhistory : Execution.History program seen.1.execution records :=
      .run .start limit .text ({} : Sink) log rounds
    have hexecution : ended.1.execution = seen.1.execution := congrArg (·.1.execution) hended
    refine ⟨hended, hexecution ▸ hhistory, hlength, ?_, fun line => ?_, ?_⟩
    · exact hbytes.trans (Record.blocks_eq_utf8_allLines _)
    · exact Record.newline_notMem_of_mem_allLines (hhistory.unbroken hload)
    · rw [← hlength]
      exact Record.length_allLines _

/-- A program of two slots, and the fourteen lines that it writes; and two records that
differ only in whether the flag is set. -/
theorem text_lossless_halt :
    let program : Program :=
      { image := ⟨#[0]⟩
        slots := #[
          ⟨2, "CMP R0, #0".toList, ⟨.compare, [.register 0, .operand (.immediate 0)]⟩⟩,
          ⟨3, "HALT".toList, ⟨.halt, []⟩⟩]
        labels := {} }
    let ended := (start program ({} : Sink) #[]).runFor program none .text 3
    let unset : Record := ⟨0, 1, "HALT".toList, "Halt".toList, ⟨#[]⟩, {}⟩
    let set : Record :=
      ⟨0, 1, "HALT".toList, "Halt".toList, ⟨#[]⟩, ⟨[], by decide, some .equal⟩⟩
    (Program.ofSource "[0]\nCMP R0, #0\nHALT".toList).result = .ok program ∧
      ended.1.execution.operations = 2 ∧
      (∃ lines : List Text, lines.length = 14 ∧ (∀ line ∈ lines, '\n' ∉ line) ∧
        ended.1.trace.bytes = Text.utf8 (lines.flatMap (· ++ ['\n']))) ∧
      (Tracer.text.after {} [unset]).bytes ≠ (Tracer.text.after {} [set]).bytes := by
  intro program ended unset set
  have hload : (Program.ofSource "[0]\nCMP R0, #0\nHALT".toList).result = .ok program := by
    decide +kernel
  have hoperations : ended.1.execution.operations = 2 := by decide +kernel
  obtain ⟨htold, hloaded⟩ := text_lossless
  obtain ⟨-, hrun⟩ := hloaded _ program hload
  obtain ⟨-, -, -, hbytes, hlines, hlength⟩ := hrun none 3 #[]
  rw [hoperations] at hlength
  refine ⟨hload, hoperations, ⟨_, hlength, hlines, hbytes⟩, fun h => ?_⟩
  have hunbroken (registers : Registers) :
      ∀ record ∈ [(⟨0, 1, "HALT".toList, "Halt".toList, ⟨#[]⟩, registers⟩ : Record)],
        record.Unbroken := by
    intro record hrecord
    obtain rfl := List.mem_singleton.1 hrecord
    exact ⟨(by decide : '\n' ∉ "HALT".toList), (by decide : '\n' ∉ "Halt".toList)⟩
  have hsame := htold {} [unset] [set] (hunbroken _) (hunbroken _) (Tracer.takes_text rfl _)
    (Tracer.takes_text rfl _) h
  exact absurd hsame (by decide)

end Session

end TeachAsm
