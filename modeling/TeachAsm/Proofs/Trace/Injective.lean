import TeachAsm.Proofs.Machine.Injective
import TeachAsm.Proofs.Text.Line
import TeachAsm.Proofs.Trace.Room
/-!
# Different records are written differently

A record is told from the lines of its block, whatever its text and its name are
(`Record.eq_of_lines_eq`): each line starts with a label of its own, and what stands
behind the label is told from its text. Where the blocks of several records follow each
other, the text is to be cut again, and so nothing in a record may go over the end of a
line (`Record.Unbroken`). Then the bytes that a sink takes tell all records
(`Tracer.eq_of_bytes_after_text_eq`).
-/

namespace TeachAsm

/-! ## Lines -/

namespace Text

theorem utf8_injective : Function.Injective utf8 := by
  intro t u h
  exact String.ofList_inj.1 (String.toByteArray_inj.1 h)

/-- **Lines are told from what is written of them**, if none of them holds a line feed:
each piece is a line, and nothing stands behind the last line feed. -/
theorem splitOn_flatMap_newline {ts : List Text} (h : ∀ t ∈ ts, '\n' ∉ t) :
    (ts.flatMap (· ++ ['\n'])).splitOn '\n' = ts ++ [[]] := by
  induction ts with
  | nil => exact List.splitOn_nil '\n'
  | cons t ts ih =>
    obtain ⟨ht, hts⟩ := List.forall_mem_cons.1 h
    rw [List.flatMap_cons, List.append_assoc, List.singleton_append,
      List.splitOn_append_cons_self_of_not_mem ht, ih hts, List.cons_append]

end Text

namespace Record

variable {record other : Record} {records others : List Record}

/-- **A record whose text and name stand on one line each.** -/
structure Unbroken (record : Record) : Prop where
  text : '\n' ∉ record.text
  name : '\n' ∉ record.name

/-- **A record is told from its lines.** -/
theorem eq_of_lines_eq (h : record.lines = other.lines) : record = other := by
  obtain ⟨counter, operations, text, name, memory, registers⟩ := record
  obtain ⟨counter', operations', text', name', memory', registers'⟩ := other
  simp only [lines, List.cons.injEq, List.append_cancel_left_eq, and_true, true_and] at h
  obtain ⟨hcounter, hoperations, rfl, rfl, hmemory, hregisters⟩ := h
  rw [Decimal.ofNat_injective hcounter, Decimal.ofNat_injective hoperations,
    Memory.text_injective hmemory, Registers.text_injective hregisters]

/-- No line of an unbroken record goes on behind its end. -/
theorem Unbroken.newline_notMem_of_mem_lines (h : record.Unbroken) {line : Text}
    (hline : line ∈ record.lines) : '\n' ∉ line := by
  have hlabel {label body : Text} (hlabel : '\n' ∉ label) (hbody : '\n' ∉ body) :
      '\n' ∉ label ++ body := by
    rw [List.mem_append, not_or]
    exact ⟨hlabel, hbody⟩
  simp only [lines, List.mem_cons, List.not_mem_nil, or_false] at hline
  rcases hline with rfl | rfl | rfl | rfl | rfl | rfl | rfl
  · decide
  · exact hlabel (by decide) (Decimal.newline_notMem_ofNat _)
  · exact hlabel (by decide) (Decimal.newline_notMem_ofNat _)
  · exact hlabel (by decide) h.text
  · exact hlabel (by decide) h.name
  · exact hlabel (by decide) record.memory.newline_notMem_text
  · exact hlabel (by decide) record.registers.newline_notMem_text

/-- The lines of records, one block behind the other. -/
def allLines (records : List Record) : List Text :=
  records.flatMap lines

theorem length_allLines (records : List Record) :
    (allLines records).length = 7 * records.length := by
  induction records with
  | nil => rfl
  | cons record records ih =>
    have hcons : allLines (record :: records) = record.lines ++ allLines records :=
      List.flatMap_cons
    have hseven : record.lines.length = 7 := rfl
    rw [hcons, List.length_append, ih, hseven, List.length_cons]
    omega

/-- What is written of records is their lines, each with a line feed behind it. -/
theorem blocks_eq_utf8_allLines (records : List Record) :
    blocks records = Text.utf8 ((allLines records).flatMap (· ++ ['\n'])) := by
  rw [blocks, allLines, List.flatMap_assoc]
  rfl

/-- The lines are cut into records seven by seven. -/
theorem eq_of_allLines_eq (h : allLines records = allLines others) : records = others := by
  induction records generalizing others with
  | nil =>
    have hlength := length_allLines others
    rw [← h] at hlength
    cases others with
    | nil => rfl
    | cons other others => cases hlength
  | cons record records ih =>
    cases others with
    | nil => cases h
    | cons other others =>
      obtain ⟨hlines, hrest⟩ := List.append_inj h rfl
      rw [eq_of_lines_eq hlines, ih hrest]

theorem newline_notMem_of_mem_allLines (h : ∀ record ∈ records, record.Unbroken) {line : Text}
    (hline : line ∈ allLines records) : '\n' ∉ line := by
  obtain ⟨record, hrecord, hline⟩ := List.mem_flatMap.1 hline
  exact (h record hrecord).newline_notMem_of_mem_lines hline

/-- **Unbroken records are told from their blocks.** -/
theorem eq_of_blocks_eq (hrecords : ∀ record ∈ records, record.Unbroken)
    (hothers : ∀ record ∈ others, record.Unbroken) (h : blocks records = blocks others) :
    records = others := by
  rw [blocks_eq_utf8_allLines, blocks_eq_utf8_allLines] at h
  have hpieces := congrArg (List.splitOn '\n') (Text.utf8_injective h)
  rw [Text.splitOn_flatMap_newline fun _ => newline_notMem_of_mem_allLines hrecords,
    Text.splitOn_flatMap_newline fun _ => newline_notMem_of_mem_allLines hothers] at hpieces
  exact eq_of_allLines_eq (List.append_cancel_right hpieces)

end Record

/-! ## Sinks -/

namespace Tracer

variable {sink : Sink} {records others : List Record}

/-- What a sink holds that has taken records. -/
theorem bytes_after_text (h : text.Takes sink records) :
    (text.after sink records).bytes = sink.bytes ++ Record.blocks records := by
  have hfits := takes_text_iff.1 h
  rw [after_text h]
  rcases hroom : sink.room with _ | room
  · rw [Sink.write_of_room_eq_none hroom]
  · rw [Sink.write_eq_true_iff hroom] at hfits
    rw [Sink.bytes_write hroom, Sink.extract_of_size_le hfits]

/-- **The bytes that a sink takes tell the records.** -/
theorem eq_of_bytes_after_text_eq (hrecords : ∀ record ∈ records, record.Unbroken)
    (hothers : ∀ record ∈ others, record.Unbroken) (htakes : text.Takes sink records)
    (htakes' : text.Takes sink others)
    (h : (text.after sink records).bytes = (text.after sink others).bytes) : records = others := by
  rw [bytes_after_text htakes, bytes_after_text htakes'] at h
  exact Record.eq_of_blocks_eq hrecords hothers (ByteArray.append_right_inj sink.bytes |>.1 h)

end Tracer

end TeachAsm
