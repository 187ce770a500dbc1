import TeachAsm.Proofs.Trace.Offer
/-!
# Sinks with bounded room

Writing is sequential: two writes, the second of which is only made if the first goes
in, do what one write of both does (`Sink.write_append`). It follows that a text may be
written in any fragments (`Sink.writeAll_map_utf8`), and that what a sink has taken of
several records is what it would have taken of their blocks in one piece
(`Tracer.takes_text_iff`, `Tracer.after_text`). A sink with room for `n` bytes thereby
holds the first `n` bytes of it all (`Sink.bytes_write`), and if that is not everything
there is one record that goes past the room (`Tracer.exists_overflow`).
-/

namespace TeachAsm

@[simp] theorem Text.utf8_nil : Text.utf8 [] = ByteArray.empty :=
  rfl

@[simp] theorem Text.utf8_append (t u : Text) : (t ++ u).utf8 = t.utf8 ++ u.utf8 := by
  simp [utf8, String.toUTF8]

/-- The blocks of records, in bytes. -/
def Record.blocks (records : List Record) : ByteArray :=
  Text.utf8 (records.flatMap Record.block)

namespace Record

variable {records others : List Record}

@[simp] theorem blocks_nil : blocks [] = ByteArray.empty :=
  rfl

@[simp] theorem blocks_cons (record : Record) (records : List Record) :
    blocks (record :: records) = record.block.utf8 ++ blocks records := by
  simp [blocks]

@[simp] theorem blocks_append (records others : List Record) :
    blocks (records ++ others) = blocks records ++ blocks others := by
  simp [blocks]

end Record

/-! ## Sinks -/

namespace Sink

variable {sink : Sink} {data : ByteArray} {n : Nat}

/-- What comes behind is not among the first bytes. -/
theorem extract_append_of_le {a b : ByteArray} (h : n ≤ a.size) :
    (a ++ b).extract 0 n = a.extract 0 n := by
  have hnone : b.extract (0 - a.size) (n - a.size) = ByteArray.empty := by
    rw [ByteArray.extract_eq_empty_iff]
    omega
  rw [ByteArray.extract_append, hnone, ByteArray.append_empty]

/-- The first bytes are all bytes if there are no more. -/
theorem extract_of_size_le (h : data.size ≤ n) : data.extract 0 n = data := by
  rw [← Nat.max_eq_left h, ByteArray.extract_zero_max_size]

/-- An empty write always goes in, and changes nothing. -/
@[simp] theorem write_empty (sink : Sink) : sink.write ByteArray.empty = (sink, true) := by
  obtain ⟨bytes, _ | room⟩ := sink <;> simp [write]

/-- **Two writes do what one write of both does**, the second of which is made only
if all of the first has gone in. -/
theorem write_append (sink : Sink) (a b : ByteArray) :
    sink.write (a ++ b) =
      if (sink.write a).2 then (sink.write a).1.write b else sink.write a := by
  obtain ⟨bytes, _ | room⟩ := sink
  · simp [write, ByteArray.append_assoc]
  · by_cases ha : a.size ≤ room
    · rw [write_of_size_le rfl ha, if_pos rfl]
      by_cases hb : b.size ≤ room - a.size
      · have hboth : (a ++ b).size ≤ room := by
          rw [ByteArray.size_append]
          omega
        rw [write_of_size_le rfl hboth, write_of_size_le rfl hb, ByteArray.size_append,
          Nat.sub_sub, ByteArray.append_assoc]
      · have hnot : room < (a ++ b).size := by
          rw [ByteArray.size_append]
          omega
        -- all of the first goes in, and as much of the second as there is still room for
        have hcut : (a ++ b).extract 0 room = a ++ b.extract 0 (room - a.size) := by
          rw [ByteArray.extract_append, extract_of_size_le ha, Nat.zero_sub]
        rw [write_of_lt_size rfl hnot, write_of_lt_size rfl (Nat.lt_of_not_le hb), hcut,
          ByteArray.append_assoc]
    · have ha : room < a.size := Nat.lt_of_not_le ha
      have hnot : room < (a ++ b).size := by
        rw [ByteArray.size_append]
        omega
      rw [write_of_lt_size rfl ha, if_neg Bool.false_ne_true, write_of_lt_size rfl hnot,
        extract_append_of_le (Nat.le_of_lt ha)]

/-- A write goes in when there is room for it. -/
theorem write_eq_true_iff (h : sink.room = some n) :
    (sink.write data).2 = true ↔ data.size ≤ n := by
  by_cases hle : data.size ≤ n
  · rw [write_of_size_le h hle]
    exact iff_of_true rfl hle
  · rw [write_of_lt_size h (Nat.lt_of_not_le hle)]
    exact iff_of_false Bool.false_ne_true hle

/-- **A sink with room for `n` bytes takes the first `n` of them**. -/
theorem bytes_write (h : sink.room = some n) :
    (sink.write data).1.bytes = sink.bytes ++ data.extract 0 n := by
  by_cases hle : data.size ≤ n
  · rw [write_of_size_le h hle, extract_of_size_le hle]
  · rw [write_of_lt_size h (Nat.lt_of_not_le hle)]

/-- Writes in fragments, up to the first that does not go in. -/
def writeAll (sink : Sink) : List ByteArray → Sink × Bool
  | [] => (sink, true)
  | fragment :: fragments =>
    match sink.write fragment with
    | (sink, true) => sink.writeAll fragments
    | (sink, false) => (sink, false)

/-- **A text may be written in any fragments.** -/
theorem writeAll_map_utf8 (sink : Sink) (ts : List Text) :
    sink.writeAll (ts.map Text.utf8) = sink.write (Text.utf8 ts.flatten) := by
  induction ts generalizing sink with
  | nil => exact (write_empty sink).symm
  | cons t ts ih =>
    rw [List.map_cons, writeAll, List.flatten_cons, Text.utf8_append, write_append]
    rcases sink.write t.utf8 with ⟨next, _ | _⟩
    · rfl
    · exact ih next

end Sink

/-! ## Tracers of text -/

namespace Tracer

variable {sink : Sink} {records front : List Record} {record : Record}

/-- A tracer that writes the block of a record in fragments. -/
def inFragments (cut : Record → List Text) : Tracer Sink :=
  ⟨fun record sink => sink.writeAll ((cut record).map Text.utf8)⟩

/-- **However a block is cut, what is written is the block.** -/
theorem inFragments_eq_text {cut : Record → List Text}
    (h : ∀ record, (cut record).flatten = record.block) : inFragments cut = text := by
  refine congrArg Tracer.mk (funext fun record => funext fun sink => ?_)
  rw [Sink.writeAll_map_utf8, h]

/-- **Records are taken that there is room for.** -/
theorem takes_text_iff :
    text.Takes sink records ↔ (sink.write (Record.blocks records)).2 = true := by
  induction records generalizing sink with
  | nil => simp [Takes]
  | cons record records ih =>
    have hnext : text.record record sink = sink.write record.block.utf8 := rfl
    rw [Takes, ih, hnext, Record.blocks_cons, Sink.write_append]
    split
    · next h => exact and_iff_right h
    · next h => exact iff_of_false (fun hboth => h hboth.1) h

/-- What has been taken is what one write of all blocks puts in. -/
theorem after_text (h : text.Takes sink records) :
    text.after sink records = (sink.write (Record.blocks records)).1 := by
  induction records generalizing sink with
  | nil => simp [after]
  | cons record records ih =>
    obtain ⟨hhere, hlater⟩ := h
    have hnext : text.record record sink = sink.write record.block.utf8 := rfl
    have hafter : text.after sink (record :: records) =
        text.after (text.record record sink).1 records := rfl
    rw [hnext] at hhere
    rw [hafter, ih hlater, hnext, Record.blocks_cons, Sink.write_append, if_pos hhere]

/-- And so is what has been taken of a record behind others. -/
theorem record_after_text (h : text.Takes sink front) (record : Record) :
    text.record record (text.after sink front) =
      sink.write (Record.blocks (front ++ [record])) := by
  have hfront := takes_text_iff.1 h
  have hnext : text.record record (text.after sink front) =
      (text.after sink front).write record.block.utf8 := rfl
  rw [hnext, after_text h, Record.blocks_append, Sink.write_append, if_pos hfront,
    Record.blocks_cons, Record.blocks_nil, ByteArray.append_empty]

/-- **Where a sink runs out of room**: at the record whose block goes past it, and with
as many bytes of that block as there was room for. -/
theorem exists_overflow {n : Nat} (hroom : sink.room = some n)
    (h : n < (Record.blocks records).size) :
    ∃ front record back, records = front ++ record :: back ∧ text.Takes sink front ∧
      (text.record record (text.after sink front)).2 = false ∧
      (text.record record (text.after sink front)).1.bytes =
        sink.bytes ++ (Record.blocks records).extract 0 n ∧
      (Record.blocks front).size ≤ n ∧ n < (Record.blocks (front ++ [record])).size := by
  have hnot : ¬ text.Takes sink records := by
    rw [takes_text_iff, Sink.write_eq_true_iff hroom]
    exact Nat.not_le.2 h
  obtain ⟨front, record, back, rfl, hfront, hrefused⟩ := exists_refused_of_not_takes hnot
  have hrecord := record_after_text hfront record
  have hfits := (Sink.write_eq_true_iff hroom).1 (takes_text_iff.1 hfront)
  have hpast : n < (Record.blocks (front ++ [record])).size := by
    rw [hrecord, Bool.eq_false_iff, Ne, Sink.write_eq_true_iff hroom] at hrefused
    exact Nat.lt_of_not_le hrefused
  have hblocks : Record.blocks (front ++ record :: back) =
      Record.blocks (front ++ [record]) ++ Record.blocks back := by
    rw [← Record.blocks_append, List.append_assoc, List.singleton_append]
  refine ⟨front, record, back, rfl, hfront, hrefused, ?_, hfits, hpast⟩
  rw [hrecord, Sink.bytes_write hroom, hblocks, Sink.extract_append_of_le (Nat.le_of_lt hpast)]

end Tracer

end TeachAsm
