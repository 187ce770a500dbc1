import TeachAsm.Text.Basic
/-!
# Sinks

A sink takes bytes, and may have room for only so many. A write that does not
fit puts in what does, and fails; after that there is no room left. A write
that is empty always fits.
-/

namespace TeachAsm

/-- The UTF-8 encoding of a text. -/
def Text.utf8 (t : Text) : ByteArray :=
  (String.ofList t).toUTF8

/-- Bytes written so far, and how many more there is room for. -/
structure Sink where
  bytes : ByteArray := .empty
  /-- The room that is left, if it is bounded. -/
  room : Option Nat := none

namespace Sink

/-- The sink after a write, and whether all of it went in. -/
def write (sink : Sink) (data : ByteArray) : Sink × Bool :=
  match sink.room with
  | none => ({ sink with bytes := sink.bytes ++ data }, true)
  | some room =>
    if data.size ≤ room then
      (⟨sink.bytes ++ data, some (room - data.size)⟩, true)
    else
      (⟨sink.bytes ++ data.extract 0 room, some 0⟩, false)

theorem write_of_room_eq_none {sink : Sink} (h : sink.room = none) (data : ByteArray) :
    sink.write data = ({ sink with bytes := sink.bytes ++ data }, true) := by
  simp [write, h]

theorem write_of_size_le {sink : Sink} {room : Nat} (h : sink.room = some room)
    {data : ByteArray} (hle : data.size ≤ room) :
    sink.write data = (⟨sink.bytes ++ data, some (room - data.size)⟩, true) := by
  simp [write, h, hle]

theorem write_of_lt_size {sink : Sink} {room : Nat} (h : sink.room = some room)
    {data : ByteArray} (hlt : room < data.size) :
    sink.write data = (⟨sink.bytes ++ data.extract 0 room, some 0⟩, false) := by
  simp [write, h, Nat.not_le.2 hlt]

end Sink

end TeachAsm
