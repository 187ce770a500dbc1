import TeachAsm.Instruction.Field
import TeachAsm.Labels
import TeachAsm.Log.Report
import TeachAsm.Program.Slot
/-!
# Programs

The source of a program is a memory image on the first line of code, and
instructions on the lines after it. Reading goes in three stages, and the
first stage with a fault decides: the image, then the slots of all lines,
then the labels in the order of their slots. `Program.text` writes a program
as a source again.
-/

namespace TeachAsm

/-- The labels that slots declare, added to those there are. A slot comes
with its place in the program. -/
def Labels.resolve (labels : Labels) : List (Slot × Nat) → Report Labels
  | [] => pure labels
  | (slot, place) :: rest =>
    if slot.instruction.opcode.declaresLabel then do
      let name ← slot.instruction.captures.label 0
      let labels ← labels.declare ⟨name, place, slot.line⟩
      Report.note [.labelResolved name place]
      labels.resolve rest
    else
      labels.resolve rest

/-- A program, ready to run. -/
structure Program where
  /-- What memory holds at the start. -/
  image : Memory
  slots : Array Slot
  labels : Labels
  deriving DecidableEq, Repr

namespace Program

/-- The number of slots. -/
def size (program : Program) : Nat :=
  program.slots.size

/-- The program that lines of code make up. -/
def ofLines : List Line → Report Program
  | [] => Report.fail .missingImage
  | first :: rest =>
    match Memory.ofText? first.text with
    | none => Report.fail (.malformedImage first.number)
    | some image => do
      Report.note [.imageParsed image.size]
      let slots ← Slot.ofLines rest
      let labels ← Labels.resolve {} slots.zipIdx
      Report.note [.programLoaded slots.length labels.size]
      return ⟨image, slots.toArray, labels⟩

/-- The program that a source text makes up. -/
def ofSource (source : Text) : Report Program :=
  ofLines (Line.ofSource source)

/-- The program in the file at a path, given what the file holds: `none` when
there is no file that can be read. The contents must be UTF-8. -/
def ofFile (path : Text) (contents : Option ByteArray) : Report Program :=
  match contents.bind String.fromUTF8? with
  | some source => ofSource source.toList
  | none => Report.fail (.unreadableFile path)

/-- A program as a source: its image, then the code of each slot on a line of
its own. -/
def text (program : Program) : Text :=
  "\n".toList.intercalate (program.image.text :: program.slots.toList.map Slot.text)

end Program

end TeachAsm
