import TeachAsm.Proofs.Execution.Numbering
import TeachAsm.Proofs.Instruction.Priority
import TeachAsm.Proofs.Machine.Image
/-!
# Reprinting a program

`Program.text` writes a program as a source again, its image on the first line
and each slot on a line of its own. Nothing is lost on the way: what has been
loaded from a source is loaded from that text too, under other line numbers
(`Program.ofSource_eq_renumber`), and it runs in the same way. Two facts carry
this. The text of a slot decodes to the slot's instruction, and that holds for a
label that stood in front of an instruction as well (`Slot.Forms.ofText?_eq`).
And the text is plain, so that it is the code of the line it is printed on
(`Slot.Forms.isPlain`).
-/

namespace TeachAsm

/-! ## Texts that are printed -/

/-- Memory in writing is a line of code as it stands. -/
theorem Memory.isPlain_text (m : Memory) : m.text.IsPlain := by
  have hnot : ∀ c, c ∉ "[-, ]".toList → c.isDigit = false → c ∉ m.text := by
    intro c hc hdigit hmem
    rcases mem_or_isDigit_of_mem_text hmem with h | h
    · exact hc h
    · rw [hdigit] at h
      cases h
  refine ⟨hnot _ (by decide) (by decide), hnot _ (by decide) (by decide), List.cons_ne_nil _ _,
    fun c hc => ?_, fun c hc => ?_⟩
  · obtain rfl : '[' = c := Option.some.inj hc
    decide
  · obtain rfl : ']' = c := Option.some.inj (m.getLast?_text.symm.trans hc)
    decide

namespace Slot

variable {line : Line} {slots : List Slot}

/-- **The text of a slot decodes to its instruction.** -/
theorem Forms.ofText?_eq (h : Forms line slots) :
    ∀ slot ∈ slots, Instruction.ofText? slot.text = some slot.instruction := by
  cases h with
  | single hi => simpa using hi
  | labelled _ hname _ hcode => simpa using ⟨Instruction.ofText?_name_colon hname, hcode⟩

/-- **The text of a slot is plain**, since it is part of a line. -/
theorem Forms.isPlain (h : Forms line slots) (hline : '\n' ∉ line.text) :
    ∀ slot ∈ slots, slot.text.IsPlain := by
  intro slot hslot
  refine Instruction.isPlain_of_ofText? (h.ofText?_eq slot hslot) fun hmem => hline ?_
  cases h with
  | single hi =>
    obtain rfl := List.mem_singleton.1 hslot
    exact hmem
  | labelled htext =>
    rw [htext]
    simp only [List.mem_cons, List.not_mem_nil, or_false] at hslot
    rcases hslot with rfl | rfl
    · have hname := (List.mem_append.1 hmem).resolve_right (by decide)
      exact List.mem_append_left _ hname
    · simp [hmem]

end Slot

namespace Program

variable {program : Program} {first first' : Line} {rest rest' : List Line} {image : Memory}
variable {parts parts' : List (List Slot)} {source : Text}

/-- The lines that a program is printed on. -/
def lines (program : Program) : List Text :=
  program.image.text :: program.slots.toList.map Slot.text

/-- The line that a slot has, given the line on which it is printed. -/
def lineOf (program : Program) (number : Nat) : Nat :=
  match program.slots[number - 2]? with
  | some slot => slot.line
  | none => 0

/-- What stands on the lines of a printed program. -/
theorem ofSource_text (hplain : ∀ t ∈ program.lines, t.IsPlain) :
    Line.ofSource program.text = ⟨1, program.image.text⟩ ::
      (program.slots.toList.zipIdx 2).map fun (slot, number) => ⟨number, slot.text⟩ := by
  have hlines := Line.ofSource_intercalate (List.cons_ne_nil _ _) hplain
  rw [List.zipIdx_cons, List.zipIdx_map, List.map_cons, List.map_map] at hlines
  exact hlines

/-- With the lines that its slots had, a printed program has a line for each slot. -/
theorem map_renumber_lineOf (program : Program) :
    ((program.slots.toList.zipIdx 2).map fun (slot, number) => Line.mk number slot.text).map
        (Line.renumber program.lineOf) =
      program.slots.toList.map fun slot => ⟨slot.line, slot.text⟩ := by
  have hline : ∀ e ∈ program.slots.toList.zipIdx 2,
      (Line.mk e.2 e.1.text).renumber program.lineOf = ⟨e.1.line, e.1.text⟩ := by
    rintro ⟨slot, number⟩ he
    obtain ⟨-, hslot⟩ := List.mk_mem_zipIdx_iff_le_and_getElem?_sub.1 he
    rw [Array.getElem?_toList] at hslot
    simp [Line.renumber, lineOf, hslot]
  calc ((program.slots.toList.zipIdx 2).map fun (slot, number) => Line.mk number slot.text).map
        (Line.renumber program.lineOf)
      = (program.slots.toList.zipIdx 2).map fun e => ⟨e.1.line, e.1.text⟩ := by
        rw [List.map_map]
        exact List.map_congr_left hline
    _ = ((program.slots.toList.zipIdx 2).map Prod.fst).map fun slot => ⟨slot.line, slot.text⟩ := by
        rw [List.map_map]
        rfl
    _ = program.slots.toList.map fun slot => ⟨slot.line, slot.text⟩ := by
        rw [List.zipIdx_map_fst]

/-- Lines with the same image and the same slots load in the same way. -/
theorem ofLines_eq_of_forms (himage : Memory.ofText? first.text = some image)
    (himage' : Memory.ofText? first'.text = some image)
    (hparts : List.Forall₂ Slot.Forms rest parts) (hparts' : List.Forall₂ Slot.Forms rest' parts')
    (hsame : parts.flatten = parts'.flatten) :
    ofLines (first :: rest) = ofLines (first' :: rest') := by
  rw [ofLines_cons himage, ofLines_cons himage', Slot.ofLines_eq_ok_iff.2 ⟨parts, hparts, rfl⟩,
    Slot.ofLines_eq_ok_iff.2 ⟨parts', hparts', rfl⟩, hsame]

/-- Where each slot decodes on a line of its own, the lines stand for the slots. -/
theorem forall₂_forms_of_decodes {slots : List Slot}
    (h : ∀ slot ∈ slots, Instruction.ofText? slot.text = some slot.instruction) :
    List.Forall₂ Slot.Forms (slots.map fun slot => ⟨slot.line, slot.text⟩)
      (slots.map ([·])) := by
  rw [List.forall₂_map_left_iff, List.forall₂_map_right_iff, List.forall₂_same]
  intro slot hslot
  exact .single (h slot hslot)

/-- A slot of a program is one of the slots of a line of its source. -/
theorem exists_forms_of_mem_slots (hload : (ofSource source).result = .ok program) {slot : Slot}
    (hslot : slot ∈ program.slots) :
    ∃ line ∈ Line.ofSource source, ∃ slots, Slot.Forms line slots ∧ slot ∈ slots := by
  obtain ⟨first, rest, parts, hlines, -, hparts, -, hslots, -⟩ :=
    (result_ofLines_eq_iff.1 hload).exists_parts
  rw [hslots, List.mem_toArray] at hslot
  obtain ⟨line, hline, hforms⟩ := exists_forms_of_mem hparts hslot
  exact ⟨line, hlines ▸ List.mem_cons_of_mem _ hline, hforms⟩

/-- Each slot of a program is what its text decodes to. -/
theorem decodes_of_ofSource (hload : (ofSource source).result = .ok program) :
    ∀ slot ∈ program.slots, Instruction.ofText? slot.text = some slot.instruction := by
  intro slot hslot
  obtain ⟨_, -, _, hform, hmem⟩ := exists_forms_of_mem_slots hload hslot
  exact hform.ofText?_eq slot hmem

/-- A program is printed on lines of code as they stand. -/
theorem isPlain_of_ofSource (hload : (ofSource source).result = .ok program) :
    ∀ t ∈ program.lines, t.IsPlain := by
  intro t ht
  rw [lines, List.mem_cons, List.mem_map] at ht
  rcases ht with rfl | ⟨slot, hslot, rfl⟩
  · exact program.image.isPlain_text
  · have hslot := Array.mem_toList_iff.1 hslot
    obtain ⟨_, hline, _, hform, hmem⟩ := exists_forms_of_mem_slots hload hslot
    exact hform.isPlain (Line.newline_notMem_of_mem_ofSource hline) slot hmem

/-- **A source loads as its reprint does**, under the line numbers of its own. -/
theorem ofSource_eq_renumber (hload : (ofSource source).result = .ok program) :
    ofSource source =
      (Program.renumber program.lineOf <$> ofSource program.text).renumber program.lineOf := by
  obtain ⟨first, rest, parts, hlines, himage, hparts, -, hslots, -⟩ :=
    (result_ofLines_eq_iff.1 hload).exists_parts
  have hdecodes : ∀ slot ∈ program.slots.toList,
      Instruction.ofText? slot.text = some slot.instruction := fun slot hslot =>
    decodes_of_ofSource hload slot (Array.mem_toList_iff.1 hslot)
  have hsame : parts.flatten = (program.slots.toList.map ([·])).flatten := by
    rw [hslots]
    exact (List.flatMap_singleton' parts.flatten).symm
  rw [ofSource, hlines, ofSource, ofSource_text (isPlain_of_ofSource hload), ← ofLines_renumber,
    List.map_cons, map_renumber_lineOf]
  exact ofLines_eq_of_forms himage program.image.ofText?_text hparts
    (forall₂_forms_of_decodes hdecodes) hsame

/-- Under other line numbers there is a program when there is one. -/
theorem exists_of_renumber_eq_ok {f : Nat → Nat} {loaded : Report Program}
    (h : ((Program.renumber f <$> loaded).renumber f).result = .ok program) :
    ∃ again, loaded.result = .ok again ∧ program = again.renumber f := by
  obtain ⟨events, fault | again⟩ := loaded
  · cases h
  · exact ⟨again, rfl, (Except.ok.inj h).symm⟩

/-- A program is printed without its line numbers. -/
theorem text_renumber (f : Nat → Nat) (program : Program) :
    (program.renumber f).text = program.text := by
  have hslots : (program.renumber f).slots.toList.map Slot.text =
      program.slots.toList.map Slot.text := by
    rw [renumber, Array.toList_map, List.map_map]
    rfl
  rw [text, text, hslots]
  rfl

/-- **Reprinting loses nothing.** The text of each slot of a loaded program
decodes to the slot's instruction, that of a label in front of an instruction
too. The program's text loads to a program that differs in its line numbers
only: it has the same image, the same slots, and the same slot for each name.
It is printed as the same text, and it runs as the source does, with any limit
and any tracer: the tracer is left in the same state, and the log and the
outcome or fault are the same up to line numbers. -/
theorem ofSource_text_lossless (hload : (ofSource source).result = .ok program) :
    (∀ slot ∈ program.slots, Instruction.ofText? slot.text = some slot.instruction) ∧
      ∃ again f, (ofSource program.text).result = .ok again ∧ program = again.renumber f ∧
        again.image = program.image ∧
        (again.slots.map fun slot => (slot.text, slot.instruction)) =
          (program.slots.map fun slot => (slot.text, slot.instruction)) ∧
        (∀ name, again.labels.slot? name = program.labels.slot? name) ∧
        again.labels.size = program.labels.size ∧ again.text = program.text ∧
        ∀ {σ : Type} (limit : Option Nat) (tracer : Tracer σ) (trace : σ),
          Run.ofSource source limit tracer trace =
            (Run.ofSource program.text limit tracer trace).renumber f := by
  have hdecodes := decodes_of_ofSource hload
  obtain ⟨f, hsource⟩ : ∃ f, ofSource source =
      (Program.renumber f <$> ofSource program.text).renumber f :=
    ⟨program.lineOf, ofSource_eq_renumber hload⟩
  rw [hsource] at hload
  obtain ⟨again, hagain, rfl⟩ := exists_of_renumber_eq_ok hload
  have hslots : ((again.renumber f).slots.map fun slot => (slot.text, slot.instruction)) =
      again.slots.map fun slot => (slot.text, slot.instruction) := by
    rw [renumber, Array.map_map]
    rfl
  have hslot? : ∀ name, (again.renumber f).labels.slot? name = again.labels.slot? name :=
    Labels.slot?_renumber again.labels
  refine ⟨hdecodes, again, f, hagain, rfl, rfl, hslots.symm, fun name => (hslot? name).symm,
    (Labels.size_renumber again.labels).symm, (text_renumber f again).symm,
    fun limit tracer trace => ?_⟩
  rw [Run.ofSource, hsource, Run.ofReport_renumber]
  rfl

/-- A source with a line end of two characters, an empty line, a label in front
of an instruction with a tab and no other blanks in it, and a comment. -/
theorem ofSource_text_lossless_loop :
    let source := "[7]\r\n\nloop:\tADD R0,R0,#1 // more\nB loop".toList
    let program : Program :=
      { image := ⟨#[7]⟩
        slots := #[⟨3, "loop:".toList, ⟨.label, [.label "loop".toList]⟩⟩,
          ⟨3, "ADD R0,R0,#1".toList,
            ⟨.compute .add, [.register 0, .register 0, .operand (.immediate 1)]⟩⟩,
          ⟨4, "B loop".toList, ⟨.branch .always, [.label "loop".toList]⟩⟩]
        labels := ⟨[⟨"loop".toList, 0, 3⟩]⟩ }
    (ofSource source).result = .ok program ∧
      program.text = "[7]\nloop:\nADD R0,R0,#1\nB loop".toList ∧
      ∃ again f, (ofSource program.text).result = .ok again ∧ program = again.renumber f ∧
        ∀ limit, Run.ofSource source limit .steps #[] =
          (Run.ofSource program.text limit .steps #[]).renumber f := by
  intro source program
  have hload : (ofSource source).result = .ok program := by decide +kernel
  obtain ⟨-, again, f, hagain, hprogram, -, -, -, -, -, hrun⟩ := ofSource_text_lossless hload
  exact ⟨hload, by decide +kernel, again, f, hagain, hprogram,
    fun limit => hrun limit .steps #[]⟩

end Program

end TeachAsm
