import Mathlib.Control.Monad.Basic
import TeachAsm.Proofs.Program.Forms
import TeachAsm.Proofs.Program.Labels
/-!
# Loading a program

A source makes a program when its first line of code is a memory image, every
other line has one of the two forms, and no name is declared twice; the slots
are then those of the lines, in order. Otherwise there is one fault, and it is
the first that the stages of loading meet: the image, then the lines, then the
names. `Program.Loads` has a case for each of these outcomes, and loading comes
to the one that it says (`result_ofLines_eq_iff`). A program that has been
loaded is `WellFormed`, which is all that executing it relies on.
-/

namespace TeachAsm

/-- **What loading guarantees of a program**: its slots hold shaped
instructions, and a name stands for the slot that declares it. -/
structure Program.WellFormed (program : Program) : Prop where
  shaped : ∀ slot ∈ program.slots, slot.instruction.Shaped
  slot?_eq_some_iff : ∀ {name place}, program.labels.slot? name = some place ↔
    ∃ slot, program.slots[place]? = some slot ∧ slot.declares? = some name

/-- A name stands for the one slot that is its declaration. -/
theorem Program.WellFormed.slot?_eq_some_iff_label {program : Program} (hwf : program.WellFormed)
    {name : Text} {place : Nat} :
    program.labels.slot? name = some place ↔
      ∃ slot, program.slots[place]? = some slot ∧ slot.instruction = ⟨.label, [.label name]⟩ := by
  rw [hwf.slot?_eq_some_iff]
  refine exists_congr fun slot => and_congr_right fun hslot => ?_
  exact (hwf.shaped slot (Array.mem_of_getElem? hslot)).declares?_eq_some_iff

namespace Program

variable {first : Line} {rest : List Line} {image : Memory} {parts : List (List Slot)}
variable {fault : Fault}

/-! ## The stages -/

/-- Behind the image, the lines are read before any name is declared. -/
theorem ofLines_cons (himage : Memory.ofText? first.text = some image) :
    ofLines (first :: rest) = do
      Report.note [.imageParsed image.size]
      let slots ← Slot.ofLines rest
      let labels ← Labels.resolve {} slots.zipIdx
      Report.note [.programLoaded slots.length labels.size]
      return ⟨image, slots.toArray, labels⟩ := by
  simp only [ofLines, himage]

theorem result_ofLines_cons (himage : Memory.ofText? first.text = some image) :
    (ofLines (first :: rest)).result = do
      let slots ← Slot.ofLines rest
      let labels ← (Labels.resolve {} slots.zipIdx).result
      return ⟨image, slots.toArray, labels⟩ := by
  rw [ofLines_cons himage, Report.note_bind]
  cases Slot.ofLines rest with
  | error fault => rfl
  | ok slots =>
    rw [Report.lift_ok, pure_bind]
    exact Report.result_bind _ _

/-- A slot of lines is one of the slots of a line. -/
theorem exists_forms_of_mem (hparts : List.Forall₂ Slot.Forms rest parts) {slot : Slot}
    (hslot : slot ∈ parts.flatten) :
    ∃ line ∈ rest, ∃ slots, Slot.Forms line slots ∧ slot ∈ slots := by
  induction hparts with
  | nil => simp at hslot
  | @cons line slots rest parts hform _ ih =>
    rw [List.flatten_cons, List.mem_append] at hslot
    rcases hslot with hslot | hslot
    · exact ⟨line, List.mem_cons_self, slots, hform, hslot⟩
    · obtain ⟨other, hother, hfound⟩ := ih hslot
      exact ⟨other, List.mem_cons_of_mem _ hother, hfound⟩

/-- Slots of lines hold shaped instructions. -/
theorem shaped_of_forms (hparts : List.Forall₂ Slot.Forms rest parts) :
    ∀ slot ∈ parts.flatten, slot.instruction.Shaped := by
  intro slot hslot
  obtain ⟨_, -, _, hform, hmem⟩ := exists_forms_of_mem hparts hslot
  exact hform.shaped slot hmem

/-- When all lines have been read, the names of their slots are resolved. -/
theorem result_ofLines_of_forms (himage : Memory.ofText? first.text = some image)
    (hparts : List.Forall₂ Slot.Forms rest parts) :
    (ofLines (first :: rest)).result = do
      let labels ← (Labels.resolve {} parts.flatten.zipIdx).result
      return ⟨image, parts.flatten.toArray, labels⟩ := by
  rw [result_ofLines_cons himage, Slot.ofLines_eq_ok_iff.2 ⟨parts, hparts, rfl⟩]
  rfl

/-! ## What loading comes to -/

/-- **What lines of code load to**: a program, or the fault that the first stage
to fail meets. -/
inductive Loads : List Line → Except Fault Program → Prop
  | missingImage : Loads [] (.error .missingImage)
  | malformedImage {first : Line} {rest : List Line}
      (himage : Memory.ofText? first.text = none) :
      Loads (first :: rest) (.error (.malformedImage first.number))
  | unknownInstruction {first line : Line} {before after : List Line} {image : Memory}
      (himage : Memory.ofText? first.text = some image)
      (hbefore : ∀ l ∈ before, Line.IsSingle l.text ∨ Line.IsLabelled l.text)
      (hline : ¬ (Line.IsSingle line.text ∨ Line.IsLabelled line.text)) :
      Loads (first :: (before ++ line :: after))
        (.error (.unknownInstruction line.number line.text))
  | duplicateLabel {first : Line} {rest : List Line} {image : Memory} {parts : List (List Slot)}
      {i j : Nat} {earlier later : Slot} {name : Text}
      (himage : Memory.ofText? first.text = some image)
      (hparts : List.Forall₂ Slot.Forms rest parts)
      (hre : Slot.Redeclared parts.flatten i j earlier later name) :
      Loads (first :: rest) (.error (.duplicateLabel name earlier.line later.line))
  | program {first : Line} {rest : List Line} {image : Memory} {parts : List (List Slot)}
      (himage : Memory.ofText? first.text = some image)
      (hparts : List.Forall₂ Slot.Forms rest parts)
      (hnodup : (Slot.names parts.flatten).Nodup) :
      Loads (first :: rest) (.ok ⟨image, parts.flatten.toArray, Labels.ofSlots parts.flatten⟩)

variable {lines : List Line} {result : Except Fault Program} {program : Program}

theorem Loads.result_ofLines (h : Loads lines result) : (ofLines lines).result = result := by
  cases h with
  | missingImage => rfl
  | malformedImage himage =>
    simp only [ofLines, himage]
    rfl
  | unknownInstruction himage hbefore hline =>
    rw [result_ofLines_cons himage,
      Slot.ofLines_eq_error_iff.2 ⟨_, _, _, rfl, hbefore, hline, rfl⟩]
    rfl
  | duplicateLabel himage hparts hre =>
    rw [result_ofLines_of_forms himage hparts,
      Labels.result_resolve_of_redeclared (shaped_of_forms hparts) hre]
    rfl
  | program himage hparts hnodup =>
    rw [result_ofLines_of_forms himage hparts,
      Labels.result_resolve_of_nodup (shaped_of_forms hparts) hnodup]
    rfl

/-- Whatever the lines are, one of the cases is theirs. -/
theorem exists_loads (lines : List Line) : ∃ result, Loads lines result := by
  -- stage after stage, the first that fails decides
  rcases lines with _ | ⟨first, rest⟩
  · exact ⟨_, .missingImage⟩
  rcases himage : Memory.ofText? first.text with _ | image
  · exact ⟨_, .malformedImage himage⟩
  rcases hlines : Slot.ofLines rest with fault | slots
  · obtain ⟨before, line, after, rfl, hbefore, hline, -⟩ := Slot.ofLines_eq_error_iff.1 hlines
    exact ⟨_, .unknownInstruction himage hbefore hline⟩
  obtain ⟨parts, hparts, -⟩ := Slot.ofLines_eq_ok_iff.1 hlines
  rcases Slot.nodup_or_redeclared parts.flatten with hnodup | ⟨i, j, earlier, later, name, hre⟩
  · exact ⟨_, .program himage hparts hnodup⟩
  · exact ⟨_, .duplicateLabel himage hparts hre⟩

/-- **Loading has the result that the cases say.** -/
theorem result_ofLines_eq_iff : (ofLines lines).result = result ↔ Loads lines result := by
  refine ⟨?_, Loads.result_ofLines⟩
  rintro rfl
  obtain ⟨result, h⟩ := exists_loads lines
  rw [h.result_ofLines]
  exact h

/-- What a program that has been loaded consists of. -/
theorem Loads.exists_parts (h : Loads lines (.ok program)) :
    ∃ first rest parts, lines = first :: rest ∧ Memory.ofText? first.text = some program.image ∧
      List.Forall₂ Slot.Forms rest parts ∧ (Slot.names parts.flatten).Nodup ∧
      program.slots = parts.flatten.toArray ∧ program.labels = Labels.ofSlots parts.flatten := by
  cases h with
  | program himage hparts hnodup => exact ⟨_, _, _, rfl, himage, hparts, hnodup, rfl, rfl⟩

/-- **A program that has been loaded is well formed.** -/
theorem wellFormed_of_ofSource {source : Text} (h : (ofSource source).result = .ok program) :
    program.WellFormed := by
  obtain ⟨first, rest, parts, -, -, hparts, hnodup, hslots, hlabels⟩ :=
    (result_ofLines_eq_iff.1 h).exists_parts
  refine ⟨fun slot hslot => ?_, fun {name place} => ?_⟩
  · rw [hslots, List.mem_toArray] at hslot
    exact shaped_of_forms hparts slot hslot
  · rw [hslots, hlabels, List.getElem?_toArray]
    exact Labels.slot?_ofSlots hnodup

/-- Loading never misses a capture. -/
theorem result_ofSource_ne_missingCapture (source : Text) (position : Nat) :
    (ofSource source).result ≠ .error (.missingCapture position) := by
  intro h
  have hloads := result_ofLines_eq_iff.1 h
  -- no case of loading has this fault
  generalize Line.ofSource source = lines at hloads
  cases hloads

/-! ## The laws of loading -/

/-- **Which sources make a program, and which program.** The lines of code are
what stands in the source, in order. A source makes a program exactly when it
has a first line of code and that is a memory image, when each other line
decodes or is a label in front of code that decodes, and when the names that its
slots declare are distinct. No line has both forms. The program's image is the
one of the first line, and its slots are those that the other lines stand for,
in order. -/
theorem ofSource_eq_ok_iff (source : Text) :
    ((∀ line, line ∈ Line.ofSource source ↔ line.StandsIn source) ∧
      (Line.ofSource source).Pairwise fun line other => line.number < other.number) ∧
      (∀ t, ¬ (Line.IsSingle t ∧ Line.IsLabelled t)) ∧
      ((∃ program, (ofSource source).result = .ok program) ↔
        ∃ first rest, Line.ofSource source = first :: rest ∧
          (∃ image, Memory.ofText? first.text = some image) ∧
          (∀ line ∈ rest, Line.IsSingle line.text ∨ Line.IsLabelled line.text) ∧
          ∀ parts, List.Forall₂ Slot.Forms rest parts → (Slot.names parts.flatten).Nodup) ∧
      ∀ program, (ofSource source).result = .ok program →
        ∃ first rest parts, Line.ofSource source = first :: rest ∧
          Memory.ofText? first.text = some program.image ∧ List.Forall₂ Slot.Forms rest parts ∧
          program.slots.toList = parts.flatten := by
  refine ⟨⟨fun line => Line.mem_ofSource_iff, Line.pairwise_number_ofSource source⟩,
    fun t ⟨hsingle, hlabelled⟩ => hlabelled.not_isSingle hsingle, ⟨?_, ?_⟩, ?_⟩
  · rintro ⟨program, h⟩
    obtain ⟨first, rest, parts, hlines, himage, hparts, hnodup, -, -⟩ :=
      (result_ofLines_eq_iff.1 h).exists_parts
    refine ⟨first, rest, hlines, ⟨_, himage⟩, Slot.forms_of_forall₂ hparts,
      fun others hothers => ?_⟩
    have hunique : Relator.RightUnique Slot.Forms := fun _ _ _ h h' => Slot.Forms.unique h h'
    have hsame : others = parts := List.right_unique_forall₂' hunique hothers hparts
    rw [hsame]
    exact hnodup
  · rintro ⟨first, rest, hlines, ⟨image, himage⟩, hforms, hnodup⟩
    obtain ⟨parts, hparts⟩ := Slot.exists_forall₂_forms hforms
    have hloads := Loads.program himage hparts (hnodup parts hparts)
    rw [← hlines] at hloads
    exact ⟨_, hloads.result_ofLines⟩
  · intro program h
    obtain ⟨first, rest, parts, hlines, himage, hparts, -, hslots, -⟩ :=
      (result_ofLines_eq_iff.1 h).exists_parts
    exact ⟨first, rest, parts, hlines, himage, hparts, by rw [hslots]⟩

/-- A source with a comment, a blank line, a line that declares two labels and a
branch. -/
theorem ofSource_eq_ok_of_two_labels :
    let source := "// sum\n[1, -2] // image\r\n\n a:\tb:\nB a".toList
    let program : Program :=
      { image := ⟨#[1, -2]⟩
        slots := #[⟨4, "a:".toList, ⟨.label, [.label "a".toList]⟩⟩,
          ⟨4, "b:".toList, ⟨.label, [.label "b".toList]⟩⟩,
          ⟨5, "B a".toList, ⟨.branch .always, [.label "a".toList]⟩⟩]
        labels := ⟨[⟨"b".toList, 1, 4⟩, ⟨"a".toList, 0, 4⟩]⟩ }
    (ofSource source).result = .ok program ∧
      ∃ first rest parts, Line.ofSource source = first :: rest ∧
        Memory.ofText? first.text = some program.image ∧ List.Forall₂ Slot.Forms rest parts ∧
        program.slots.toList = parts.flatten := by
  intro source program
  have h : (ofSource source).result = .ok program := by decide +kernel
  exact ⟨h, (ofSource_eq_ok_iff source).2.2.2 program h⟩

/-- **Which fault a source is refused with.** Without code it is that the image
is missing; with a first line that is no image, that one's number; then, for
the first other line of neither form, its number and its whole text, whatever
names have been declared twice before it; and then the first slot that declares
a name again, with its line and the line of the one slot that declared it. -/
theorem ofSource_eq_error_iff (source : Text) (fault : Fault) :
    (ofSource source).result = .error fault ↔
      (Line.ofSource source = [] ∧ fault = .missingImage) ∨
      ∃ first rest, Line.ofSource source = first :: rest ∧
        ((Memory.ofText? first.text = none ∧ fault = .malformedImage first.number) ∨
          ∃ image, Memory.ofText? first.text = some image ∧
            ((∃ before line after, rest = before ++ line :: after ∧
                (∀ l ∈ before, Line.IsSingle l.text ∨ Line.IsLabelled l.text) ∧
                ¬ (Line.IsSingle line.text ∨ Line.IsLabelled line.text) ∧
                fault = .unknownInstruction line.number line.text) ∨
              ∃ parts, List.Forall₂ Slot.Forms rest parts ∧
                ∃ i j earlier later name, Slot.Redeclared parts.flatten i j earlier later name ∧
                  fault = .duplicateLabel name earlier.line later.line)) := by
  rw [ofSource, result_ofLines_eq_iff]
  generalize Line.ofSource source = lines
  refine ⟨fun h => ?_, ?_⟩
  · cases h with
    | missingImage => exact .inl ⟨rfl, rfl⟩
    | malformedImage himage => exact .inr ⟨_, _, rfl, .inl ⟨himage, rfl⟩⟩
    | unknownInstruction himage hbefore hline =>
      exact .inr ⟨_, _, rfl, .inr ⟨_, himage, .inl ⟨_, _, _, rfl, hbefore, hline, rfl⟩⟩⟩
    | duplicateLabel himage hparts hre =>
      exact .inr ⟨_, _, rfl, .inr ⟨_, himage, .inr ⟨_, hparts, _, _, _, _, _, hre, rfl⟩⟩⟩
  · rintro (⟨rfl, rfl⟩ | ⟨first, rest, rfl, ⟨himage, rfl⟩ | ⟨image, himage, hunknown | hre⟩⟩)
    · exact .missingImage
    · exact .malformedImage himage
    · obtain ⟨before, line, after, rfl, hbefore, hline, rfl⟩ := hunknown
      exact .unknownInstruction himage hbefore hline
    · obtain ⟨parts, hparts, i, j, earlier, later, name, hre, rfl⟩ := hre
      exact .duplicateLabel himage hparts hre

end Program

end TeachAsm
