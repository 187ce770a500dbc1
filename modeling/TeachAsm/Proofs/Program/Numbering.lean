import TeachAsm.Proofs.Program.Loading
/-!
# Other line numbers

Line numbers are there to be told: they stand in faults and in the log, and
nothing is decided by them. Lines that are given other numbers therefore load to
the same program with these numbers, or to the same fault with them
(`Program.ofLines_renumber`). `renumber f` puts `f n` in place of each line
number `n`, in a line and in everything that is made of lines.
-/

namespace TeachAsm

/-! ## Renumbering -/

variable (f : Nat → Nat)

/-- A fault with other line numbers. -/
def Fault.renumber : Fault → Fault
  | unreadableFile path => unreadableFile path
  | malformedImage line => malformedImage (f line)
  | missingImage => missingImage
  | unknownInstruction line text => unknownInstruction (f line) text
  | undeclaredLabel line name => undeclaredLabel (f line) name
  | duplicateLabel name first second => duplicateLabel name (f first) (f second)
  | addressOutOfRange line address => addressOutOfRange (f line) address
  | missingCapture position => missingCapture position
  | stepLimit limit => stepLimit limit
  | traceFailed => traceFailed

/-- An event with another line number. -/
def Event.renumber : Event → Event
  | stepped counter line text control => stepped counter (f line) text control
  | event => event

/-- A report with other line numbers in its events and its fault. -/
def Report.renumber {α : Type} (report : Report α) : Report α :=
  ⟨report.events.map (Event.renumber f), report.result.mapError (Fault.renumber f)⟩

/-- A line with another number. -/
def Line.renumber (line : Line) : Line :=
  { line with number := f line.number }

/-- A slot with another line number. -/
def Slot.renumber (slot : Slot) : Slot :=
  { slot with line := f slot.line }

/-- A declaration with another line number. -/
def Declaration.renumber (d : Declaration) : Declaration :=
  { d with line := f d.line }

/-- Labels with other line numbers. -/
def Labels.renumber (labels : Labels) : Labels :=
  ⟨labels.declarations.map (Declaration.renumber f)⟩

/-- A program with other line numbers. -/
def Program.renumber (program : Program) : Program :=
  { program with
    slots := program.slots.map (Slot.renumber f)
    labels := program.labels.renumber f }

variable {f}

/-! ## Reports -/

namespace Report

variable {α β γ : Type}

@[simp] theorem renumber_pure (a : α) : (pure a : Report α).renumber f = pure a :=
  rfl

@[simp] theorem renumber_note (events : List Event) :
    (note events).renumber f = note (events.map (Event.renumber f)) :=
  rfl

/-- Work that logs nothing. -/
@[simp] theorem renumber_lift (result : Except Fault α) :
    (liftM result : Report α).renumber f = liftM (result.mapError (Fault.renumber f)) :=
  rfl

/-- **A chain is renumbered link by link.** -/
@[simp] theorem renumber_bind (x : Report α) (g : α → Report β) :
    (x >>= g).renumber f = x.renumber f >>= fun a => (g a).renumber f := by
  cases hx : x.result with
  | ok a =>
    have hx' : (x.renumber f).result = .ok a := by rw [renumber, hx]; rfl
    rw [bind_of_ok hx, bind_of_ok hx']
    simp [renumber]
  | error fault =>
    have hx' : (x.renumber f).result = .error (fault.renumber f) := by rw [renumber, hx]; rfl
    rw [bind_of_error hx, bind_of_error hx']
    rfl

end Report

/-! ## Lines and slots -/

namespace Slot

theorem single?_renumber (line : Line) :
    single? (line.renumber f) = (single? line).map (List.map (Slot.renumber f)) := by
  cases hi : Instruction.ofText? line.text <;> simp [single?, Line.renumber, Slot.renumber, hi]

theorem labelled?_renumber (line : Line) :
    labelled? (line.renumber f) = (labelled? line).map (List.map (Slot.renumber f)) := by
  rcases hd : Instruction.declaration? line.text with _ | ⟨declaration, rest⟩
  · simp [labelled?, Line.renumber, hd]
  · cases hi : Instruction.ofText? (Text.trimStart rest) <;>
      simp [labelled?, Line.renumber, Slot.renumber, hd, hi]

/-- A line with another number has the same slots, with that number. -/
theorem ofLine_renumber (line : Line) :
    ofLine (line.renumber f) =
      ((ofLine line).map (List.map (Slot.renumber f))).mapError (Fault.renumber f) := by
  rw [ofLine, ofLine, single?_renumber, labelled?_renumber, ← Option.map_or]
  cases (single? line).or (labelled? line) <;> rfl

theorem ofLines_renumber (lines : List Line) :
    ofLines (lines.map (Line.renumber f)) =
      ((ofLines lines).map (List.map (Slot.renumber f))).mapError (Fault.renumber f) := by
  induction lines with
  | nil => rfl
  | cons line lines ih =>
    rw [List.map_cons, ofLines_cons, ofLines_cons, ofLine_renumber, ih]
    cases ofLine line with
    | error fault => rfl
    | ok first =>
      cases ofLines lines with
      | error fault => rfl
      | ok others => simp [bind, Except.bind, pure, Except.pure, Except.map]

end Slot

/-! ## Labels -/

namespace Labels

@[simp] theorem find?_renumber (labels : Labels) (name : Text) :
    (labels.renumber f).find? name = (labels.find? name).map (Declaration.renumber f) :=
  List.find?_map

/-- **A name stands for the same slot**, whatever the line numbers are. -/
@[simp] theorem slot?_renumber (labels : Labels) (name : Text) :
    (labels.renumber f).slot? name = labels.slot? name := by
  rw [slot?, slot?, find?_renumber, Option.map_map]
  rfl

@[simp] theorem size_renumber (labels : Labels) : (labels.renumber f).size = labels.size :=
  List.length_map _

theorem declare_renumber (labels : Labels) (d : Declaration) :
    (labels.renumber f).declare (d.renumber f) =
      ((labels.declare d).map (Labels.renumber f)).mapError (Fault.renumber f) := by
  have hfind : (labels.renumber f).find? (d.renumber f).name =
      (labels.find? d.name).map (Declaration.renumber f) := find?_renumber labels d.name
  rw [declare, declare, hfind]
  cases labels.find? d.name <;> rfl

/-- Slots with other line numbers declare the same names. -/
theorem resolve_renumber (labels : Labels) (slots : List (Slot × Nat)) :
    (labels.renumber f).resolve (slots.map (Prod.map (Slot.renumber f) id)) =
      Labels.renumber f <$> (labels.resolve slots).renumber f := by
  induction slots generalizing labels with
  | nil => rfl
  | cons e slots ih =>
    obtain ⟨⟨line, text, i⟩, place⟩ := e
    simp only [List.map_cons, Prod.map_apply, id, Slot.renumber, resolve]
    split
    · -- the name or its declaration is a fault, or resolving goes on
      cases hname : i.captures.label 0 with
      | error fault =>
        obtain ⟨-, rfl⟩ := Captures.field_eq_error_iff.1 hname
        rfl
      | ok name =>
        have hdeclare := @declare_renumber f labels ⟨name, place, line⟩
        simp only [Declaration.renumber] at hdeclare
        simp only [Report.lift_ok, pure_bind, hdeclare]
        cases labels.declare ⟨name, place, line⟩ with
        | error fault => rfl
        | ok labels' =>
          simp only [Except.map, Fault.mapError_ok, Report.lift_ok, pure_bind, Report.renumber_bind,
            Report.renumber_note, map_bind, ih labels']
          rfl
    · exact ih labels

end Labels

/-! ## Programs -/

namespace Program

@[simp] theorem size_renumber (program : Program) : (program.renumber f).size = program.size :=
  Array.size_map

/-- **Lines with other numbers load to the same program**, or the same fault,
with these numbers. -/
theorem ofLines_renumber (lines : List Line) :
    ofLines (lines.map (Line.renumber f)) = (Program.renumber f <$> ofLines lines).renumber f := by
  cases lines with
  | nil => rfl
  | cons first rest =>
    cases himage : Memory.ofText? first.text with
    | none =>
      simp only [List.map_cons, ofLines, himage, Line.renumber]
      rfl
    | some image =>
      have himage' : Memory.ofText? (first.renumber f).text = some image := himage
      rw [List.map_cons, ofLines_cons himage', ofLines_cons himage, Slot.ofLines_renumber]
      cases Slot.ofLines rest with
      | error fault => rfl
      | ok slots =>
        have hresolve := @Labels.resolve_renumber f {} slots.zipIdx
        have hplaced : slots.zipIdx.map (Prod.map (Slot.renumber f) id) =
            (slots.map (Slot.renumber f)).zipIdx := (List.zipIdx_map ..).symm
        have hempty : Labels.renumber f {} = {} := rfl
        rw [hplaced, hempty] at hresolve
        simp only [Except.map, Fault.mapError_ok, Report.lift_ok, pure_bind, hresolve, map_bind,
          map_pure, bind_map_left, Report.renumber_bind, Report.renumber_note, Report.renumber_pure,
          List.length_map, Labels.size_renumber, renumber, List.map_toArray]
        rfl

end Program

end TeachAsm
