import TeachAsm.Proofs.Program.Loading
/-!
# What loading logs

The log of a load says how far it has come. Nothing is logged until there is an image,
no label is resolved until all lines have been read, and the labels are resolved in the
order of their slots, up to the first that has been declared before. Only when there is
a program it is logged that it is loaded. `Program.LoadLog` has a case for each outcome
of loading, with what is then in the log.
-/

namespace TeachAsm

/-- One event for each of some placed slots that declares a label, with its name and its
place. -/
def Slot.resolved (slots : List (Slot × Nat)) : List Event :=
  slots.filterMap fun (slot, place) => slot.declares?.map (.labelResolved · place)

/-! ## Resolving -/

namespace Labels

/-- Slots may be resolved in two parts, the second of which follows if the first has
gone well. -/
theorem resolve_append (labels : Labels) (before after : List (Slot × Nat)) :
    labels.resolve (before ++ after) = labels.resolve before >>= (resolve · after) := by
  induction before generalizing labels with
  | nil => exact (pure_bind labels (resolve · after)).symm
  | cons e before ih =>
    simp only [List.cons_append, resolve, ih]
    split
    · simp only [bind_assoc]
    · rfl

/-- **Slots that are resolved are logged**, each that declares a label. -/
theorem events_resolve_of_ok {labels labels' : Labels} {slots : List (Slot × Nat)}
    (hshape : ∀ e ∈ slots, e.1.instruction.Shaped)
    (h : (labels.resolve slots).result = .ok labels') :
    (labels.resolve slots).events = Slot.resolved slots := by
  -- only the shape of a declaration declares, the other shapes are passed over
  induction slots generalizing labels with
  | nil => rfl
  | cons e slots ih =>
    obtain ⟨⟨line, text, i⟩, place⟩ := e
    have ih := fun labels h => @ih labels (fun e he => hshape e (List.mem_cons_of_mem _ he)) h
    have hfirst : i.Shaped := hshape _ List.mem_cons_self
    cases hfirst with
    | label name =>
      have hresolved : Slot.resolved ((⟨line, text, ⟨.label, [.label name]⟩⟩, place) :: slots) =
          .labelResolved name place :: Slot.resolved slots := rfl
      simp only [resolve, Opcode.declaresLabel, Captures.label, Captures.field, Capture.label?,
        List.getElem?_cons_zero, Option.bind_some, Report.lift_ok, pure_bind, beq_self_eq_true,
        if_true] at h ⊢
      cases hdeclare : labels.declare ⟨name, place, line⟩ with
      | error fault =>
        rw [hdeclare] at h
        cases h
      | ok next =>
        rw [hdeclare, Report.lift_ok, pure_bind, Report.note_bind] at h
        rw [hresolved, Report.lift_ok, pure_bind, Report.note_bind, ← ih next h]
        rfl
    | _ => exact ih labels h

variable {slots : List Slot} {earlier later : Slot} {name : Text}

/-- **Up to the first slot that declares a name again** the slots are logged, and
nothing after them. -/
theorem events_resolve_of_redeclared (hshape : ∀ slot ∈ slots, slot.instruction.Shaped)
    {i j : Nat} (h : Slot.Redeclared slots i j earlier later name) :
    (resolve {} slots.zipIdx).events = Slot.resolved (slots.take j).zipIdx := by
  obtain ⟨before, after, rfl, rfl, hnodup, hmem⟩ := h.exists_append
  have hfront : ∀ slot ∈ before, slot.instruction.Shaped := fun slot hslot =>
    hshape slot (List.mem_append_left _ hslot)
  have hplaced : ∀ e ∈ before.zipIdx, e.1.instruction.Shaped := fun e he =>
    hfront _ (List.fst_mem_of_mem_zipIdx he)
  have hok := result_resolve_of_nodup hfront hnodup
  -- the slot that declares the name again is refused before it is logged
  have hdeclare := @declare_ofSlots_of_mem _ _ hnodup hmem ⟨name, before.length, later.line⟩
    h.earlier_declares
  have hlater : later.instruction = ⟨.label, [.label name]⟩ :=
    (hshape later (by simp)).declares?_eq_some_iff.1 h.later_declares
  have hnone : (resolve (ofSlots before)
      ((later :: after).zipIdx before.length)).events = [] := by
    simp only [List.zipIdx_cons, resolve, hlater, Opcode.declaresLabel, Captures.label,
      Captures.field, Capture.label?, List.getElem?_cons_zero, Option.bind_some, Report.lift_ok,
      pure_bind, beq_self_eq_true, if_true, hdeclare]
    rfl
  rw [List.take_left, List.zipIdx_append, resolve_append, Report.bind_of_ok hok,
    events_resolve_of_ok hplaced hok, Nat.zero_add, hnone, List.append_nil]

end Labels

/-! ## Loading -/

namespace Program

/-- **What loading lines of code logs**, by what it comes to. -/
inductive LoadLog : List Line → Except Fault Program → List Event → Prop
  | missingImage : LoadLog [] (.error .missingImage) []
  | malformedImage {first : Line} {rest : List Line}
      (himage : Memory.ofText? first.text = none) :
      LoadLog (first :: rest) (.error (.malformedImage first.number)) []
  | unknownInstruction {first line : Line} {rest : List Line} {image : Memory}
      (himage : Memory.ofText? first.text = some image) (hline : line ∈ rest) :
      LoadLog (first :: rest) (.error (.unknownInstruction line.number line.text))
        [.imageParsed image.size]
  | duplicateLabel {first : Line} {rest : List Line} {image : Memory} {parts : List (List Slot)}
      {i j : Nat} {earlier later : Slot} {name : Text}
      (himage : Memory.ofText? first.text = some image)
      (hparts : List.Forall₂ Slot.Forms rest parts)
      (hre : Slot.Redeclared parts.flatten i j earlier later name) :
      LoadLog (first :: rest) (.error (.duplicateLabel name earlier.line later.line))
        (.imageParsed image.size :: Slot.resolved (parts.flatten.take j).zipIdx)
  | program {first : Line} {rest : List Line} {program : Program}
      (himage : Memory.ofText? first.text = some program.image) :
      LoadLog (first :: rest) (.ok program)
        (.imageParsed program.image.size :: Slot.resolved program.slots.toList.zipIdx ++
          [.programLoaded program.size program.labels.size])

variable {first : Line} {rest : List Line} {image : Memory} {parts : List (List Slot)}

theorem events_ofLines_of_forms (himage : Memory.ofText? first.text = some image)
    (hparts : List.Forall₂ Slot.Forms rest parts) :
    (ofLines (first :: rest)).events =
      .imageParsed image.size :: (do
        let labels ← Labels.resolve {} parts.flatten.zipIdx
        Report.note [.programLoaded parts.flatten.length labels.size]).events := by
  rw [ofLines_cons himage, Report.note_bind, Slot.ofLines_eq_ok_iff.2 ⟨parts, hparts, rfl⟩,
    Report.lift_ok, pure_bind]
  rcases hresolve : (Labels.resolve {} parts.flatten.zipIdx).result with fault | labels
  · rw [Report.bind_of_error hresolve, Report.bind_of_error hresolve]
    rfl
  · rw [Report.bind_of_ok hresolve, Report.bind_of_ok hresolve]
    rfl

/-- **The log of a load.** -/
theorem loadLog_ofLines (lines : List Line) :
    LoadLog lines (ofLines lines).result (ofLines lines).events := by
  obtain ⟨result, hloads⟩ := exists_loads lines
  rw [hloads.result_ofLines]
  cases hloads with
  | missingImage => exact .missingImage
  | @malformedImage first rest himage =>
    have hevents : (ofLines (first :: rest)).events = [] := by
      simp only [ofLines, himage]
      rfl
    rw [hevents]
    exact .malformedImage himage
  | @unknownInstruction first line before after image himage hbefore hline =>
    have hevents : (ofLines (first :: (before ++ line :: after))).events =
        [.imageParsed image.size] := by
      rw [ofLines_cons himage,
        Slot.ofLines_eq_error_iff.2 ⟨_, _, _, rfl, hbefore, hline, rfl⟩]
      rfl
    rw [hevents]
    exact .unknownInstruction himage (by simp)
  | @duplicateLabel first rest image parts i j earlier later name himage hparts hre =>
    have hshape := shaped_of_forms hparts
    have hevents : (ofLines (first :: rest)).events =
        .imageParsed image.size :: Slot.resolved (parts.flatten.take j).zipIdx := by
      rw [events_ofLines_of_forms himage hparts,
        Report.bind_of_error (Labels.result_resolve_of_redeclared hshape hre),
        ← Labels.events_resolve_of_redeclared hshape hre]
    rw [hevents]
    exact .duplicateLabel himage hparts hre
  | @program first rest image parts himage hparts hnodup =>
    have hshape := shaped_of_forms hparts
    have hplaced : ∀ e ∈ parts.flatten.zipIdx, e.1.instruction.Shaped := fun e he =>
      hshape _ (List.fst_mem_of_mem_zipIdx he)
    have hok := Labels.result_resolve_of_nodup hshape hnodup
    have hevents : (ofLines (first :: rest)).events =
        .imageParsed image.size :: Slot.resolved parts.flatten.zipIdx ++
          [.programLoaded parts.flatten.length (Labels.ofSlots parts.flatten).size] := by
      rw [events_ofLines_of_forms himage hparts, Report.bind_of_ok hok,
        Labels.events_resolve_of_ok hplaced hok]
      rfl
    rw [hevents]
    exact .program himage

end Program

end TeachAsm
