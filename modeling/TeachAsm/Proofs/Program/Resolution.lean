import TeachAsm.Proofs.Program.Loading
/-!
# Resolution is exact

The labels of a program are made from its slots once, before anything is
executed, and afterwards they are all that a branch knows of the slots.
`Program.Resolved` says that nothing is lost by that: a name stands for the slot
that declares it and for no other, and there are as many labels as slots that
declare one. Every program that has been loaded is `Resolved`
(`resolved_of_ofSource`), and the slot of a label is counted in slots, not in
lines: in front of it are all the slots of the lines above, and the slots in
front of it on its own line.
-/

namespace TeachAsm

/-- **Labels that resolve exactly** to the slots that declare them. -/
structure Program.Resolved (program : Program) : Prop where
  /-- A name stands for a slot just when the slot declares it. -/
  slot?_eq_some_iff : ∀ name place, program.labels.slot? name = some place ↔
    ∃ slot, program.slots[place]? = some slot ∧ slot.instruction = ⟨.label, [.label name]⟩
  /-- A slot of a label declares a name. -/
  exists_name : ∀ slot ∈ program.slots, slot.instruction.opcode = .label →
    ∃ name, slot.instruction = ⟨.label, [.label name]⟩
  /-- No two slots declare the same name. -/
  unique : ∀ name (place other : Nat) (slot slot' : Slot), program.slots[place]? = some slot →
    program.slots[other]? = some slot' → slot.instruction = ⟨.label, [.label name]⟩ →
      slot'.instruction = ⟨.label, [.label name]⟩ → place = other
  /-- There is one label for each slot that declares one. -/
  size_eq : program.labels.size =
    program.slots.countP fun slot => slot.instruction.opcode = .label
  /-- A name stands for a slot of the program. -/
  lt_size : ∀ name place, program.labels.slot? name = some place → place < program.size

/-! ## Counting declarations -/

/-- The instructions that declare a name are the labels. -/
theorem Instruction.Shaped.isSome_declares? {i : Instruction} (h : i.Shaped) :
    i.declares?.isSome = decide (i.opcode = .label) := by
  cases h <;> rfl

/-- The opcode of a label stands in front of a name and nothing else. -/
theorem Instruction.Shaped.exists_name {i : Instruction} (h : i.Shaped) (hop : i.opcode = .label) :
    ∃ name, i = ⟨.label, [.label name]⟩ := by
  have hsome : i.declares?.isSome := by rw [h.isSome_declares?, hop, decide_eq_true rfl]
  obtain ⟨name, hname⟩ := Option.isSome_iff_exists.1 hsome
  exact ⟨name, h.declares?_eq_some_iff.1 hname⟩

theorem Slot.length_names {slots : List Slot} (h : ∀ slot ∈ slots, slot.instruction.Shaped) :
    (Slot.names slots).length = slots.countP fun slot => slot.instruction.opcode = .label := by
  rw [Slot.names, List.length_filterMap_eq_countP]
  refine List.countP_congr fun slot hslot => ?_
  rw [Slot.declares?, (h slot hslot).isSome_declares?]

theorem Labels.size_ofSlots (slots : List Slot) :
    (Labels.ofSlots slots).size = (Slot.names slots).length := by
  rw [← Labels.map_name_declared_zipIdx, List.length_map]
  exact List.length_reverse

namespace Program

variable {program : Program} {source : Text}

/-! ## Counting slots -/

/-- A slot of a line is found behind the slots of the lines above. -/
theorem getElem?_flatten {before after : List (List Slot)} {slots : List Slot} {k : Nat}
    {slot : Slot} (hslot : slots[k]? = some slot) :
    (before ++ slots :: after).flatten[before.flatten.length + k]? = some slot := by
  have hk : k < slots.length := (List.getElem?_eq_some_iff.1 hslot).1
  rw [List.flatten_append, List.flatten_cons, List.getElem?_append_right (Nat.le_add_right _ _),
    Nat.add_sub_cancel_left, List.getElem?_append_left hk, hslot]

/-! ## Resolution -/

/-- **A program that has been loaded resolves its labels exactly.** -/
theorem resolved_of_ofSource (hload : (ofSource source).result = .ok program) :
    program.Resolved := by
  have hwf := wellFormed_of_ofSource hload
  obtain ⟨_, _, parts, -, -, hparts, -, hslots, hlabels⟩ :=
    (result_ofLines_eq_iff.1 hload).exists_parts
  have hshaped : ∀ slot ∈ parts.flatten, slot.instruction.Shaped := shaped_of_forms hparts
  refine ⟨fun name place => hwf.slot?_eq_some_iff_label, fun slot hslot => ?_,
    fun name place other slot slot' hslot hslot' hname hname' => ?_, ?_, fun name place h => ?_⟩
  · exact (hwf.shaped slot hslot).exists_name
  · -- the name stands for both places
    have hplace := hwf.slot?_eq_some_iff_label.2 ⟨slot, hslot, hname⟩
    have hother := hwf.slot?_eq_some_iff_label.2 ⟨slot', hslot', hname'⟩
    exact Option.some.inj (hplace.symm.trans hother)
  · rw [hlabels, hslots, Labels.size_ofSlots, Slot.length_names hshaped, List.countP_toArray]
  · obtain ⟨slot, hslot, -⟩ := hwf.slot?_eq_some_iff.1 h
    exact (Array.getElem?_eq_some_iff.1 hslot).1

/-- **Labels resolve exactly to slots.** In a program that has been loaded a name
stands for the one slot that declares it. No two slots declare the same name,
there are as many labels as slots that declare one, and they stand for slots of
the program. A declaration is counted like any other slot, alone on its line or
in front of an instruction: a label stands for the slot that has before it all
slots of the lines above, and those of its own line that come first. -/
theorem ofSource_resolves_exactly (hload : (ofSource source).result = .ok program) :
    program.Resolved ∧
      ∃ first rest parts, Line.ofSource source = first :: rest ∧
        List.Forall₂ Slot.Forms rest parts ∧ program.slots.toList = parts.flatten ∧
        ∀ before slots after k slot name, parts = before ++ slots :: after →
          slots[k]? = some slot → slot.instruction = ⟨.label, [.label name]⟩ →
            program.labels.slot? name = some (before.flatten.length + k) := by
  have hresolved := resolved_of_ofSource hload
  obtain ⟨first, rest, parts, hlines, -, hparts, -, hslots, -⟩ :=
    (result_ofLines_eq_iff.1 hload).exists_parts
  refine ⟨hresolved, first, rest, parts, hlines, hparts, by rw [hslots],
    fun before slots after k slot name hcut hslot hname => ?_⟩
  have hplace : program.slots[before.flatten.length + k]? = some slot := by
    rw [hslots, List.getElem?_toArray, hcut]
    exact getElem?_flatten hslot
  exact (hresolved.slot?_eq_some_iff _ _).2 ⟨slot, hplace, hname⟩

/-- A line that declares two labels, and a label named like an opcode in front of an
instruction: five slots on three lines, and three labels. -/
theorem ofSource_resolves_exactly_opcode_name :
    let source := "[0]\na: b:\nB HALT\nHALT: HALT".toList
    let program : Program :=
      { image := ⟨#[0]⟩
        slots := #[⟨2, "a:".toList, ⟨.label, [.label "a".toList]⟩⟩,
          ⟨2, "b:".toList, ⟨.label, [.label "b".toList]⟩⟩,
          ⟨3, "B HALT".toList, ⟨.branch .always, [.label "HALT".toList]⟩⟩,
          ⟨4, "HALT:".toList, ⟨.label, [.label "HALT".toList]⟩⟩,
          ⟨4, "HALT".toList, ⟨.halt, []⟩⟩]
        labels := ⟨[⟨"HALT".toList, 3, 4⟩, ⟨"b".toList, 1, 2⟩, ⟨"a".toList, 0, 2⟩]⟩ }
    (ofSource source).result = .ok program ∧ program.Resolved ∧ program.labels.size = 3 ∧
      program.labels.slot? "b".toList = some 1 ∧ program.labels.slot? "HALT".toList = some 3 := by
  intro source program
  have hload : (ofSource source).result = .ok program := by decide +kernel
  obtain ⟨hresolved, -⟩ := ofSource_resolves_exactly hload
  refine ⟨hload, hresolved, hresolved.size_eq.trans (by decide +kernel), ?_, ?_⟩
  · exact (hresolved.slot?_eq_some_iff _ _).2 ⟨_, rfl, rfl⟩
  · exact (hresolved.slot?_eq_some_iff _ _).2 ⟨_, rfl, rfl⟩

end Program

end TeachAsm
