import TeachAsm.Proofs.Instruction.Priority
import TeachAsm.Proofs.Template.Completeness
/-!
# Instructions and their canonical lines

An instruction that a line can hold has captures of the kinds that its form asks for,
immediate values that are not negative, and labels that are names
(`Instruction.Expressible`). Its canonical line is the form with each placeholder
filled in, and is one of the form's texts (`Template.spells_fill`); so its opcode reads
it, and the one thing to be feared is that another opcode is tried first. Only a
conditional branch could be: but its letters go on where the plain branch has its
blank, whatever the label is called. Hence writing and decoding come back to the same
instruction (`Instruction.decoded_text`).
-/

namespace TeachAsm

/-! ## What can be written -/

/-- **A capture that some text stands for**: an immediate value that is not negative, a
label that is a name, and any register and any address. -/
def Capture.Expressible : Capture → Prop
  | register _ | address _ | operand (.register _) => True
  | operand (.immediate w) => 0 ≤ w.toInt
  | label name => Text.IsName name

/-- **An instruction that some line holds**: one capture for each operand of its opcode,
of its kind, and each one with a text. -/
structure Instruction.Expressible (i : Instruction) : Prop where
  kinds_eq : i.captures.map Capture.placeholder = i.opcode.operands
  expressible : ∀ capture ∈ i.captures, capture.Expressible

theorem Decimal.isNumeral_ofNat (n : Nat) : IsNumeral (ofNat n) :=
  ⟨ofNat_ne_nil, fun _ hc => isDigit_of_mem_ofNat hc⟩

/-- **A capture is what its canonical text stands for.** -/
theorem Capture.spells_text {capture : Capture} (h : capture.Expressible) :
    capture.placeholder.Spells capture.text capture := by
  have register (r : Register) : Decimal.value (Decimal.ofNat r.toNat) < UInt32.size := by
    rw [Decimal.value_ofNat]
    exact r.toNat_lt
  cases capture with
  | register r =>
    have hspells := Placeholder.Spells.register (Decimal.isNumeral_ofNat r.toNat) (register r)
    rwa [Decimal.value_ofNat, UInt32.ofNat_toNat] at hspells
  | address a =>
    have hv : Decimal.value (Decimal.ofNat a.toNat) < UInt64.size := by
      rw [Decimal.value_ofNat]
      exact a.toNat_lt
    have hspells := Placeholder.Spells.memory (Decimal.isNumeral_ofNat a.toNat) hv
    rwa [Decimal.value_ofNat, UInt64.ofNat_toNat] at hspells
  | operand o =>
    cases o with
    | register r =>
      have hspells :=
        Placeholder.Spells.operandRegister (Decimal.isNumeral_ofNat r.toNat) (register r)
      rwa [Decimal.value_ofNat, UInt32.ofNat_toNat] at hspells
    | immediate w =>
      obtain ⟨n, hn⟩ := Int.eq_ofNat_of_zero_le h
      have hlt : n < Word.bound := by
        have := Int32.toInt_lt w
        rw [Word.bound]
        omega
      have hw : w = Int32.ofNat n := by
        refine Int32.toInt_inj.1 ?_
        rw [Int32.toInt_ofNat_of_lt hlt, hn]
      have htext : w.decimal = Decimal.ofNat n := by
        rw [Word.decimal, hn]
        rfl
      have hspells := Placeholder.Spells.operandImmediate (Decimal.isNumeral_ofNat n)
        (by rwa [Decimal.value_ofNat])
      rw [Decimal.value_ofNat, ← hw, ← htext] at hspells
      exact hspells
  | label name => exact .label h

/-- And a text stands for nothing else. -/
theorem Placeholder.Spells.expressible {p : Placeholder} {t : Text} {capture : Capture}
    (h : p.Spells t capture) : capture.Expressible := by
  cases h with
  | register | memory | operandRegister => trivial
  | operandImmediate _ hv =>
    rw [Capture.Expressible, Int32.toInt_ofNat_of_lt hv]
    exact Int.natCast_nonneg _
  | label hn => exact hn

namespace Template

variable {template : Template} {t : Text} {captures : Captures}

/-- **A form that is filled in is one of its texts**, with the captures it is filled
with. -/
theorem spells_fill (hgenuine : ∀ piece ∈ template, piece.Genuine)
    (hkinds : captures.map Capture.placeholder = template.holes)
    (hfits : ∀ capture ∈ captures, capture.Expressible) :
    template.Spells (template.fill captures) captures := by
  induction template generalizing captures with
  | nil =>
    obtain rfl := List.map_eq_nil_iff.1 hkinds
    exact .nil
  | cons piece pieces ih =>
    obtain ⟨hpiece, hpieces⟩ := List.forall_mem_cons.1 hgenuine
    cases piece with
    | literal c => exact .cons (.literal c) (ih hpieces hkinds hfits)
    | blank c => exact .cons (.blank c hpiece) (ih hpieces hkinds hfits)
    | hole p =>
      obtain ⟨capture, others, rfl, rfl, hothers⟩ := List.map_eq_cons_iff.1 hkinds
      obtain ⟨hcapture, hfits⟩ := List.forall_mem_cons.1 hfits
      exact .cons (.hole (Capture.spells_text hcapture)) (ih hpieces hothers hfits)

/-- The captures of a text are expressible. -/
theorem Spells.expressible (h : template.Spells t captures) :
    ∀ capture ∈ captures, capture.Expressible := by
  induction h with
  | nil => simp
  | cons hpiece _ ih =>
    intro capture hmem
    rcases List.mem_append.1 hmem with hmem | hmem
    · cases hpiece with
      | hole hbody =>
        obtain rfl := List.mem_singleton.1 hmem
        exact hbody.expressible
      | literal | blank | noBlank => cases hmem
    · exact ih capture hmem

end Template

namespace Instruction

variable {i : Instruction} {line : Text}

/-! ## Writing and decoding -/

/-- The opcode of an instruction reads its canonical line. -/
theorem Expressible.whole?_text (h : i.Expressible) :
    i.opcode.template.whole? i.text = some i.captures := by
  have hkinds : i.captures.map Capture.placeholder = i.opcode.template.holes :=
    h.kinds_eq.trans i.opcode.holes_template.symm
  exact Opcode.whole?_eq_some_iff_spells.2
    (Template.spells_fill Template.genuine_of_mem_compile hkinds h.expressible)

/-- **No conditional branch reads the canonical line of a plain one**: its letters do not
go on with a blank. -/
theorem whole?_text_always {condition : Condition} (hne : condition ≠ .always) (name : Text) :
    (Opcode.branch condition).template.whole? (text ⟨.branch .always, [.label name]⟩) = none := by
  have htext : text ⟨.branch .always, [.label name]⟩ = 'B' :: ' ' :: name := by
    simp [text, Opcode.template_branch, Opcode.mnemonic, Template.fill, Capture.text]
  cases hread : (Opcode.branch condition).template.whole? (text ⟨.branch .always, [.label name]⟩)
  with
  | none => rfl
  | some captures =>
    obtain ⟨letters, hmnemonic, ⟨hletters, hword⟩, -⟩ := exists_mnemonic_eq_cons hne
    obtain ⟨c, others, rfl⟩ := List.exists_cons_of_ne_nil hletters
    have hprefix := Opcode.mnemonic_isPrefix_of_whole? hread
    rw [hmnemonic, htext] at hprefix
    obtain rfl : c = ' ' := (List.cons_prefix_cons.1 (List.cons_prefix_cons.1 hprefix).2).1
    exact absurd (hword ' ' List.mem_cons_self) (by decide)

/-- **What is written is decoded.** -/
theorem Expressible.ofText?_text (h : i.Expressible) : ofText? i.text = some i := by
  obtain ⟨op, captures⟩ := i
  refine ofText?_eq_some_iff.2 ⟨h.whole?_text, forall_shadows_iff.2 ?_⟩
  by_cases hop : op = .branch .always
  · subst hop
    have hshaped := shaped_of_map_placeholder h.kinds_eq
    cases hshaped with
    | branch _ name => exact .inr fun condition hne => whole?_text_always hne name
  · exact .inl hop

/-- **What is decoded can be written.** -/
theorem expressible_of_ofText? (h : ofText? line = some i) : i.Expressible where
  kinds_eq := map_placeholder_of_ofText? h
  expressible := (spells_of_ofText? h).expressible

/-- **Decoding takes back writing.** The canonical line of an instruction that can be
written decodes to this instruction. The other way round, what any line decodes to
can be written, and its canonical line, which may be another one, decodes to the
same. -/
theorem decoded_text :
    (∀ i : Instruction, i.Expressible → ofText? i.text = some i) ∧
      (∀ (line : Text) (i : Instruction), ofText? line = some i →
        i.Expressible ∧ ofText? i.text = some i) :=
  ⟨fun _ h => h.ofText?_text, fun _ _ h =>
    ⟨expressible_of_ofText? h, (expressible_of_ofText? h).ofText?_text⟩⟩

/-- A plain branch to a label that begins like a condition, the largest register with the
largest address, and a line that is not canonical. -/
theorem decoded_text_extremes :
    let jump : Instruction := ⟨.branch .always, [.label "EQdone".toList]⟩
    let store : Instruction := ⟨.store, [.register 4294967295, .address 18446744073709551615]⟩
    let copy : Instruction := ⟨.copy, [.register 7, .operand (.immediate 2147483647)]⟩
    jump.Expressible ∧ ofText? "B EQdone".toList = some jump ∧
      store.Expressible ∧ ofText? "STR R4294967295, 18446744073709551615".toList = some store ∧
      ofText? "MOVR007,#2147483647".toList = some copy ∧ copy.Expressible ∧
      ofText? "MOV R7, #2147483647".toList = some copy := by
  intro jump store copy
  obtain ⟨hwritten, hdecoded⟩ := decoded_text
  have hjump : jump.Expressible :=
    ⟨rfl, List.forall_mem_singleton.2 ⟨by decide, List.all_eq_true.1 rfl⟩⟩
  have hstore : store.Expressible :=
    ⟨rfl, List.forall_mem_cons.2 ⟨trivial, List.forall_mem_singleton.2 trivial⟩⟩
  have hjumpText : jump.text = "B EQdone".toList := by decide +kernel
  have hstoreText : store.text = "STR R4294967295, 18446744073709551615".toList := by
    decide +kernel
  have hcopyText : copy.text = "MOV R7, #2147483647".toList := by decide +kernel
  have hread : ofText? "MOVR007,#2147483647".toList = some copy := by decide +kernel
  obtain ⟨hcopy, hagain⟩ := hdecoded _ copy hread
  exact ⟨hjump, hjumpText ▸ hwritten jump hjump, hstore, hstoreText ▸ hwritten store hstore,
    hread, hcopy, hcopyText ▸ hagain⟩

end Instruction

end TeachAsm
