import TeachAsm.Instruction.Basic
import TeachAsm.Proofs.Template.Language
import TeachAsm.Proofs.Text.Line
/-!
# What lines decode to

A decoded instruction has the captures that its opcode's form asks for, in
number and in kind: it is `Shaped`, and this is all that executing it needs to
know of the line it comes from. Of the line itself the loader uses two facts:
it does not begin with a blank (`exists_cons_of_ofText?`), and it holds a colon
only when it declares a label and ends there (`eq_label_of_colon_mem`), since
no other form has a place for one. A line that decodes is its own code when it
is written again (`isPlain_of_ofText?`): it holds no comment, and has no blank
at its ends.
-/

namespace TeachAsm

namespace Capture

@[simp] theorem placeholder_eq_register_iff {c : Capture} :
    c.placeholder = .register ↔ ∃ r, c = .register r := by
  cases c <;> simp [placeholder]

@[simp] theorem placeholder_eq_memory_iff {c : Capture} :
    c.placeholder = .memory ↔ ∃ a, c = .address a := by
  cases c <;> simp [placeholder]

@[simp] theorem placeholder_eq_operand_iff {c : Capture} :
    c.placeholder = .operand ↔ ∃ o, c = .operand o := by
  cases c <;> simp [placeholder]

@[simp] theorem placeholder_eq_label_iff {c : Capture} :
    c.placeholder = .label ↔ ∃ name, c = .label name := by
  cases c <;> simp [placeholder]

end Capture

/-! ## The forms -/

namespace Opcode

/-- What the lines of an opcode capture. -/
def operands : Opcode → List Placeholder
  | load | store => [.register, .memory]
  | compute _ => [.register, .register, .operand]
  | copy | complement | compare => [.register, .operand]
  | branch _ | label => [.label]
  | halt => []

/-- The holes of a form are the operands of its opcode. -/
theorem holes_template (op : Opcode) : op.template.holes = op.operands := by
  have h : ∀ op ∈ all, op.template.holes = op.operands := by decide +kernel
  exact h op (mem_all op)

/-- The template of a declaration. -/
theorem template_label : label.template = [.hole .label, .literal ':'] := by
  decide +kernel

/-- No form begins with a blank. -/
theorem opens_template (op : Opcode) : op.template.head?.any Piece.opens := by
  have h : ∀ op ∈ all, op.template.head?.any Piece.opens := by decide +kernel
  exact h op (mem_all op)

/-- And none ends with one. -/
theorem closes_template (op : Opcode) : op.template.getLast?.any Piece.opens := by
  have h : ∀ op ∈ all, op.template.getLast?.any Piece.opens := by decide +kernel
  exact h op (mem_all op)

/-- No form has a place for a slash. -/
theorem takes_slash_eq_false {op : Opcode} {piece : Piece} (hp : piece ∈ op.template) :
    piece.takes '/' = false := by
  have h : ∀ op ∈ all, ∀ piece ∈ op.template, piece.takes '/' = false := by decide +kernel
  exact h op (mem_all op) piece hp

/-- **Only a declaration has a place for a colon.** -/
theorem takes_colon_eq_false {op : Opcode} (hop : op ≠ label) {piece : Piece}
    (hp : piece ∈ op.template) : piece.takes ':' = false := by
  have h : ∀ op ∈ all, op ≠ label → ∀ piece ∈ op.template, piece.takes ':' = false := by
    decide +kernel
  exact h op (mem_all op) hop piece hp

end Opcode

namespace Instruction

/-! ## The shape of an instruction -/

/-- The instructions that lines decode to: an opcode with captures of the kinds
its form asks for. -/
inductive Shaped : Instruction → Prop
  | load (d : Register) (a : Address) : Shaped ⟨.load, [.register d, .address a]⟩
  | store (s : Register) (a : Address) : Shaped ⟨.store, [.register s, .address a]⟩
  | compute (operation : Operation) (d n : Register) (o : Operand) :
      Shaped ⟨.compute operation, [.register d, .register n, .operand o]⟩
  | copy (d : Register) (o : Operand) : Shaped ⟨.copy, [.register d, .operand o]⟩
  | complement (d : Register) (o : Operand) : Shaped ⟨.complement, [.register d, .operand o]⟩
  | compare (n : Register) (o : Operand) : Shaped ⟨.compare, [.register n, .operand o]⟩
  | branch (condition : Condition) (name : Text) : Shaped ⟨.branch condition, [.label name]⟩
  | halt : Shaped ⟨.halt, []⟩
  | label (name : Text) : Shaped ⟨.label, [.label name]⟩

/-- Captures of the right kinds make an instruction shaped. -/
theorem shaped_of_map_placeholder {i : Instruction}
    (h : i.captures.map Capture.placeholder = i.opcode.operands) : i.Shaped := by
  obtain ⟨op, captures⟩ := i
  -- the kinds fix the number of captures, and each kind fixes a capture
  cases op <;>
    simp only [Opcode.operands, List.map_eq_cons_iff, List.map_eq_nil_iff,
      Capture.placeholder_eq_register_iff, Capture.placeholder_eq_memory_iff,
      Capture.placeholder_eq_operand_iff, Capture.placeholder_eq_label_iff] at h
  case load =>
    obtain ⟨_, _, rfl, ⟨d, rfl⟩, _, _, rfl, ⟨a, rfl⟩, rfl⟩ := h
    exact .load d a
  case store =>
    obtain ⟨_, _, rfl, ⟨s, rfl⟩, _, _, rfl, ⟨a, rfl⟩, rfl⟩ := h
    exact .store s a
  case compute operation =>
    obtain ⟨_, _, rfl, ⟨d, rfl⟩, _, _, rfl, ⟨n, rfl⟩, _, _, rfl, ⟨o, rfl⟩, rfl⟩ := h
    exact .compute operation d n o
  case copy =>
    obtain ⟨_, _, rfl, ⟨d, rfl⟩, _, _, rfl, ⟨o, rfl⟩, rfl⟩ := h
    exact .copy d o
  case complement =>
    obtain ⟨_, _, rfl, ⟨d, rfl⟩, _, _, rfl, ⟨o, rfl⟩, rfl⟩ := h
    exact .complement d o
  case compare =>
    obtain ⟨_, _, rfl, ⟨n, rfl⟩, _, _, rfl, ⟨o, rfl⟩, rfl⟩ := h
    exact .compare n o
  case branch condition =>
    obtain ⟨_, _, rfl, ⟨name, rfl⟩, rfl⟩ := h
    exact .branch condition name
  case halt =>
    subst h
    exact .halt
  case label =>
    obtain ⟨_, _, rfl, ⟨name, rfl⟩, rfl⟩ := h
    exact .label name

/-- What a line decodes to has a capture for each operand of its opcode. -/
theorem map_placeholder_of_ofText? {t : Text} {i : Instruction} (h : ofText? t = some i) :
    i.captures.map Capture.placeholder = i.opcode.operands := by
  have hread := Template.whole?_eq_some_iff.1 (whole?_of_ofText? h)
  rw [← Opcode.holes_template]
  exact Template.map_placeholder_of_front? hread

/-- **What a line decodes to is shaped.** -/
theorem shaped_of_ofText? {t : Text} {i : Instruction} (h : ofText? t = some i) : i.Shaped :=
  shaped_of_map_placeholder (map_placeholder_of_ofText? h)

/-- A shaped instruction declares a label exactly when its opcode says so. -/
theorem Shaped.declares?_eq_some_iff {i : Instruction} (h : i.Shaped) {name : Text} :
    i.declares? = some name ↔ i = ⟨.label, [.label name]⟩ := by
  cases h <;> simp [declares?]

/-! ## The line of an instruction -/

/-- A line that decodes is a text of its opcode's template. -/
theorem spells_of_ofText? {t : Text} {i : Instruction} (h : ofText? t = some i) :
    i.opcode.template.Spells t i.captures :=
  Template.spells_of_whole? (whole?_of_ofText? h)

/-- A line that decodes begins with a character, and not with a blank. -/
theorem exists_cons_of_ofText? {t : Text} {i : Instruction} (h : ofText? t = some i) :
    ∃ c rest, t = c :: rest ∧ Text.isBlank c = false :=
  Template.exists_cons_of_opens (Opcode.opens_template _) (spells_of_ofText? h)

/-- A line that decodes is plain, if it is a line. -/
theorem isPlain_of_ofText? {t : Text} {i : Instruction} (h : ofText? t = some i)
    (hnewline : '\n' ∉ t) : t.IsPlain := by
  have hspells := spells_of_ofText? h
  obtain ⟨c, rest, hcons, hc⟩ := exists_cons_of_ofText? h
  obtain ⟨front, d, hconcat, hd⟩ :=
    Template.exists_concat_of_closes (Opcode.closes_template _) hspells
  have hslash : '/' ∉ t := by
    intro hmem
    obtain ⟨piece, hpiece, htakes⟩ := Template.exists_takes_of_mem hspells _ hmem
    rw [Opcode.takes_slash_eq_false hpiece] at htakes
    cases htakes
  exact ⟨hnewline, hslash, by simp [hcons], by simpa [hcons] using hc, by simpa [hconcat] using hd⟩

/-- The texts of a declaration. -/
theorem exists_isName_of_spells_label {t : Text} {captures : Captures}
    (h : Opcode.label.template.Spells t captures) :
    ∃ name, Text.IsName name ∧ t = name ++ [':'] ∧ captures = [.label name] := by
  rw [Opcode.template_label] at h
  obtain _ | ⟨hname, hcolon⟩ := h
  obtain _ | ⟨⟨⟩, ⟨⟩⟩ := hcolon
  cases hname with
  | hole hname =>
    cases hname with
    | label hn => exact ⟨_, hn, by simp, by simp⟩

/-- **A line that decodes and has a colon declares a label**, and ends at its
colon. -/
theorem eq_label_of_colon_mem {t : Text} {i : Instruction} (h : ofText? t = some i)
    (hc : ':' ∈ t) :
    ∃ name, Text.IsName name ∧ t = name ++ [':'] ∧ i = ⟨.label, [.label name]⟩ := by
  have hspells := spells_of_ofText? h
  by_cases hop : i.opcode = .label
  · rw [hop] at hspells
    obtain ⟨name, hn, rfl, hcaptures⟩ := exists_isName_of_spells_label hspells
    exact ⟨name, hn, rfl, by cases i; simp_all⟩
  · obtain ⟨piece, hmem, htakes⟩ := Template.exists_takes_of_mem hspells _ hc
    rw [Opcode.takes_colon_eq_false hop hmem] at htakes
    exact absurd htakes (by simp)

/-- A name and a colon are read as a declaration of the name. -/
theorem front?_name_colon {name : Text} (h : Text.IsName name) {rest : Text} :
    Opcode.label.template.front? (name ++ ':' :: rest) = some ([.label name], rest) := by
  have hname : Placeholder.name? (name ++ ':' :: rest) = some (name, ':' :: rest) :=
    Placeholder.name?_append h.1 h.2 (by simp; decide)
  simp [Opcode.template_label, Template.front?, Piece.read?, Placeholder.read?, hname]

/-- The declaration at the front of a line is a name with a colon behind it. -/
theorem declaration?_eq_some_iff {t rest : Text} {i : Instruction} :
    declaration? t = some (i, rest) ↔
      ∃ name, Text.IsName name ∧ t = name ++ ':' :: rest ∧ i = ⟨.label, [.label name]⟩ := by
  unfold declaration?
  constructor
  · intro h
    obtain ⟨captures, hfront, rfl⟩ := exists_of_map_read h
    obtain ⟨body, rfl, hbody⟩ := Template.exists_spells_of_front? hfront
    obtain ⟨name, hn, rfl, rfl⟩ := exists_isName_of_spells_label hbody
    exact ⟨name, hn, by simp, rfl⟩
  · rintro ⟨name, hn, rfl, rfl⟩
    rw [front?_name_colon hn]
    rfl

end Instruction

end TeachAsm
