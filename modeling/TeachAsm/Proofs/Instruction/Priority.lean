import TeachAsm.Proofs.Template.Completeness
import TeachAsm.Proofs.Template.Layout
/-!
# Which opcode a line belongs to

A line belongs to the first opcode whose form reads it, and the order of the
opcodes matters in one place only. The forms begin with letters of their own
(`Opcode.mnemonic`), so that two of them read the same line only when one is a
conditional branch and the other is the plain one (`Opcode.shadows_of_whole?`).
A table that has the conditional branches in front of the plain one therefore
decodes as every other such table does (`decode?_eq_some_iff`).

What the order protects is a line that a conditional branch reads. A line that
is only its mnemonic, without a label, is not one of these, and the plain branch
takes the rest of the mnemonic for its label (`ofText?_mnemonic_append`).
-/

namespace TeachAsm

/-! ## The letters of a form -/

/-- A template that begins with letters has texts that begin with them. -/
theorem Template.spells_literals_append_iff {letters : Text} {pieces : Template} {t : Text}
    {captures : Captures} :
    Template.Spells (letters.map .literal ++ pieces) t captures ↔
      ∃ rest, t = letters ++ rest ∧ pieces.Spells rest captures := by
  induction letters generalizing t with
  | nil => simp
  | cons c letters ih =>
    constructor
    · intro h
      obtain _ | ⟨⟨⟩, hs⟩ := h
      obtain ⟨rest, rfl, hrest⟩ := ih.1 hs
      exact ⟨rest, rfl, hrest⟩
    · rintro ⟨rest, rfl, hrest⟩
      exact .cons (.literal c) (ih.2 ⟨rest, rfl, hrest⟩)

namespace Opcode

/-- The letters that an opcode's lines begin with. A declaration begins with a
name instead. -/
def mnemonic : Opcode → Text
  | load => "LDR".toList
  | store => "STR".toList
  | compute .add => "ADD".toList
  | compute .sub => "SUB".toList
  | compute .and => "AND".toList
  | compute .or => "ORR".toList
  | compute .xor => "EOR".toList
  | compute .shiftLeft => "LSL".toList
  | compute .shiftRight => "LSR".toList
  | copy => "MOV".toList
  | complement => "MVN".toList
  | compare => "CMP".toList
  | branch .equal => "BEQ".toList
  | branch .notEqual => "BNE".toList
  | branch .greater => "BGT".toList
  | branch .less => "BLT".toList
  | branch .always => "B".toList
  | halt => "HALT".toList
  | label => []

/-- A form begins with the letters of its opcode. -/
theorem exists_template_eq (op : Opcode) :
    ∃ pieces, op.template = op.mnemonic.map .literal ++ pieces := by
  have h : ∀ op ∈ all, op.mnemonic.map Piece.literal <+: op.template := by decide +kernel
  obtain ⟨pieces, hpieces⟩ := h op (mem_all op)
  exact ⟨pieces, hpieces.symm⟩

/-- The form of a branch is its letters, a blank and a label. -/
theorem template_branch (condition : Condition) :
    (branch condition).template =
      (branch condition).mnemonic.map .literal ++ [.blank ' ', .hole .label] := by
  cases condition <;> decide +kernel

/-- A line begins with the letters of each opcode that reads it. -/
theorem mnemonic_isPrefix_of_whole? {op : Opcode} {line : Text} {captures : Captures}
    (h : op.template.whole? line = some captures) : op.mnemonic <+: line := by
  obtain ⟨pieces, hpieces⟩ := exists_template_eq op
  have hspells := Template.spells_of_whole? h
  rw [hpieces] at hspells
  obtain ⟨rest, rfl, -⟩ := Template.spells_literals_append_iff.1 hspells
  exact List.prefix_append _ _

/-! ## Lines that two opcodes read -/

/-- **One opcode shadows another** when the first may read a line of the second:
a conditional branch shadows the branch that is always taken. -/
inductive Shadows : Opcode → Opcode → Prop
  | conditional {condition : Condition} (h : condition ≠ .always) :
      Shadows (.branch condition) (.branch .always)

/-- Of two opcodes with letters of their own, those of the plain branch are the
only ones that other letters go on with. -/
theorem shadows_of_mnemonic_isPrefix {op other : Opcode} (hne : op ≠ other) (hop : op ≠ label)
    (hother : other ≠ label) (h : op.mnemonic <+: other.mnemonic) : Shadows other op := by
  have hpairs : ∀ op ∈ all, ∀ other ∈ all, op ≠ other → op ≠ label → other ≠ label →
      op.mnemonic <+: other.mnemonic → op = branch .always ∧
        other ∈ [branch .equal, branch .notEqual, branch .greater, branch .less] := by
    decide +kernel
  obtain ⟨rfl, hmem⟩ := hpairs op (mem_all op) other (mem_all other) hne hop hother h
  simp only [List.mem_cons, List.not_mem_nil, or_false] at hmem
  rcases hmem with rfl | rfl | rfl | rfl <;> exact .conditional (by decide)

/-- A line that a declaration reads is read by no other opcode. -/
theorem whole?_eq_none_of_label {op : Opcode} (hop : op ≠ label) {line : Text}
    {captures : Captures} (h : label.template.whole? line = some captures) :
    op.template.whole? line = none := by
  obtain ⟨name, -, rfl, -⟩ :=
    Instruction.exists_isName_of_spells_label (Template.spells_of_whole? h)
  -- there is a colon at the end, and no place for it in the other form
  cases hread : op.template.whole? (name ++ [':']) with
  | none => rfl
  | some others =>
    obtain ⟨piece, hmem, htakes⟩ :=
      Template.exists_takes_of_mem (Template.spells_of_whole? hread) ':' (by simp)
    rw [takes_colon_eq_false hop hmem] at htakes
    exact absurd htakes (by simp)

/-- **Two opcodes that read the same line** are a conditional branch and the
plain one. -/
theorem shadows_of_whole? {op other : Opcode} (hne : op ≠ other) {line : Text}
    {captures captures' : Captures} (h : op.template.whole? line = some captures)
    (h' : other.template.whole? line = some captures') : Shadows op other ∨ Shadows other op := by
  by_cases hop : op = label
  · subst hop
    rw [whole?_eq_none_of_label hne.symm h] at h'
    cases h'
  by_cases hother : other = label
  · subst hother
    rw [whole?_eq_none_of_label hne h'] at h
    cases h
  rcases List.prefix_or_prefix_of_prefix (mnemonic_isPrefix_of_whole? h)
    (mnemonic_isPrefix_of_whole? h') with hprefix | hprefix
  · exact .inr (shadows_of_mnemonic_isPrefix hne hop hother hprefix)
  · exact .inl (shadows_of_mnemonic_isPrefix hne.symm hother hop hprefix)

/-- One opcode stands in front of another in a table. -/
def Ahead (table : List (Opcode × Template)) (op other : Opcode) : Prop :=
  op ∈ (table.map Prod.fst).takeWhile (· ≠ other)

/-- What stands in front of an opcode stands in front of each of its entries. -/
theorem Ahead.mem {before after : List (Opcode × Template)} {op other : Opcode}
    {template : Template} (h : Ahead (before ++ (other, template) :: after) op other) :
    op ∈ before.map Prod.fst := by
  rw [Ahead, List.map_append, List.map_cons, List.takeWhile_append] at h
  split at h
  · simpa using h
  · exact List.takeWhile_subset _ h

/-- The four conditional branches, one after the other. -/
theorem ahead_of_conditionals {table : List (Opcode × Template)}
    (h : ∀ condition ∈ [Condition.equal, .notEqual, .greater, .less],
      branch condition ∈ (table.map Prod.fst).takeWhile (· ≠ branch .always)) :
    ∀ condition, condition ≠ .always → Ahead table (branch condition) (branch .always) := by
  intro condition hne
  exact h condition (by cases condition <;> simp_all)

end Opcode

namespace Instruction

open Opcode

variable {table : List (Opcode × Template)} {line : Text} {op : Opcode} {captures : Captures}

/-- A table's entry for an opcode holds its template. -/
theorem mem_table_iff (hperm : table.Perm Opcode.table) {template : Template} :
    (op, template) ∈ table ↔ template = op.template := by
  rw [hperm.mem_iff, Opcode.table, List.mem_map]
  constructor
  · rintro ⟨op, -, heq⟩
    obtain ⟨rfl, rfl⟩ := Prod.mk.inj heq
    rfl
  · rintro rfl
    exact ⟨op, mem_all op, rfl⟩

/-- What a table decodes a line to reads the line, and nothing that shadows it
does. -/
theorem whole?_of_decode? (hperm : table.Perm Opcode.table)
    (hahead : ∀ op other, Shadows op other → Ahead table op other)
    (h : decode? table line = some ⟨op, captures⟩) :
    op.template.whole? line = some captures ∧
      ∀ other, Shadows other op → other.template.whole? line = none := by
  obtain ⟨before, ⟨found, template⟩, after, rfl, hread, hbefore⟩ :=
    List.findSome?_eq_some_iff.1 h
  obtain rfl := (mem_table_iff hperm).1 (List.mem_append_right before List.mem_cons_self)
  obtain ⟨_, hread, heq⟩ := Option.map_eq_some_iff.1 hread
  cases heq
  refine ⟨hread, fun other hshadows => ?_⟩
  -- the one that shadows stands before the entry that was found, and so it was tried
  obtain ⟨⟨_, template⟩, hentry, rfl⟩ := List.mem_map.1 (hahead other op hshadows).mem
  obtain rfl := (mem_table_iff hperm).1 (List.mem_append_left _ hentry)
  exact Option.map_eq_none_iff.1 (hbefore _ hentry)

/-- **What a line decodes to**, by any table in which what shadows an opcode
stands in front of it: the opcode reads the line, and nothing that shadows it
does. -/
theorem decode?_eq_some_iff (hperm : table.Perm Opcode.table)
    (hahead : ∀ op other, Shadows op other → Ahead table op other) :
    decode? table line = some ⟨op, captures⟩ ↔ op.template.whole? line = some captures ∧
      ∀ other, Shadows other op → other.template.whole? line = none := by
  refine ⟨whole?_of_decode? hperm hahead, fun ⟨hread, hnone⟩ => ?_⟩
  -- some opcode reads the line, so something is found
  cases hfound : decode? table line with
  | none =>
    have hentry : (op, op.template) ∈ table := (mem_table_iff hperm).2 rfl
    have hnot := Option.map_eq_none_iff.1 (List.findSome?_eq_none_iff.1 hfound _ hentry)
    rw [hread] at hnot
    cases hnot
  | some found =>
    obtain ⟨other, captures'⟩ := found
    obtain ⟨hother, hnone'⟩ := whole?_of_decode? hperm hahead hfound
    by_cases hne : op = other
    · subst hne
      rw [hread] at hother
      cases hother
      rfl
    · rcases shadows_of_whole? hne hread hother with hshadows | hshadows
      · rw [hnone' op hshadows] at hread
        cases hread
      · rw [hnone other hshadows] at hother
        cases hother

/-- The order of the opcodes is such a table. -/
theorem ahead_table {op other : Opcode} (h : Shadows op other) : Ahead Opcode.table op other := by
  obtain @⟨condition, hne⟩ := h
  exact ahead_of_conditionals (by decide +kernel) condition hne

/-- What shadows an opcode, in the one case in which something does. -/
theorem forall_shadows_iff {p : Opcode → Prop} :
    (∀ other, Shadows other op → p other) ↔
      op ≠ .branch .always ∨ ∀ condition, condition ≠ .always → p (.branch condition) := by
  constructor
  · intro h
    by_cases hop : op = .branch .always
    · subst hop
      exact .inr fun condition hne => h _ (.conditional hne)
    · exact .inl hop
  · intro h other hshadows
    cases hshadows with
    | conditional hne => exact h.resolve_left (absurd rfl) _ hne

/-- **What a line decodes to**, by the order of the opcodes. -/
theorem ofText?_eq_some_iff :
    ofText? line = some ⟨op, captures⟩ ↔ op.template.whole? line = some captures ∧
      ∀ other, Shadows other op → other.template.whole? line = none :=
  decode?_eq_some_iff (.refl _) fun _ _ => ahead_table

/-- A name with a colon behind it decodes to its declaration. -/
theorem ofText?_name_colon {name : Text} (h : Text.IsName name) :
    ofText? (name ++ [':']) = some ⟨.label, [.label name]⟩ :=
  ofText?_eq_some_iff.2
    ⟨Template.whole?_eq_some_iff.2 (front?_name_colon h), forall_shadows_iff.2 (.inl (by simp))⟩

/-- **Decoding is unambiguous, the branches apart.** Of two opcodes that read
the same line, one is a conditional branch and the other the plain one. A line
decodes to an opcode exactly when the opcode reads it and, for the plain branch,
no conditional one does. Every order of the opcodes that keeps the conditional
branches in front of the plain one decodes all lines in the same way. Lines with
the same captures, for an opcode other than the plain branch, differ in layout
only and decode to the same instruction. -/
theorem unambiguous_but_for_branches :
    (∀ (line : Text) (op other : Opcode) (captures captures' : Captures), op ≠ other →
      op.template.whole? line = some captures → other.template.whole? line = some captures' →
        ∃ condition, condition ≠ .always ∧
          ((op = .branch condition ∧ other = .branch .always) ∨
            (op = .branch .always ∧ other = .branch condition))) ∧
      (∀ (line : Text) (op : Opcode) (captures : Captures),
        ofText? line = some ⟨op, captures⟩ ↔
          op.template.whole? line = some captures ∧
            (op ≠ .branch .always ∨ ∀ condition, condition ≠ .always →
              (Opcode.branch condition).template.whole? line = none)) ∧
      (∀ table : List (Opcode × Template), table.Perm Opcode.table →
        (∀ condition, condition ≠ .always → Ahead table (.branch condition) (.branch .always)) →
          ∀ line, decode? table line = ofText? line) ∧
      (∀ op : Opcode, op ≠ .branch .always → ∀ (line line' : Text) (captures : Captures),
        op.template.whole? line = some captures → op.template.whole? line' = some captures →
          op.template.Alike line line' ∧ ofText? line = some ⟨op, captures⟩ ∧
            ofText? line' = some ⟨op, captures⟩) := by
  refine ⟨fun line op other captures captures' hne h h' => ?_, fun line op captures => ?_,
    fun table hperm hahead line => ?_, fun op hop line line' captures h h' => ⟨?_, ?_, ?_⟩⟩
  · rcases shadows_of_whole? hne h h' with hshadows | hshadows
    · obtain @⟨condition, hcondition⟩ := hshadows
      exact ⟨condition, hcondition, .inl ⟨rfl, rfl⟩⟩
    · obtain @⟨condition, hcondition⟩ := hshadows
      exact ⟨condition, hcondition, .inr ⟨rfl, rfl⟩⟩
  · rw [ofText?_eq_some_iff, forall_shadows_iff]
  · have hfront : ∀ op other, Shadows op other → Ahead table op other := by
      intro op other hshadows
      obtain @⟨condition, hcondition⟩ := hshadows
      exact hahead condition hcondition
    refine Option.ext fun ⟨op, captures⟩ => ?_
    exact (decode?_eq_some_iff hperm hfront).trans ofText?_eq_some_iff.symm
  · exact Template.alike_of_spells (Template.spells_of_whole? h) (Template.spells_of_whole? h')
  · exact ofText?_eq_some_iff.2 ⟨h, forall_shadows_iff.2 (.inl hop)⟩
  · exact ofText?_eq_some_iff.2 ⟨h', forall_shadows_iff.2 (.inl hop)⟩

/-- A line with two readings, by a table that tries the declaration first, and
two layouts of one sum. -/
theorem unambiguous_but_for_branches_reordered :
    let table := Opcode.table.drop 18 ++ Opcode.table.take 18
    let line := "BEQdone".toList
    table.Perm Opcode.table ∧
      (∀ condition, condition ≠ .always → Ahead table (.branch condition) (.branch .always)) ∧
      (Opcode.branch .equal).template.whole? line = some [.label "done".toList] ∧
      (Opcode.branch .always).template.whole? line = some [.label "EQdone".toList] ∧
      decode? table line = ofText? line ∧
      ofText? "ADD R2, R0, #12".toList = ofText? "ADDR2,R00,#0012".toList := by
  intro table line
  have hperm : table.Perm Opcode.table :=
    List.perm_append_comm.trans (.of_eq (List.take_append_drop 18 Opcode.table))
  have hahead : ∀ condition, condition ≠ .always →
      Ahead table (.branch condition) (.branch .always) :=
    ahead_of_conditionals (by decide +kernel)
  obtain ⟨-, -, horder, hlayout⟩ := unambiguous_but_for_branches
  obtain ⟨-, h, h'⟩ := hlayout (.compute .add) (by decide) "ADD R2, R0, #12".toList
    "ADDR2,R00,#0012".toList
    [.register 2, .register 0, .operand (.immediate 12)] (by decide +kernel) (by decide +kernel)
  exact ⟨hperm, hahead, by decide +kernel, by decide +kernel, horder table hperm hahead line,
    h.trans h'.symm⟩

/-! ## Lines that begin with a conditional mnemonic -/

/-- **The lines of a branch**: its letters, at most one blank, and a name. -/
theorem whole?_branch_eq_some_iff {condition : Condition} :
    (Opcode.branch condition).template.whole? line = some captures ↔
      ∃ gap name, line = (Opcode.branch condition).mnemonic ++ (gap ++ name) ∧ Text.IsGap gap ∧
        Text.IsName name ∧ captures = [.label name] := by
  rw [Opcode.whole?_eq_some_iff_spells, template_branch, Template.spells_literals_append_iff]
  constructor
  · rintro ⟨rest, rfl, hrest⟩
    obtain _ | ⟨hblank, hhole⟩ := hrest
    obtain _ | ⟨hpiece, ⟨⟩⟩ := hhole
    obtain ⟨hgap, rfl⟩ := Piece.spells_blank_iff.1 hblank
    cases hpiece with
    | hole hlabel =>
      cases hlabel with
      | label hname => exact ⟨_, _, by simp, hgap, hname, rfl⟩
  · rintro ⟨gap, name, rfl, hgap, hname, rfl⟩
    have hhole : Template.Spells [.hole .label] (name ++ []) ([.label name] ++ []) :=
      .cons (.hole (.label hname)) .nil
    rw [List.append_nil] at hhole
    exact ⟨gap ++ name, rfl, .cons (Piece.spells_blank_iff.2 ⟨hgap, rfl⟩) hhole⟩

/-- A conditional mnemonic is a `B` with a name of two letters behind it. -/
theorem exists_mnemonic_eq_cons {condition : Condition} (h : condition ≠ .always) :
    ∃ letters, (Opcode.branch condition).mnemonic = 'B' :: letters ∧ Text.IsName letters ∧
      letters.length = 2 := by
  cases condition with
  | equal => exact ⟨['E', 'Q'], rfl, ⟨by simp, List.all_eq_true.1 rfl⟩, rfl⟩
  | notEqual => exact ⟨['N', 'E'], rfl, ⟨by simp, List.all_eq_true.1 rfl⟩, rfl⟩
  | greater => exact ⟨['G', 'T'], rfl, ⟨by simp, List.all_eq_true.1 rfl⟩, rfl⟩
  | less => exact ⟨['L', 'T'], rfl, ⟨by simp, List.all_eq_true.1 rfl⟩, rfl⟩
  | always => exact absurd rfl h

/-- The plain branch reads a `B` with a name behind it as the branch to that
name. -/
theorem whole?_always_cons_eq_some_iff {t : Text} (ht : ∀ c ∈ t.head?, Text.isBlank c = false) :
    (Opcode.branch .always).template.whole? ('B' :: t) = some captures ↔
      Text.IsName t ∧ captures = [.label t] := by
  rw [whole?_branch_eq_some_iff]
  constructor
  · rintro ⟨gap, name, heq, hgap, hname, rfl⟩
    obtain rfl : t = gap ++ name := (List.cons.inj heq).2
    rcases Text.isGap_iff.1 hgap with rfl | ⟨d, rfl, hd⟩
    · exact ⟨hname, rfl⟩
    · rw [ht d rfl] at hd
      cases hd
  · rintro ⟨hname, rfl⟩
    exact ⟨[], t, rfl, Text.isGap_iff.2 (.inl rfl), hname, rfl⟩

/-- A line that begins with a conditional mnemonic is one of the plain branch
only when it ends there. -/
theorem ofText?_mnemonic_eq_always_iff {condition : Condition} (h : condition ≠ .always)
    (rest : Text) :
    ofText? ((Opcode.branch condition).mnemonic ++ rest) = some ⟨.branch .always, captures⟩ ↔
      rest = [] ∧ captures = [.label (Opcode.branch condition).mnemonic.tail] := by
  obtain ⟨letters, hmnemonic, hletters, hlength⟩ := exists_mnemonic_eq_cons h
  have hhead : ∀ c ∈ (letters ++ rest).head?, Text.isBlank c = false := by
    obtain ⟨c, others, rfl⟩ := List.exists_cons_of_ne_nil hletters.1
    simpa using Text.isBlank_of_isWordChar (hletters.2 c List.mem_cons_self)
  rw [ofText?_eq_some_iff, hmnemonic, List.cons_append, whole?_always_cons_eq_some_iff hhead]
  constructor
  · rintro ⟨⟨hname, rfl⟩, hnone⟩
    -- with a name behind it, the mnemonic is one of its own branch
    have hrest : rest = [] := by
      by_contra hne
      have hread : (Opcode.branch condition).template.whole? ('B' :: (letters ++ rest)) =
          some [.label rest] :=
        whole?_branch_eq_some_iff.2 ⟨[], rest, by simp [hmnemonic], Text.isGap_iff.2 (.inl rfl),
          ⟨hne, fun c hc => hname.2 c (List.mem_append_right _ hc)⟩, rfl⟩
      rw [hnone _ (.conditional h)] at hread
      cases hread
    exact ⟨hrest, by simp [hrest]⟩
  · rintro ⟨rfl, rfl⟩
    refine ⟨⟨by simpa using hletters, by simp⟩, fun other hshadows => ?_⟩
    obtain @⟨condition', hne'⟩ := hshadows
    cases hread : (Opcode.branch condition').template.whole? ('B' :: (letters ++ [])) with
    | none => rfl
    | some others =>
      -- there is no letter left for the name of a label
      obtain ⟨letters', hmnemonic', -, hlength'⟩ := exists_mnemonic_eq_cons hne'
      obtain ⟨gap, name, heq, -, hname, -⟩ := whole?_branch_eq_some_iff.1 hread
      have hlengths := congrArg List.length heq
      have hpos := List.length_pos_iff.2 hname.1
      simp only [hmnemonic', List.length_cons, List.length_append, List.length_nil] at hlengths
      omega

/-- **A line that begins with a conditional mnemonic** belongs to that branch,
declares a label, or holds nothing, unless it ends with the mnemonic: the
mnemonic alone is the plain branch to the rest of its letters. -/
theorem ofText?_mnemonic_append {condition : Condition} (h : condition ≠ .always) (rest : Text) :
    (rest ≠ [] → ∀ i, ofText? ((Opcode.branch condition).mnemonic ++ rest) = some i →
      i.opcode = .branch condition ∨ i.opcode = .label) ∧
      (rest = [] → ofText? ((Opcode.branch condition).mnemonic ++ rest) =
        some ⟨.branch .always, [.label (Opcode.branch condition).mnemonic.tail]⟩) := by
  refine ⟨fun hne ⟨op, captures⟩ hi => ?_, fun hrest => ?_⟩
  · by_cases hlabel : op = .label
    · exact .inr hlabel
    by_cases hop : op = .branch condition
    · exact .inl hop
    -- two opcodes with comparable letters: the other one is the plain branch
    obtain ⟨hread, -⟩ := ofText?_eq_some_iff.1 hi
    have hshadows : Shadows op (.branch condition) ∨ Shadows (.branch condition) op := by
      rcases List.prefix_or_prefix_of_prefix (mnemonic_isPrefix_of_whole? hread)
        (List.prefix_append (Opcode.branch condition).mnemonic rest) with hprefix | hprefix
      · exact .inr (shadows_of_mnemonic_isPrefix hop hlabel (by simp) hprefix)
      · exact .inl (shadows_of_mnemonic_isPrefix (Ne.symm hop) (by simp) hlabel hprefix)
    rcases hshadows with ⟨⟨⟩⟩ | ⟨⟨⟩⟩
    · exact absurd rfl h
    · exact absurd ((ofText?_mnemonic_eq_always_iff h rest).1 hi).1 hne
  · exact (ofText?_mnemonic_eq_always_iff h rest).2 ⟨hrest, rfl⟩

/-- The mnemonic with a label, and alone. -/
theorem ofText?_mnemonic_append_equal :
    Condition.equal ≠ .always ∧ " x".toList ≠ [] ∧
      (∃ i, ofText? "BEQ x".toList = some i ∧ (i.opcode = .branch .equal ∨ i.opcode = .label)) ∧
      ofText? "BEQ".toList = some ⟨.branch .always, [.label "EQ".toList]⟩ := by
  have hne : Condition.equal ≠ .always := by decide
  have hread : ofText? "BEQ x".toList = some ⟨.branch .equal, [.label "x".toList]⟩ := by
    decide +kernel
  obtain ⟨hsome, -⟩ := ofText?_mnemonic_append hne " x".toList
  obtain ⟨-, hnone⟩ := ofText?_mnemonic_append hne []
  exact ⟨hne, by decide, ⟨_, hread, hsome (by decide) _ hread⟩, hnone rfl⟩

/-- It is not so that no line with a conditional mnemonic in front is one of the
plain branch. -/
theorem not_forall_mnemonic_append_ne_always :
    ¬ ∀ condition, condition ≠ .always → ∀ rest captures,
      ofText? ((Opcode.branch condition).mnemonic ++ rest) ≠ some ⟨.branch .always, captures⟩ := by
  intro h
  exact h .equal (by decide) [] [.label "EQ".toList] (by decide +kernel)

end Instruction

end TeachAsm
