import TeachAsm.Proofs.Instruction.Decoding
import TeachAsm.Proofs.Template.Compilation
/-!
# Every text of a template is read

A template is read from left to right without going back: a hole takes all that it can,
and so does a blank. What a hole takes is therefore decided by what comes behind it. If
that cannot go on with a character that the hole would take (`Template.Delimited`), a
text of the template is read as what it is (`Template.whole?_of_spells`), and then it
has one sequence of captures. A blank that takes more than it was meant to does no
harm: the blank that is missing then is one of the next blanks of the template
(`Template.Spells.of_isBlank_cons`), since no literal is blank. Without delimiters
there are texts that are not read, and so the condition cannot be left out.
-/

namespace TeachAsm

/-! ## Placeholders -/

/-- The characters that a placeholder goes on with, once it has begun. -/
def Placeholder.goesOn : Placeholder → Char → Bool
  | register | memory | operand => Char.isDigit
  | label => Text.isWordChar

/-- No placeholder goes on with a blank. -/
theorem Placeholder.goesOn_of_isBlank (p : Placeholder) {c : Char} (hc : Text.isBlank c) :
    p.goesOn c = false := by
  have hword : Text.isWordChar c = false := by
    refine Bool.eq_false_iff.2 fun hword => ?_
    rw [Text.isBlank_of_isWordChar hword] at hc
    cases hc
  have hdigit : c.isDigit = false := by
    refine Bool.eq_false_iff.2 fun hdigit => ?_
    rw [Text.isWordChar_of_isDigit hdigit] at hword
    cases hword
  cases p with
  | register | memory | operand => exact hdigit
  | label => exact hword

/-- **A placeholder reads its texts**, where it does not go on. -/
theorem Placeholder.read?_append {p : Placeholder} {body rest : Text} {capture : Capture}
    (h : p.Spells body capture) (hrest : ∀ c ∈ rest.head?, p.goesOn c = false) :
    p.read? (body ++ rest) = some (capture, rest) := by
  cases h with
  | register hd hv =>
    simp [read?, register?, Decimal.front?_append hd.1 hd.2 hv hrest]
  | memory hd hv => simp [read?, address?, Decimal.front?_append hd.1 hd.2 hv hrest]
  | operandRegister hd hv =>
    simp [read?, operand?, register?, Decimal.front?_append hd.1 hd.2 hv hrest]
  | operandImmediate hd hv => simp [read?, operand?, Decimal.front?_append hd.1 hd.2 hv hrest]
  | label hn => simp [read?, name?_append hn.1 hn.2 hrest]

/-! ## Delimiters -/

namespace Piece

/-- Whether a piece is a blank. -/
def isBlank : Piece → Bool
  | blank _ => true
  | _ => false

/-- **No text of a piece begins with a character of a class.** -/
def Avoids (piece : Piece) (p : Char → Bool) : Prop :=
  ∀ {t : Text} {captures : Captures}, piece.Spells t captures → ∀ c ∈ t.head?, p c = false

theorem avoids_literal {c : Char} {p : Char → Bool} (h : p c = false) : (literal c).Avoids p := by
  intro t captures hspells
  cases hspells
  simpa using h

end Piece

namespace Template

/-- **The holes of a template are delimited**: behind each, the blanks apart, the
template ends, or a piece stands there whose texts do not begin with a character that
the hole would go on with. -/
def Delimited : Template → Prop
  | [] => True
  | .hole p :: pieces =>
    (∀ piece ∈ (pieces.dropWhile Piece.isBlank).head?, piece.Avoids p.goesOn) ∧ Delimited pieces
  | _ :: pieces => Delimited pieces

/-- Delimiters that can be seen without looking at texts: behind each hole, the blanks
apart, there is nothing, or a literal that the hole would not go on with. -/
def closed : Template → Bool
  | [] => true
  | .hole p :: pieces =>
    ((pieces.dropWhile Piece.isBlank).head?.all fun
      | .literal c => !p.goesOn c
      | _ => false) && closed pieces
  | _ :: pieces => closed pieces

theorem delimited_of_closed {template : Template} (h : template.closed) : template.Delimited := by
  fun_induction closed template with
  | case1 => trivial
  | case2 p pieces ih =>
    obtain ⟨hnext, hclosed⟩ := Bool.and_eq_true_iff.1 h
    refine ⟨fun piece hmem => ?_, ih hclosed⟩
    rw [Option.mem_def.1 hmem, Option.all_some] at hnext
    split at hnext
    · exact Piece.avoids_literal (by simpa using hnext)
    · cases hnext
  | case3 piece pieces hhole ih =>
    cases piece with
    | literal | blank => exact ih h
    | hole p => exact absurd rfl (hhole p)

end Template

/-- **The forms of the opcodes are delimited**: a comma or a colon stands behind every
operand but the last. -/
theorem Opcode.delimited_template (op : Opcode) : op.template.Delimited := by
  have h : ∀ op ∈ all, op.template.closed := by decide +kernel
  exact Template.delimited_of_closed (h op (mem_all op))

namespace Template

variable {template : Template} {t : Text} {captures : Captures}

/-- What stands behind a hole does not begin with a character that the hole would go on
with. -/
theorem Spells.goesOn_head? {p : Placeholder} (h : template.Spells t captures)
    (hnext : ∀ piece ∈ (template.dropWhile Piece.isBlank).head?, piece.Avoids p.goesOn) :
    ∀ c ∈ t.head?, p.goesOn c = false := by
  induction h with
  | nil => simp
  | @cons piece pieces t u captures others hpiece _ ih =>
    cases hpiece with
    | blank _ hd =>
      intro c hc
      obtain rfl := Option.some.inj hc
      exact p.goesOn_of_isBlank hd
    | noBlank => exact ih hnext
    | literal c =>
      intro d hd
      exact hnext (.literal c) rfl (.literal c) d hd
    | @hole q t capture hbody =>
      intro c hc
      obtain ⟨d, body, rfl⟩ := List.exists_cons_of_ne_nil (Placeholder.takes_of_spells hbody).1
      exact hnext (.hole q) rfl (.hole hbody) c hc

/-- **A blank may be taken from the front of a text**: it was one of the blanks that the
template begins with, and that one stands for nothing then. -/
theorem Spells.of_isBlank_cons (hgenuine : ∀ piece ∈ template, piece.Genuine) {d : Char}
    (hd : Text.isBlank d) (h : template.Spells (d :: t) captures) :
    template.Spells t captures := by
  generalize htext : d :: t = text at h
  induction h generalizing t with
  | nil => cases htext
  | @cons piece pieces body u captures others hpiece hpieces ih =>
    cases hpiece with
    | literal c =>
      obtain ⟨rfl, -⟩ := List.cons.inj htext
      have hc : Text.isBlank d = false := hgenuine _ List.mem_cons_self
      rw [hc] at hd
      cases hd
    | blank c hd' =>
      obtain ⟨-, rfl⟩ := List.cons.inj htext
      exact .cons (.noBlank c) hpieces
    | noBlank c =>
      exact .cons (.noBlank c) (ih (List.forall_mem_cons.1 hgenuine).2 htext)
    | @hole p body capture hbody =>
      obtain ⟨hne, htakes⟩ := Placeholder.takes_of_spells hbody
      obtain ⟨c, body, rfl⟩ := List.exists_cons_of_ne_nil hne
      obtain ⟨rfl, -⟩ := List.cons.inj htext
      rw [Piece.isBlank_of_takes_hole (htakes d List.mem_cons_self)] at hd
      cases hd

/-- **A delimited template reads its texts**, piece by piece. -/
theorem whole?_of_spells (hgenuine : ∀ piece ∈ template, piece.Genuine) (hd : template.Delimited)
    (h : template.Spells t captures) : template.whole? t = some captures := by
  rw [whole?_eq_some_iff]
  induction template generalizing t captures with
  | nil =>
    cases h
    rfl
  | cons piece pieces ih =>
    have hgenuine' := (List.forall_mem_cons.1 hgenuine).2
    obtain _ | @⟨_, _, body, u, first, others, hpiece, hpieces⟩ := h
    rw [front?_cons_eq_some_iff]
    cases hpiece with
    | literal c => exact ⟨[], u, others, by simp [Piece.read?], ih hgenuine' hd hpieces, rfl⟩
    | @blank c d hblank =>
      exact ⟨[], u, others, by simp [Piece.read?, hblank], ih hgenuine' hd hpieces, rfl⟩
    | noBlank c =>
      cases u with
      | nil => exact ⟨[], [], others, rfl, ih hgenuine' hd hpieces, rfl⟩
      | cons d u =>
        by_cases hblank : Text.isBlank d
        · -- the blank is taken too early, and is not missed
          exact ⟨[], u, others, by simp [Piece.read?, hblank],
            ih hgenuine' hd (hpieces.of_isBlank_cons hgenuine' hblank), rfl⟩
        · exact ⟨[], d :: u, others, by simp [Piece.read?, hblank], ih hgenuine' hd hpieces, rfl⟩
    | @hole p body capture hbody =>
      have hread := Placeholder.read?_append hbody (hpieces.goesOn_head? hd.1)
      exact ⟨[capture], u, others, by simp [Piece.read?, hread], ih hgenuine' hd.2 hpieces, rfl⟩

end Template

/-- **The lines of an opcode are the texts of its form.** -/
theorem Opcode.whole?_eq_some_iff_spells {op : Opcode} {line : Text} {captures : Captures} :
    op.template.whole? line = some captures ↔ op.template.Spells line captures :=
  ⟨Template.spells_of_whole?,
    Template.whole?_of_spells Template.genuine_of_mem_compile op.delimited_template⟩

namespace Template

/-- **A template reads what its text stands for.** What it reads as a whole is one of
the texts that its own text stands for, with the captures it has there, and these are
of the kinds of its placeholders, in order. The other way round, a template with
delimiters reads every such text, and no text has other captures. The forms of all
opcodes have delimiters, and so a line belongs to a form exactly when its opcode reads
it. -/
theorem whole?_compile (text : Text) :
    (∀ (line : Text) (captures : Captures), (compile text).whole? line = some captures →
        Describes text line captures ∧
          captures.map Capture.placeholder = (compile text).holes) ∧
      ((compile text).Delimited → ∀ (line : Text) (captures : Captures),
        Describes text line captures → (compile text).whole? line = some captures ∧
          ∀ others, Describes text line others → others = captures) ∧
      (∀ op : Opcode, op.template.Delimited ∧ ∀ (line : Text) (captures : Captures),
        op.template.whole? line = some captures ↔ Describes op.form.toList line captures) := by
  have hcomplete (hd : (compile text).Delimited) {line : Text} {captures : Captures}
      (h : Describes text line captures) : (compile text).whole? line = some captures :=
    whole?_of_spells genuine_of_mem_compile hd h.spells
  refine ⟨fun line captures h => ⟨describes_of_spells (spells_of_whole? h), ?_⟩,
    fun hd line captures h => ⟨hcomplete hd h, ?_⟩,
    fun op => ⟨op.delimited_template, fun line captures => ?_⟩⟩
  · exact map_placeholder_of_front? (whole?_eq_some_iff.1 h)
  · intro others h'
    exact Option.some.inj ((hcomplete hd h').symm.trans (hcomplete hd h))
  · exact Opcode.whole?_eq_some_iff_spells.trans spells_compile_iff

/-- A template with a blank in front of a delimiter, and a text of it with zeros in front
of a number and no blank. -/
theorem whole?_compile_blank :
    let text := "<memory> ,<label>".toList
    let line := "0042,done".toList
    let captures : Captures := [.address 42, .label "done".toList]
    (compile text).whole? line = some captures ∧ (compile text).Delimited ∧
      Describes text line captures ∧ ∀ others, Describes text line others → others = captures := by
  intro text line captures
  obtain ⟨hsound, hcomplete, -⟩ := whole?_compile text
  have hread : (compile text).whole? line = some captures := by decide +kernel
  have hdelimited : (compile text).Delimited := delimited_of_closed (by decide +kernel)
  obtain ⟨hdescribes, -⟩ := hsound line captures hread
  exact ⟨hread, hdelimited, hdescribes, (hcomplete hdelimited line captures hdescribes).2⟩

end Template

/-- Without a delimiter a text may not be read: the hole takes the digit that was meant
for the literal. -/
example : (Template.compile "<memory>1".toList).whole? "11".toList = none := by
  decide +kernel

end TeachAsm
