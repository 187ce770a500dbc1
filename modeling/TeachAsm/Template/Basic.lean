import TeachAsm.Text.Blank
/-!
# Templates

A template shows a line of code the way it is written, with a placeholder in
each place where a value goes: `ADD <register>, <register>, <operand>`.
Compiling cuts the template's text into pieces: placeholders, blanks and
literal characters. Nothing is lost (`spelling_compile`): the pieces, spelled
one after the other, are the text again.
-/

namespace TeachAsm

/-- What a placeholder stands for. -/
inductive Placeholder where
  /-- A register, `R0`. -/
  | register
  /-- An address in memory, `12`. -/
  | memory
  /-- A register or an immediate value, `R0` or `#12`. -/
  | operand
  /-- The name of a label. -/
  | label
  deriving DecidableEq, Repr

namespace Placeholder

/-- A placeholder as a template spells it. -/
def spelling : Placeholder → Text
  | register => "<register>".toList
  | memory => "<memory>".toList
  | operand => "<operand>".toList
  | label => "<label>".toList

/-- All placeholders. -/
def all : List Placeholder :=
  [register, memory, operand, label]

theorem mem_all (p : Placeholder) : p ∈ all := by
  cases p <;> decide

theorem length_spelling_pos (p : Placeholder) : 0 < p.spelling.length := by
  cases p <;> decide

/-- The placeholder that a text starts with. -/
def front? (t : Text) : Option Placeholder :=
  all.find? fun p => p.spelling.isPrefixOf t

theorem prefix_of_front? {t : Text} {p : Placeholder} (h : front? t = some p) :
    p.spelling <+: t := by
  simpa using List.find?_some h

end Placeholder

/-- One piece of a template. -/
inductive Piece where
  /-- A character that stands for itself. -/
  | literal (c : Char)
  /-- A blank, `c` as the template has it; it stands for one blank or none. -/
  | blank (c : Char)
  /-- A value to be read. -/
  | hole (placeholder : Placeholder)
  deriving DecidableEq, Repr

namespace Piece

/-- The piece for a character outside every placeholder. -/
def ofChar (c : Char) : Piece :=
  if Text.isBlank c then blank c else literal c

/-- A piece as the template spells it. -/
def spelling : Piece → Text
  | literal c => [c]
  | blank c => [c]
  | hole p => p.spelling

@[simp] theorem spelling_ofChar (c : Char) : (ofChar c).spelling = [c] := by
  unfold ofChar
  split <;> rfl

end Piece

/-- A template is the list of its pieces. -/
abbrev Template := List Piece

namespace Template

/-- Cuts a text into pieces: where a placeholder is spelled there is a hole,
and every other character is a piece of its own. -/
def compile : Text → Template
  | [] => []
  | c :: rest =>
    match Placeholder.front? (c :: rest) with
    | some p => .hole p :: compile ((c :: rest).drop p.spelling.length)
    | none => .ofChar c :: compile rest
termination_by t => t.length
decreasing_by
  · have := p.length_spelling_pos
    simp only [List.length_drop, List.length_cons]
    omega
  · simp

/-- The text that a template's pieces spell. -/
def spelling (template : Template) : Text :=
  template.flatMap Piece.spelling

/-- **Compiling loses nothing.** -/
@[simp] theorem spelling_compile (t : Text) : spelling (compile t) = t := by
  unfold spelling
  fun_induction compile t with
  | case1 => rfl
  | case2 c rest p hp ih =>
    obtain ⟨tail, htail⟩ := Placeholder.prefix_of_front? hp
    rw [← htail] at ih ⊢
    simp only [List.drop_left, List.flatMap_cons] at ih ⊢
    rw [ih]
    rfl
  | case3 c rest hp ih => simp [ih]

end Template

end TeachAsm
