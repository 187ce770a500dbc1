import TeachAsm.Template.Capture
/-!
# Reading a line by a template

A template reads the front of a text piece by piece, from left to right and
without going back: a literal takes the same character, a blank takes one
blank or nothing, and a hole takes the longest text of its kind. What is read
are the captures of the holes; what is left is handed back (`front?`), and
a line is read as a whole when nothing is left (`whole?`).
-/

namespace TeachAsm

/-- What is read is carried over to the value that is made of it, and the rest
stays what it is. -/
theorem exists_of_map_read {α β : Type} {read : Option (α × Text)} {f : α → β} {b : β}
    {rest : Text} (h : (read.map fun (a, rest) => (f a, rest)) = some (b, rest)) :
    ∃ a, read = some (a, rest) ∧ b = f a := by
  obtain ⟨⟨a, tail⟩, hread, heq⟩ := Option.map_eq_some_iff.1 h
  obtain ⟨rfl, rfl⟩ := Prod.mk.inj heq
  exact ⟨a, hread, rfl⟩

namespace Placeholder

/-- The register at the front of a text, and the text after it. -/
def register? : Text → Option (Register × Text)
  | 'R' :: t => (Decimal.front? UInt32.size t).map fun (n, rest) => (UInt32.ofNat n, rest)
  | _ => none

/-- The address at the front of a text, and the text after it. -/
def address? (t : Text) : Option (Address × Text) :=
  (Decimal.front? UInt64.size t).map fun (n, rest) => (UInt64.ofNat n, rest)

/-- The operand at the front of a text, and the text after it. An immediate
value is not negative. -/
def operand? : Text → Option (Operand × Text)
  | '#' :: t =>
    (Decimal.front? Word.bound t).map fun (n, rest) => (.immediate (Int32.ofNat n), rest)
  | t => (register? t).map fun (r, rest) => (.register r, rest)

/-- The name at the front of a text, and the text after it. -/
def name? (t : Text) : Option (Text × Text) :=
  match t.takeWhile Text.isWordChar with
  | [] => none
  | name => some (name, t.dropWhile Text.isWordChar)

/-- A name is read to its end and no further. -/
theorem name?_append {name rest : Text} (hne : name ≠ [])
    (hname : ∀ c ∈ name, Text.isWordChar c) (hrest : ∀ c ∈ rest.head?, Text.isWordChar c = false) :
    name? (name ++ rest) = some (name, rest) := by
  unfold name?
  rw [Text.takeWhile_append_of_stop hname hrest, Text.dropWhile_append_of_stop hname hrest]
  split
  · exact absurd rfl hne
  · rfl

/-- The capture that a placeholder reads at the front of a text, and the text
after it. -/
def read? : Placeholder → Text → Option (Capture × Text)
  | register, t => (register? t).map fun (r, rest) => (.register r, rest)
  | memory, t => (address? t).map fun (a, rest) => (.address a, rest)
  | operand, t => (operand? t).map fun (o, rest) => (.operand o, rest)
  | label, t => (name? t).map fun (name, rest) => (.label name, rest)

/-- A placeholder reads captures of its own kind. -/
theorem placeholder_of_read? {p : Placeholder} {t rest : Text} {c : Capture}
    (h : p.read? t = some (c, rest)) : c.placeholder = p := by
  cases p <;>
  · obtain ⟨value, -, rfl⟩ := exists_of_map_read h
    rfl

end Placeholder

/-- What a piece reads at the front of a text: the capture of a hole, nothing
of the other pieces, and the text after it. -/
def Piece.read? : Piece → Text → Option (Captures × Text)
  | literal c, d :: t => if c = d then some ([], t) else none
  | literal _, [] => none
  | blank _, d :: t => some ([], if Text.isBlank d then t else d :: t)
  | blank _, [] => some ([], [])
  | hole p, t => (p.read? t).map fun (capture, rest) => ([capture], rest)

namespace Template

/-- The captures that a template reads at the front of a text, and the text
that is left. -/
def front? : Template → Text → Option (Captures × Text)
  | [], t => some ([], t)
  | piece :: pieces, t => do
    let (captures, t) ← piece.read? t
    let (others, t) ← front? pieces t
    return (captures ++ others, t)

/-- The captures of a line that a template reads to its end. -/
def whole? (template : Template) (t : Text) : Option Captures :=
  match template.front? t with
  | some (captures, []) => some captures
  | _ => none

/-- A line is read as a whole when nothing is left of it. -/
theorem whole?_eq_some_iff {template : Template} {t : Text} {captures : Captures} :
    template.whole? t = some captures ↔ template.front? t = some (captures, []) := by
  unfold whole?
  split
  · next cs h => simp [h]
  · next h => simp only [reduceCtorEq, false_iff]; exact h captures

/-- The placeholders of a template's holes, in order. -/
def holes : Template → List Placeholder :=
  List.filterMap fun
    | .hole p => some p
    | _ => none

/-- **The captures have the kinds of the holes**, one for each. -/
theorem map_placeholder_of_front? {template : Template} {t rest : Text} {captures : Captures}
    (h : template.front? t = some (captures, rest)) :
    captures.map Capture.placeholder = template.holes := by
  induction template generalizing t captures with
  | nil =>
    obtain ⟨rfl, -⟩ := Prod.mk.inj (Option.some.inj h)
    rfl
  | cons piece pieces ih =>
    simp only [front?, Option.bind_eq_bind, Option.bind_eq_some_iff] at h
    obtain ⟨⟨first, u⟩, hpiece, ⟨others, v⟩, hpieces, heq⟩ := h
    obtain ⟨rfl, rfl⟩ := Prod.mk.inj (Option.some.inj heq)
    rw [List.map_append, ih hpieces]
    cases piece with
    | literal c =>
      cases t with
      | nil => simp [Piece.read?] at hpiece
      | cons d t =>
        simp only [Piece.read?] at hpiece
        split at hpiece
        · simp_all [holes]
        · simp at hpiece
    | blank c => cases t <;> simp_all [Piece.read?, holes]
    | hole p =>
      obtain ⟨c, hc, rfl⟩ := @exists_of_map_read _ _ _ (fun c => [c]) _ _ hpiece
      simp [holes, Placeholder.placeholder_of_read? hc]

end Template

end TeachAsm
