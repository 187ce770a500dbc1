import TeachAsm.Text.Basic
/-!
# Blank characters

A character is blank when it has Unicode's `White_Space` property. The
property is kept as the ten ranges it consists of; `isBlank_of_isWhitespace`
says that core's four ASCII blanks are among them. Trimming takes the blanks
off the two ends of a text and leaves those inside.
-/

namespace TeachAsm

namespace Text

/-- The code points with the `White_Space` property, as closed ranges in
ascending order. -/
def blankRanges : List (Nat × Nat) :=
  [(0x09, 0x0D), (0x20, 0x20), (0x85, 0x85), (0xA0, 0xA0), (0x1680, 0x1680),
   (0x2000, 0x200A), (0x2028, 0x2029), (0x202F, 0x202F), (0x205F, 0x205F), (0x3000, 0x3000)]

/-- A character is blank when its code point lies in one of the ranges. -/
def isBlank (c : Char) : Bool :=
  blankRanges.any fun (first, last) => first ≤ c.toNat && c.toNat ≤ last

/-- Core's whitespace is blank. -/
theorem isBlank_of_isWhitespace {c : Char} (h : c.isWhitespace) : isBlank c := by
  simp only [Char.isWhitespace, Bool.or_eq_true, decide_eq_true_eq] at h
  rcases h with ((rfl | rfl) | rfl) | rfl <;> decide

/-- The characters of a name lie between `'0'` and `'z'`. -/
theorem toNat_of_isWordChar {c : Char} (h : isWordChar c) : 48 ≤ c.toNat ∧ c.toNat ≤ 122 := by
  have hupper (h : c.isUpper) : 65 ≤ c.toNat ∧ c.toNat ≤ 90 := of_decide_eq_true h
  have hlower (h : c.isLower) : 97 ≤ c.toNat ∧ c.toNat ≤ 122 := by
    have hboth : (decide (97 ≤ c.toNat) && decide (c.toNat ≤ 122)) = true := h
    simpa using hboth
  have hdigit (h : c.isDigit) : 48 ≤ c.toNat ∧ c.toNat ≤ 57 := Char.isDigit_iff_toNat.1 h
  have hclass : (((c.isUpper || c.isLower) || c.isDigit) || c == '_') = true := h
  simp only [Bool.or_eq_true, beq_iff_eq] at hclass
  rcases hclass with ((h | h) | h) | rfl
  · have := hupper h
    omega
  · have := hlower h
    omega
  · have := hdigit h
    omega
  · decide

/-- No character of a name is blank: where names have their characters, there
is no range. -/
theorem isBlank_of_isWordChar {c : Char} (h : isWordChar c) : isBlank c = false := by
  have hc := toNat_of_isWordChar h
  simp only [isBlank, blankRanges, List.any_cons, List.any_nil, Bool.or_false, Bool.or_eq_false_iff,
    Bool.and_eq_false_iff, decide_eq_false_iff_not]
  omega

/-- A text without the characters of a class at its two ends. -/
def strip (p : Char → Bool) (t : Text) : Text :=
  ((t.dropWhile p).reverse.dropWhile p).reverse

/-- A text that has no character of the class at its ends stays as it is. -/
theorem strip_eq_self {p : Char → Bool} {t : Text} (hhead : ∀ c ∈ t.head?, p c = false)
    (hlast : ∀ c ∈ t.getLast?, p c = false) : strip p t = t := by
  have hreverse : ∀ c ∈ t.reverse.head?, p c = false := by
    rwa [List.head?_reverse]
  have hfront := @dropWhile_append_of_stop p [] t (by simp) hhead
  have hback := @dropWhile_append_of_stop p [] t.reverse (by simp) hreverse
  rw [List.nil_append] at hfront hback
  rw [strip, hfront, hback, List.reverse_reverse]

/-- Characters of the class in front make no difference. -/
theorem strip_append {p : Char → Bool} {front : Text} (hfront : ∀ c ∈ front, p c) (t : Text) :
    strip p (front ++ t) = strip p t := by
  rw [strip, strip, List.dropWhile_append_of_pos hfront]

/-- Nothing is put in. -/
theorem mem_of_mem_strip {p : Char → Bool} {t : Text} {c : Char} (h : c ∈ strip p t) : c ∈ t := by
  rw [strip, List.mem_reverse] at h
  have hinner := (List.dropWhile_sublist p).mem h
  rw [List.mem_reverse] at hinner
  exact (List.dropWhile_sublist p).mem hinner

/-- A text without the blanks it starts with. -/
def trimStart (t : Text) : Text :=
  t.dropWhile isBlank

/-- A text without the blanks it ends with. -/
def trimEnd (t : Text) : Text :=
  (t.reverse.dropWhile isBlank).reverse

/-- A text without the blanks at its two ends. -/
def trim (t : Text) : Text :=
  strip isBlank t

end Text

end TeachAsm
