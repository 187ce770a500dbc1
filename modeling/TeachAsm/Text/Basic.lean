/-!
# Text

Program text is a list of characters, so that a line is read by recursion on
its data and cut with the list library's `takeWhile`, `dropWhile` and
`splitOn`. Two classes of characters matter everywhere: the decimal digits,
which are core's `Char.isDigit`, and the characters a label's name is made of.
A run of a class is taken as long as it goes: `takeWhile_append_of_stop` and
`dropWhile_append_of_stop` say where it ends.
-/

namespace TeachAsm

/-- Text is the list of its characters. -/
abbrev Text := List Char

namespace Text

/-- The characters of a name: the ASCII letters and digits, and `_`. -/
def isWordChar (c : Char) : Bool :=
  c.isAlphanum || c == '_'

/-- Every digit may stand in a name. -/
theorem isWordChar_of_isDigit {c : Char} (h : c.isDigit) : isWordChar c := by
  simp [isWordChar, Char.isAlphanum, h]

/-- **The longest run is the whole body**, when the rest does not go on with
the class. -/
theorem takeWhile_append_of_stop {p : Char → Bool} {body rest : Text}
    (hbody : ∀ c ∈ body, p c = true) (hrest : ∀ c ∈ rest.head?, p c = false) :
    (body ++ rest).takeWhile p = body := by
  rw [List.takeWhile_append_of_pos hbody]
  cases rest with
  | nil => simp
  | cons c cs => simp [hrest c (by simp)]

/-- What is left after the longest run is the rest, when the rest does not go
on with the class. -/
theorem dropWhile_append_of_stop {p : Char → Bool} {body rest : Text}
    (hbody : ∀ c ∈ body, p c = true) (hrest : ∀ c ∈ rest.head?, p c = false) :
    (body ++ rest).dropWhile p = rest := by
  rw [List.dropWhile_append_of_pos hbody]
  cases rest with
  | nil => simp
  | cons c cs => simp [hrest c (by simp)]

end Text

end TeachAsm
