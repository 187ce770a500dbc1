import TeachAsm.Text.Basic
/-!
# Decimal numbers

Numbers are written in decimal without leading zeros, and read with them.
Reading the front of a text takes the longest run of digits and compares its
value with a bound: a run that is too large is not a number at all, and no
shorter run is tried. A run is read as its value (`front?_append`), for every text
that does not go on with a digit, and the value of what writing wrote is the number
(`value_ofNat`).
-/

namespace TeachAsm

namespace Decimal

/-- The digits of a number, most significant first. -/
def ofNat (n : Nat) : Text :=
  Nat.toDigits 10 n

/-- The digits of an integer, after a `-` when it is negative. -/
def ofInt : Int → Text
  | .ofNat n => ofNat n
  | .negSucc n => '-' :: ofNat (n + 1)

/-- The number a run of digits stands for. -/
def value (digits : Text) : Nat :=
  Nat.ofDigitChars 10 digits 0

/-- The number below `bound` at the front of a text, and the text after it.
There is none where the text starts with no digit, or where the whole run of
digits it starts with is worth `bound` or more. -/
def front? (bound : Nat) (t : Text) : Option (Nat × Text) :=
  let digits := t.takeWhile Char.isDigit
  if digits ≠ [] ∧ value digits < bound then
    some (value digits, t.dropWhile Char.isDigit)
  else
    none

/-- The number below `bound` that a whole text stands for. -/
def whole? (bound : Nat) (t : Text) : Option Nat :=
  match front? bound t with
  | some (n, []) => some n
  | _ => none

/-! ## Writing, then reading -/

/-- A number is written in digits only. -/
theorem isDigit_of_mem_ofNat {n : Nat} {c : Char} (h : c ∈ ofNat n) : c.isDigit :=
  Nat.isDigit_of_mem_toDigits (by decide) (by decide) h

theorem ofNat_ne_nil {n : Nat} : ofNat n ≠ [] :=
  Nat.toDigits_ne_nil

@[simp] theorem value_ofNat (n : Nat) : value (ofNat n) = n :=
  Nat.ofDigitChars_ten_toDigits

/-- **A run of digits is read to its end and no further**, as its value. What writing
put there is read back, by `value_ofNat`. -/
theorem front?_append {bound : Nat} {digits rest : Text} (hne : digits ≠ [])
    (hdigits : ∀ c ∈ digits, c.isDigit) (hv : value digits < bound)
    (hrest : ∀ c ∈ rest.head?, c.isDigit = false) :
    front? bound (digits ++ rest) = some (value digits, rest) := by
  simp [front?, Text.takeWhile_append_of_stop hdigits hrest,
    Text.dropWhile_append_of_stop hdigits hrest, hne, hv]

end Decimal

end TeachAsm
