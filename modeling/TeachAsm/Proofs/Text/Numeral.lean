import Mathlib.Data.List.Basic
import Mathlib.Data.List.Induction
import TeachAsm.Text.Decimal
/-!
# Zeros in front of a number

A run of digits says more than its value only by the zeros it begins with. A
number above zero is written without one (`head?_ofNat_ne_zero`), a run that
begins with no zero is what its value is written as (`ofNat_value`), and so two
runs of the same value differ in nothing but the zeros in front
(`exists_zeros_of_value_eq`).
-/

namespace TeachAsm

namespace Decimal

variable {digits others : Text}

/-- A digit behind a number above zero. -/
theorem ofNat_append_digit {n d : Nat} (hn : 0 < n) (hd : d < 10) :
    ofNat n ++ [Nat.digitChar d] = ofNat (10 * n + d) := by
  have h := Nat.toDigits_append_toDigits (b := 10) (by decide) hn hd
  rwa [Nat.toDigits_of_lt_base hd] at h

/-- A digit is the one of its value. -/
theorem digitChar_of_isDigit {c : Char} (h : c.isDigit) :
    c.toNat - '0'.toNat < 10 ∧ Nat.digitChar (c.toNat - '0'.toNat) = c := by
  obtain ⟨hlower, hupper⟩ : 48 ≤ c.toNat ∧ c.toNat ≤ 57 := Char.isDigit_iff_toNat.1 h
  have hvalue : ∀ d < 10, Nat.digitChar d = Char.ofNat (48 + d) := by decide
  have hlt : c.toNat - 48 < 10 := by omega
  refine ⟨hlt, ?_⟩
  have hsum : 48 + (c.toNat - 48) = c.toNat := by omega
  exact (hvalue _ hlt).trans (by rw [hsum, Char.ofNat_toNat])

/-- **A number above zero begins with no zero.** -/
theorem head?_ofNat_ne_zero {n : Nat} (hn : 0 < n) : (ofNat n).head? ≠ some '0' := by
  induction n using Nat.strongRecOn with
  | ind n ih =>
    rcases Nat.lt_or_ge n 10 with hlt | hge
    · have hdigits : ∀ d < 10, 0 < d → Nat.digitChar d ≠ '0' := by decide
      rw [ofNat, Nat.toDigits_of_lt_base hlt]
      simpa using hdigits n hlt hn
    · -- the number begins as it does without its last digit
      have hfront : ofNat n = ofNat (n / 10) ++ [Nat.digitChar (n % 10)] :=
        Nat.toDigits_of_base_le (by decide) hge
      rw [hfront, List.head?_append_of_ne_nil _ ofNat_ne_nil]
      exact ih (n / 10) (by omega) (by omega)

/-- The value of a run with one more digit. -/
theorem value_append_digit (digits : Text) (c : Char) :
    value (digits ++ [c]) = 10 * value digits + (c.toNat - '0'.toNat) := by
  simp [value, Nat.ofDigitChars_append, Nat.ofDigitChars_cons]

/-- Zeros in front of a run do not change its value. -/
theorem value_zeros_append (zeros : Nat) (digits : Text) :
    value (List.replicate zeros '0' ++ digits) = value digits := by
  induction zeros with
  | zero => rfl
  | succ zeros ih => simpa [value, List.replicate_succ, Nat.ofDigitChars_cons] using ih

/-- **A run that begins with no zero is what its value is written as.** -/
theorem ofNat_value (hd : ∀ c ∈ digits, c.isDigit) (hne : digits ≠ [])
    (hhead : digits.head? ≠ some '0') : ofNat (value digits) = digits ∧ 0 < value digits := by
  -- digit after digit, from the front
  induction digits using List.reverseRecOn with
  | nil => exact absurd rfl hne
  | append_singleton digits c ih =>
    obtain ⟨hlt, hc⟩ := digitChar_of_isDigit (hd c (by simp))
    rw [value_append_digit]
    by_cases hempty : digits = []
    · subst hempty
      have hpos : c.toNat - '0'.toNat ≠ 0 := by
        intro hzero
        rw [hzero] at hc
        exact hhead (by simp [← hc])
      have hvalue : 10 * value [] + (c.toNat - '0'.toNat) = c.toNat - '0'.toNat := by
        simp [value]
      rw [hvalue, ofNat, Nat.toDigits_of_lt_base hlt, hc]
      exact ⟨rfl, Nat.pos_of_ne_zero hpos⟩
    · rw [List.head?_append_of_ne_nil _ hempty] at hhead
      obtain ⟨hfront, hpos⟩ := ih (fun c h => hd c (by simp [h])) hempty hhead
      rw [← ofNat_append_digit hpos hlt, hfront, hc]
      exact ⟨rfl, by omega⟩

/-- A run of digits is zeros in front of a run that begins with none. -/
theorem exists_zeros (digits : Text) :
    ∃ zeros rest, digits = List.replicate zeros '0' ++ rest ∧ rest.head? ≠ some '0' := by
  induction digits with
  | nil => exact ⟨0, [], rfl, by simp⟩
  | cons c digits ih =>
    by_cases hc : c = '0'
    · obtain ⟨zeros, rest, rfl, hrest⟩ := ih
      exact ⟨zeros + 1, rest, by simp [hc, List.replicate_succ], hrest⟩
    · exact ⟨0, c :: digits, rfl, by simpa using hc⟩

/-- **Runs of the same value differ only in the zeros in front.** -/
theorem exists_zeros_of_value_eq (hd : ∀ c ∈ digits, c.isDigit) (ho : ∀ c ∈ others, c.isDigit)
    (h : value digits = value others) :
    ∃ zeros zeros' rest, (∀ c ∈ rest, c.isDigit) ∧ digits = List.replicate zeros '0' ++ rest ∧
      others = List.replicate zeros' '0' ++ rest := by
  obtain ⟨zeros, rest, rfl, hrest⟩ := exists_zeros digits
  obtain ⟨zeros', rest', rfl, hrest'⟩ := exists_zeros others
  rw [value_zeros_append, value_zeros_append] at h
  have hd : ∀ c ∈ rest, c.isDigit := fun c hc => hd c (by simp [hc])
  have ho : ∀ c ∈ rest', c.isDigit := fun c hc => ho c (by simp [hc])
  have hnil : value [] = 0 := rfl
  -- a run without zeros in front is empty, or its value tells all of it
  have hsame : rest = rest' := by
    by_cases hne : rest = [] <;> by_cases hne' : rest' = []
    · rw [hne, hne']
    · have hpos := (ofNat_value ho hne' hrest').2
      rw [← h, hne, hnil] at hpos
      omega
    · have hpos := (ofNat_value hd hne hrest).2
      rw [h, hne', hnil] at hpos
      omega
    · rw [← (ofNat_value hd hne hrest).1, h, (ofNat_value ho hne' hrest').1]
  exact ⟨zeros, zeros', rest, hd, rfl, by rw [hsame]⟩

end Decimal

end TeachAsm
