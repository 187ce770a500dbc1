import TeachAsm.Machine.Image
import TeachAsm.Proofs.Text.Numeral
/-!
# Reading a written image

What memory is written as is read back as that memory, whatever its words are
(`Memory.ofText?_text`). The text is cut at its commas into the elements that
were written, each behind a space but the first; an element is a number in the
form that reading asks for, without a zero in front and without a sign on zero.
-/

namespace TeachAsm

/-! ## Integers -/

namespace Decimal

/-- An integer is written in digits, with a `-` in front or not. -/
theorem eq_minus_or_isDigit_of_mem_ofInt {z : Int} {c : Char} (h : c ∈ ofInt z) :
    c = '-' ∨ c.isDigit := by
  cases z with
  | ofNat n => exact .inr (isDigit_of_mem_ofNat h)
  | negSucc n =>
    rcases List.mem_cons.1 h with rfl | h
    · exact .inl rfl
    · exact .inr (isDigit_of_mem_ofNat h)

theorem ofInt_ne_nil {z : Int} : ofInt z ≠ [] := by
  cases z with
  | ofNat n => exact ofNat_ne_nil
  | negSucc n => exact List.cons_ne_nil _ _

/-- A character that is no digit and no `-` stands in no integer. -/
theorem notMem_ofInt {z : Int} {c : Char} (hminus : c ≠ '-') (hdigit : c.isDigit = false) :
    c ∉ ofInt z := by
  intro h
  rcases eq_minus_or_isDigit_of_mem_ofInt h with rfl | hc
  · exact hminus rfl
  · rw [hdigit] at hc
    cases hc

end Decimal

namespace Image

open Decimal

theorem natural?_ofNat (n : Nat) : natural? (ofNat n) = some n := by
  rcases Nat.eq_zero_or_pos n with rfl | hn
  · rfl
  have hhead := head?_ofNat_ne_zero hn
  have hdigits : (ofNat n).all Char.isDigit :=
    List.all_eq_true.2 fun c hc => isDigit_of_mem_ofNat hc
  -- above zero there is no zero in front, and so the digits are read as they are
  unfold natural?
  split
  · next heq => rw [heq] at hhead; exact absurd rfl hhead
  · next heq => rw [heq] at hhead; exact absurd rfl hhead
  · rw [if_pos ⟨ofNat_ne_nil, hdigits⟩, value_ofNat]

theorem integer?_ofInt (z : Int) : integer? (ofInt z) = some z := by
  cases z with
  | ofNat n =>
    unfold integer?
    split
    · next digits heq =>
      have hminus : '-' ∈ ofNat n := by
        change ofNat n = '-' :: digits at heq
        simp [heq]
      exact absurd (isDigit_of_mem_ofNat hminus) (by decide)
    · simp [ofInt, natural?_ofNat]
  | negSucc n => simp [ofInt, integer?, natural?_ofNat]

/-! ## Words -/

/-- A space stands in no integer. -/
theorem isSpace_of_mem_ofInt {z : Int} {c : Char} (h : c ∈ ofInt z) : isSpace c = false := by
  rcases eq_minus_or_isDigit_of_mem_ofInt h with rfl | hc
  · rfl
  · by_contra hspace
    simp only [isSpace, Bool.not_eq_false, Bool.or_eq_true, beq_iff_eq] at hspace
    rcases hspace with ((rfl | rfl) | rfl) | rfl <;> exact absurd hc (by decide)

theorem ofInt?_toInt (w : Word) : Word.ofInt? w.toInt = some w := by
  rw [Word.ofInt?, if_pos ⟨Int32.minValue_le_toInt w, Int32.toInt_le w⟩, Int32.ofInt_toInt]

/-- **An element is read as the word that it writes**, with spaces in front of
it or without. -/
theorem word?_append_decimal (spaces : Text) (hspaces : ∀ c ∈ spaces, isSpace c) (w : Word) :
    word? (spaces ++ w.decimal) = some w := by
  have hends : Text.strip isSpace w.decimal = w.decimal :=
    Text.strip_eq_self (fun c hc => isSpace_of_mem_ofInt (List.mem_of_mem_head? hc))
      (fun c hc => isSpace_of_mem_ofInt (List.mem_of_mem_getLast? hc))
  rw [word?, Text.strip_append hspaces, hends, Word.decimal, integer?_ofInt, Option.bind_some,
    ofInt?_toInt]

/-! ## Arrays -/

/-- The elements of an array, as they stand between its commas. -/
def elements : List Word → List Text
  | [] => []
  | w :: words => w.decimal :: words.map fun w => ' ' :: w.decimal

/-- A text that is put between separators keeps its first character in front. -/
theorem intercalate_cons (separator : Text) (c : Char) (t : Text) (ts : List Text) :
    separator.intercalate ((c :: t) :: ts) = c :: separator.intercalate (t :: ts) := by
  cases ts <;> rfl

/-- What stands in a text that is put together stands in one of its parts. -/
theorem mem_of_mem_intercalate {separator : Text} {ts : List Text} {c : Char}
    (h : c ∈ separator.intercalate ts) : c ∈ separator ∨ ∃ t ∈ ts, c ∈ t := by
  induction ts with
  | nil => simp [List.intercalate] at h
  | cons t ts ih =>
    cases ts with
    | nil => exact .inr ⟨t, by simp, by simpa [List.intercalate] using h⟩
    | cons u ts =>
      rw [List.intercalate_cons_cons, List.append_assoc, List.mem_append, List.mem_append] at h
      rcases h with h | h | h
      · exact .inr ⟨t, List.mem_cons_self, h⟩
      · exact .inl h
      · rcases ih h with h | ⟨part, hpart, h⟩
        · exact .inl h
        · exact .inr ⟨part, List.mem_cons_of_mem _ hpart, h⟩

/-- The space behind a comma may be taken to be part of the next element. -/
theorem intercalate_comma_space (t : Text) (ts : List Text) :
    ", ".toList.intercalate (t :: ts) = [','].intercalate (t :: ts.map (' ' :: ·)) := by
  have hspace : ", ".toList = [',', ' '] := rfl
  rw [hspace]
  induction ts generalizing t with
  | nil => rfl
  | cons u ts ih =>
    rw [List.map_cons, List.intercalate_cons_cons, List.intercalate_cons_cons, ih,
      intercalate_cons]
    simp

theorem intercalate_decimal (words : List Word) :
    ", ".toList.intercalate (words.map Word.decimal) = [','].intercalate (elements words) := by
  cases words with
  | nil => rfl
  | cons w words =>
    have h := intercalate_comma_space w.decimal (words.map Word.decimal)
    rwa [List.map_map] at h

/-- There is no comma inside an element. -/
theorem comma_notMem_elements (words : List Word) : ∀ t ∈ elements words, ',' ∉ t := by
  have hdecimal (w : Word) : ',' ∉ w.decimal := notMem_ofInt (by decide) (by decide)
  cases words with
  | nil => simp [elements]
  | cons w words =>
    intro t ht
    rcases List.mem_cons.1 ht with rfl | ht
    · exact hdecimal w
    · obtain ⟨v, -, rfl⟩ := List.mem_map.1 ht
      simpa using hdecimal v

theorem mapM_word?_elements (words : List Word) : (elements words).mapM word? = some words := by
  have hspaced : ∀ words : List Word,
      (words.map fun w => ' ' :: w.decimal).mapM word? = some words := by
    intro words
    induction words with
    | nil => rfl
    | cons w words ih =>
      have hw : word? (' ' :: w.decimal) = some w :=
        word?_append_decimal [' '] (List.forall_mem_singleton.2 rfl) w
      rw [List.map_cons, List.mapM_cons, hw, ih]
      rfl
  cases words with
  | nil => rfl
  | cons w words =>
    have hw : word? w.decimal = some w := word?_append_decimal [] (by simp) w
    rw [elements, List.mapM_cons, hw, hspaced]
    rfl

end Image

/-! ## Memory -/

namespace Memory

theorem getLast?_text (m : Memory) : m.text.getLast? = some ']' := by
  simp [text, List.getLast?_cons]

/-- **The characters of memory in writing.** -/
theorem mem_or_isDigit_of_mem_text {m : Memory} {c : Char} (h : c ∈ m.text) :
    c ∈ "[-, ]".toList ∨ c.isDigit := by
  rw [text, List.mem_cons, List.mem_append, List.mem_singleton] at h
  rcases h with rfl | h | rfl
  · exact .inl (by decide)
  · rcases Image.mem_of_mem_intercalate h with h | ⟨t, ht, h⟩
    · exact .inl ((by decide : ", ".toList ⊆ "[-, ]".toList) h)
    · obtain ⟨w, -, rfl⟩ := List.mem_map.1 ht
      rcases Decimal.eq_minus_or_isDigit_of_mem_ofInt h with rfl | h
      · exact .inl (by decide)
      · exact .inr h
  · exact .inl (by decide)

/-- What stands between the brackets. -/
theorem body?_text (m : Memory) :
    Image.body? m.text = some (", ".toList.intercalate (m.words.toList.map Word.decimal)) := by
  have hends : Text.strip Image.isSpace m.text = m.text := by
    refine Text.strip_eq_self (fun c hc => ?_) (fun c hc => ?_)
    · obtain rfl : '[' = c := Option.some.inj hc
      rfl
    · obtain rfl : ']' = c := Option.some.inj (m.getLast?_text.symm.trans hc)
      rfl
  rw [Image.body?, hends, text]
  simp

/-- **Memory is read back from its text.** -/
theorem ofText?_text (m : Memory) : ofText? m.text = some m := by
  obtain ⟨⟨words⟩⟩ := m
  simp only [ofText?, body?_text, Option.bind_eq_bind, Option.bind_some]
  rw [Image.intercalate_decimal]
  cases words with
  | nil => rfl
  | cons w words =>
    -- the array is not blank, as its first element is not
    have hblank : ¬ ([','].intercalate (Image.elements (w :: words))).all Image.isSpace := by
      obtain ⟨c, rest, hw⟩ := List.exists_cons_of_ne_nil (@Decimal.ofInt_ne_nil w.toInt)
      have hc : Image.isSpace c = false :=
        Image.isSpace_of_mem_ofInt (hw ▸ List.mem_cons_self)
      rw [Image.elements, Word.decimal, hw, Image.intercalate_cons, List.all_cons, hc]
      simp
    have hcut := List.splitOn_intercalate ',' (Image.comma_notMem_elements (w :: words))
      (List.cons_ne_nil _ _)
    rw [if_neg hblank, hcut, Image.mapM_word?_elements]
    rfl

end Memory

end TeachAsm
