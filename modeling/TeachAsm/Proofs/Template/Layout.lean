import TeachAsm.Proofs.Template.Language
import TeachAsm.Proofs.Text.Numeral
/-!
# Lines that differ in layout

A line may be laid out in more than one way: where the form has a blank it has
one or none, and a number may have zeros in front. `Template.Alike` says of two
lines that they differ in nothing else. Lines with the same captures do
(`alike_of_spells`).
-/

namespace TeachAsm

/-- One blank, or none. -/
def Text.IsGap (t : Text) : Prop :=
  t.length ≤ 1 ∧ ∀ c ∈ t, isBlank c

theorem Text.isGap_iff {t : Text} : t.IsGap ↔ t = [] ∨ ∃ c, t = [c] ∧ isBlank c := by
  constructor
  · rintro ⟨hlength, hblank⟩
    match t with
    | [] => exact .inl rfl
    | [c] => exact .inr ⟨c, rfl, hblank c List.mem_cons_self⟩
    | _ :: _ :: _ => simp at hlength
  · rintro (rfl | ⟨c, rfl, hc⟩)
    · exact ⟨Nat.zero_le 1, by simp⟩
    · exact ⟨Nat.le_refl 1, by simpa using hc⟩

/-- Two texts of a piece that differ in layout only. -/
inductive Piece.Alike : Piece → Text → Text → Prop
  | literal (c : Char) : Alike (.literal c) [c] [c]
  | blank (c : Char) {gap gap' : Text} (hgap : Text.IsGap gap) (hgap' : Text.IsGap gap') :
      Alike (.blank c) gap gap'
  /-- The same number, behind the same sign, with zeros in front of it. -/
  | number {p : Placeholder} {sign digits : Text} (hsign : ∀ c ∈ sign, c.isDigit = false)
      (hdigits : ∀ c ∈ digits, c.isDigit) (zeros zeros' : Nat) :
      Alike (.hole p) (sign ++ List.replicate zeros '0' ++ digits)
        (sign ++ List.replicate zeros' '0' ++ digits)
  | name (t : Text) : Alike (.hole .label) t t

/-- **Two texts of a template that differ in layout only**: in the blanks at
its blanks, and in the zeros in front of its numbers. -/
inductive Template.Alike : Template → Text → Text → Prop
  | nil : Alike [] [] []
  | cons {piece : Piece} {pieces : Template} {t t' u u' : Text} (h : piece.Alike t t')
      (hs : Alike pieces u u') : Alike (piece :: pieces) (t ++ u) (t' ++ u')

/-- Numbers of the same value differ in the zeros in front of them. -/
theorem Piece.alike_of_value_eq {p : Placeholder} (sign : Text) {digits digits' : Text}
    (hsign : ∀ c ∈ sign, c.isDigit = false) (hd : Decimal.IsNumeral digits)
    (hd' : Decimal.IsNumeral digits') (h : Decimal.value digits = Decimal.value digits') :
    (Piece.hole p).Alike (sign ++ digits) (sign ++ digits') := by
  obtain ⟨zeros, zeros', rest, hrest, rfl, rfl⟩ :=
    Decimal.exists_zeros_of_value_eq hd.2 hd'.2 h
  have halike := Piece.Alike.number (p := p) hsign hrest zeros zeros'
  rwa [List.append_assoc, List.append_assoc] at halike

/-- Texts of a placeholder with the same capture differ in layout only. -/
theorem Placeholder.alike_of_spells {p : Placeholder} {t t' : Text} {capture : Capture}
    (h : p.Spells t capture) (h' : p.Spells t' capture) : (Piece.hole p).Alike t t' := by
  -- a capture is the value of the digits, and the values are in range
  have register {n n' : Nat} (hn : n < UInt32.size) (hn' : n' < UInt32.size)
      (heq : UInt32.ofNat n = UInt32.ofNat n') : n = n' := by
    have hnat := congrArg UInt32.toNat heq
    rwa [UInt32.toNat_ofNat_of_lt' hn, UInt32.toNat_ofNat_of_lt' hn'] at hnat
  have address {n n' : Nat} (hn : n < UInt64.size) (hn' : n' < UInt64.size)
      (heq : UInt64.ofNat n = UInt64.ofNat n') : n = n' := by
    have hnat := congrArg UInt64.toNat heq
    rwa [UInt64.toNat_ofNat_of_lt' hn, UInt64.toNat_ofNat_of_lt' hn'] at hnat
  have immediate {n n' : Nat} (hn : n < Word.bound) (hn' : n' < Word.bound)
      (heq : Int32.ofNat n = Int32.ofNat n') : n = n' := by
    have hint := congrArg Int32.toInt heq
    rw [Int32.toInt_ofNat_of_lt hn, Int32.toInt_ofNat_of_lt hn'] at hint
    exact Int.ofNat_inj.1 hint
  generalize hcapture : capture = other at h'
  cases h with
  | register hd hv =>
    cases h' with
    | register hd' hv' =>
      exact Piece.alike_of_value_eq ['R'] (List.forall_mem_singleton.2 rfl) hd hd'
        (register hv hv' (Capture.register.inj hcapture))
  | memory hd hv =>
    cases h' with
    | memory hd' hv' =>
      exact Piece.alike_of_value_eq [] (by simp) hd hd'
        (address hv hv' (Capture.address.inj hcapture))
  | operandRegister hd hv =>
    cases h' with
    | operandRegister hd' hv' =>
      exact Piece.alike_of_value_eq ['R'] (List.forall_mem_singleton.2 rfl) hd hd'
        (register hv hv' (Operand.register.inj (Capture.operand.inj hcapture)))
    | operandImmediate => cases hcapture
  | operandImmediate hd hv =>
    cases h' with
    | operandRegister => cases hcapture
    | operandImmediate hd' hv' =>
      exact Piece.alike_of_value_eq ['#'] (List.forall_mem_singleton.2 rfl) hd hd'
        (immediate hv hv' (Operand.immediate.inj (Capture.operand.inj hcapture)))
  | label hn =>
    cases h' with
    | label hn' =>
      rw [Capture.label.inj hcapture]
      exact .name _

namespace Piece

/-- A piece has as many captures in each of its texts. -/
theorem length_captures_of_spells {piece : Piece} {t t' : Text} {captures captures' : Captures}
    (h : piece.Spells t captures) (h' : piece.Spells t' captures') :
    captures.length = captures'.length := by
  cases h <;> cases h' <;> rfl

/-- The texts of a blank are the gaps. -/
theorem spells_blank_iff {c : Char} {t : Text} {captures : Captures} :
    (blank c).Spells t captures ↔ t.IsGap ∧ captures = [] := by
  rw [Text.isGap_iff]
  constructor
  · intro h
    cases h with
    | blank _ hd => exact ⟨.inr ⟨_, rfl, hd⟩, rfl⟩
    | noBlank => exact ⟨.inl rfl, rfl⟩
  · rintro ⟨rfl | ⟨d, rfl, hd⟩, rfl⟩
    · exact .noBlank c
    · exact .blank c hd

theorem alike_of_spells {piece : Piece} {t t' : Text} {captures : Captures}
    (h : piece.Spells t captures) (h' : piece.Spells t' captures) : piece.Alike t t' := by
  cases piece with
  | literal c =>
    cases h
    cases h'
    exact .literal c
  | blank c => exact .blank c (spells_blank_iff.1 h).1 (spells_blank_iff.1 h').1
  | hole p =>
    obtain _ | _ | _ | h := h
    cases h' with
    | hole h' => exact Placeholder.alike_of_spells h h'

end Piece

/-- **Texts of a template with the same captures differ in layout only.** -/
theorem Template.alike_of_spells {template : Template} {t t' : Text} {captures : Captures}
    (h : template.Spells t captures) (h' : template.Spells t' captures) :
    template.Alike t t' := by
  induction h generalizing t' with
  | nil =>
    cases h'
    exact .nil
  | @cons piece pieces t u captures others hpiece _ ih =>
    generalize hall : captures ++ others = all at h'
    cases h' with
    | @cons _ _ t' u' captures' others' hpiece' hpieces' =>
      -- the first piece takes as many captures in both texts
      obtain ⟨rfl, rfl⟩ := List.append_inj hall (Piece.length_captures_of_spells hpiece hpiece')
      exact .cons (Piece.alike_of_spells hpiece hpiece') (ih hpieces')

end TeachAsm
