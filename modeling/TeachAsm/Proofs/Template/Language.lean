import Mathlib.Data.List.TakeWhile
import TeachAsm.Template.Reading
/-!
# The language of a template

A template stands for a set of texts: a literal for its character, a blank for
one blank or none, a placeholder for the texts of its kind. `Template.Spells`
says which texts these are and which captures each one has, without saying how
a text is read. Reading is sound for it (`exists_spells_of_front?`): what a
template reads at the front of a text is one of its texts. What is asked of
reading elsewhere follows from two facts about the language: which characters
its texts are made of (`exists_takes_of_mem`), and that they begin and end
without a blank (`exists_cons_of_opens`, `exists_concat_of_closes`).
-/

namespace TeachAsm

/-- A run of digits, at least one. -/
def Decimal.IsNumeral (t : Text) : Prop :=
  t ≠ [] ∧ ∀ c ∈ t, c.isDigit

/-- A run of name characters, at least one. -/
def Text.IsName (t : Text) : Prop :=
  t ≠ [] ∧ ∀ c ∈ t, Text.isWordChar c

/-- The texts of a placeholder, each with the capture it stands for. Leading
zeros are free; a value has to fit. -/
inductive Placeholder.Spells : Placeholder → Text → Capture → Prop
  | register {digits : Text} (hd : Decimal.IsNumeral digits)
      (hv : Decimal.value digits < UInt32.size) :
      Spells .register ('R' :: digits) (.register (UInt32.ofNat (Decimal.value digits)))
  | memory {digits : Text} (hd : Decimal.IsNumeral digits)
      (hv : Decimal.value digits < UInt64.size) :
      Spells .memory digits (.address (UInt64.ofNat (Decimal.value digits)))
  | operandRegister {digits : Text} (hd : Decimal.IsNumeral digits)
      (hv : Decimal.value digits < UInt32.size) :
      Spells .operand ('R' :: digits) (.operand (.register (UInt32.ofNat (Decimal.value digits))))
  | operandImmediate {digits : Text} (hd : Decimal.IsNumeral digits)
      (hv : Decimal.value digits < Word.bound) :
      Spells .operand ('#' :: digits) (.operand (.immediate (Int32.ofNat (Decimal.value digits))))
  | label {name : Text} (hn : Text.IsName name) : Spells .label name (.label name)

/-- The texts of a piece, each with its captures. -/
inductive Piece.Spells : Piece → Text → Captures → Prop
  | literal (c : Char) : Spells (.literal c) [c] []
  | blank (c : Char) {d : Char} (hd : Text.isBlank d) : Spells (.blank c) [d] []
  | noBlank (c : Char) : Spells (.blank c) [] []
  | hole {p : Placeholder} {t : Text} {capture : Capture} (h : p.Spells t capture) :
      Spells (.hole p) t [capture]

/-- The texts of a template, each with its captures: the texts of its pieces,
one behind the other. -/
inductive Template.Spells : Template → Text → Captures → Prop
  | nil : Spells [] [] []
  | cons {piece : Piece} {pieces : Template} {t u : Text} {captures others : Captures}
      (h : piece.Spells t captures) (hs : Spells pieces u others) :
      Spells (piece :: pieces) (t ++ u) (captures ++ others)

/-! ## What is read is in the language -/

namespace Decimal

/-- A number is read off a run of digits. -/
theorem exists_isNumeral_of_front? {bound n : Nat} {t rest : Text}
    (h : front? bound t = some (n, rest)) :
    ∃ digits, t = digits ++ rest ∧ IsNumeral digits ∧ value digits < bound ∧ n = value digits := by
  simp only [front?] at h
  split at h
  · next hcond =>
    obtain ⟨rfl, rfl⟩ := Prod.mk.inj (Option.some.inj h)
    refine ⟨t.takeWhile Char.isDigit, (List.takeWhile_append_dropWhile).symm, ?_, hcond.2, rfl⟩
    exact ⟨hcond.1, fun c hc => List.mem_takeWhile_imp hc⟩
  · simp at h

end Decimal

namespace Placeholder

theorem exists_spells_of_register? {t rest : Text} {r : Register}
    (h : register? t = some (r, rest)) :
    ∃ digits, t = 'R' :: digits ++ rest ∧ Decimal.IsNumeral digits ∧
      Decimal.value digits < UInt32.size ∧ r = UInt32.ofNat (Decimal.value digits) := by
  unfold register? at h
  split at h
  · obtain ⟨n, hn, rfl⟩ := exists_of_map_read h
    obtain ⟨digits, rfl, hd, hv, rfl⟩ := Decimal.exists_isNumeral_of_front? hn
    exact ⟨digits, rfl, hd, hv, rfl⟩
  · simp at h

theorem exists_spells_of_operand? {t rest : Text} {o : Operand}
    (h : operand? t = some (o, rest)) :
    ∃ body, t = body ++ rest ∧ Spells .operand body (.operand o) := by
  unfold operand? at h
  split at h
  · obtain ⟨n, hn, rfl⟩ :=
      @exists_of_map_read _ _ _ (fun n => Operand.immediate (Int32.ofNat n)) _ _ h
    obtain ⟨digits, rfl, hd, hv, rfl⟩ := Decimal.exists_isNumeral_of_front? hn
    exact ⟨'#' :: digits, rfl, .operandImmediate hd hv⟩
  · obtain ⟨r, hr, rfl⟩ := exists_of_map_read h
    obtain ⟨digits, rfl, hd, hv, rfl⟩ := exists_spells_of_register? hr
    exact ⟨'R' :: digits, rfl, .operandRegister hd hv⟩

/-- A name is read off a run of name characters. -/
theorem exists_isName_of_name? {t name rest : Text} (h : name? t = some (name, rest)) :
    t = name ++ rest ∧ Text.IsName name := by
  unfold name? at h
  split at h
  · simp at h
  · next hne =>
    obtain ⟨rfl, rfl⟩ := Prod.mk.inj (Option.some.inj h)
    exact ⟨(List.takeWhile_append_dropWhile).symm, hne, fun c hc => List.mem_takeWhile_imp hc⟩

/-- A placeholder reads one of its texts. -/
theorem exists_spells_of_read? {p : Placeholder} {t rest : Text} {capture : Capture}
    (h : p.read? t = some (capture, rest)) : ∃ body, t = body ++ rest ∧ p.Spells body capture := by
  cases p with
  | register =>
    obtain ⟨r, hr, rfl⟩ := exists_of_map_read h
    obtain ⟨digits, rfl, hd, hv, rfl⟩ := exists_spells_of_register? hr
    exact ⟨'R' :: digits, rfl, .register hd hv⟩
  | memory =>
    obtain ⟨a, ha, rfl⟩ := exists_of_map_read h
    obtain ⟨n, hn, rfl⟩ := exists_of_map_read ha
    obtain ⟨digits, rfl, hd, hv, rfl⟩ := Decimal.exists_isNumeral_of_front? hn
    exact ⟨digits, rfl, .memory hd hv⟩
  | operand =>
    obtain ⟨o, ho, rfl⟩ := exists_of_map_read h
    exact exists_spells_of_operand? ho
  | label =>
    obtain ⟨name, hname, rfl⟩ := exists_of_map_read h
    obtain ⟨rfl, hn⟩ := exists_isName_of_name? hname
    exact ⟨name, rfl, .label hn⟩

end Placeholder

/-- A piece reads one of its texts. -/
theorem Piece.exists_spells_of_read? {piece : Piece} {t rest : Text} {captures : Captures}
    (h : piece.read? t = some (captures, rest)) :
    ∃ body, t = body ++ rest ∧ piece.Spells body captures := by
  cases piece with
  | literal c =>
    cases t with
    | nil => simp [read?] at h
    | cons d t =>
      simp only [read?] at h
      split at h
      · next hcd =>
        obtain ⟨rfl, rfl⟩ := Prod.mk.inj (Option.some.inj h)
        exact ⟨[c], by simp [hcd], .literal c⟩
      · simp at h
  | blank c =>
    cases t with
    | nil =>
      obtain ⟨rfl, rfl⟩ := Prod.mk.inj (Option.some.inj h)
      exact ⟨[], rfl, .noBlank c⟩
    | cons d t =>
      obtain ⟨rfl, hrest⟩ := Prod.mk.inj (Option.some.inj h)
      by_cases hd : Text.isBlank d
      · rw [if_pos hd] at hrest
        exact ⟨[d], by simp [hrest], .blank c hd⟩
      · rw [if_neg hd] at hrest
        exact ⟨[], by simp [hrest], .noBlank c⟩
  | hole p =>
    obtain ⟨capture, hc, rfl⟩ := @exists_of_map_read _ _ _ (fun c => [c]) _ _ h
    obtain ⟨body, rfl, hbody⟩ := Placeholder.exists_spells_of_read? hc
    exact ⟨body, rfl, .hole hbody⟩

namespace Template

/-- One piece after the other: what the front of a text is read as. -/
theorem front?_cons_eq_some_iff {piece : Piece} {pieces : Template} {t rest : Text}
    {captures : Captures} :
    front? (piece :: pieces) t = some (captures, rest) ↔
      ∃ first u others, piece.read? t = some (first, u) ∧
        front? pieces u = some (others, rest) ∧ captures = first ++ others := by
  simp only [front?, Option.bind_eq_bind, Option.bind_eq_some_iff]
  constructor
  · rintro ⟨⟨first, u⟩, hpiece, ⟨others, v⟩, hpieces, heq⟩
    obtain ⟨rfl, rfl⟩ := Prod.mk.inj (Option.some.inj heq)
    exact ⟨first, u, others, hpiece, hpieces, rfl⟩
  · rintro ⟨first, u, others, hpiece, hpieces, rfl⟩
    exact ⟨(first, u), hpiece, (others, rest), hpieces, rfl⟩

/-- **What a template reads is one of its texts**, with the captures it has
there. -/
theorem exists_spells_of_front? {template : Template} {t rest : Text} {captures : Captures}
    (h : template.front? t = some (captures, rest)) :
    ∃ body, t = body ++ rest ∧ template.Spells body captures := by
  induction template generalizing t captures with
  | nil =>
    obtain ⟨rfl, rfl⟩ := Prod.mk.inj (Option.some.inj h)
    exact ⟨[], rfl, .nil⟩
  | cons piece pieces ih =>
    obtain ⟨first, u, others, hpiece, hpieces, rfl⟩ := front?_cons_eq_some_iff.1 h
    obtain ⟨body, rfl, hbody⟩ := Piece.exists_spells_of_read? hpiece
    obtain ⟨tail, rfl, htail⟩ := ih hpieces
    exact ⟨body ++ tail, by simp, .cons hbody htail⟩

/-- A line that is read as a whole is a text of the template. -/
theorem spells_of_whole? {template : Template} {t : Text} {captures : Captures}
    (h : template.whole? t = some captures) : template.Spells t captures := by
  obtain ⟨body, rfl, hbody⟩ := exists_spells_of_front? (whole?_eq_some_iff.1 h)
  simpa using hbody

end Template

/-! ## The characters of a text, and the first of them -/

/-- Whether a character may stand in a text of a piece. -/
def Piece.takes : Piece → Char → Bool
  | literal c, d => d == c
  | blank _, d => Text.isBlank d
  | hole _, d => Text.isWordChar d || d == '#'

/-- Whether every text of a piece begins with a character that is not blank. -/
def Piece.opens : Piece → Bool
  | literal c => !Text.isBlank c
  | blank _ => false
  | hole _ => true

/-- A placeholder's texts are not empty, and made of name characters and `#`. -/
theorem Placeholder.takes_of_spells {p : Placeholder} {t : Text} {capture : Capture}
    (h : p.Spells t capture) : t ≠ [] ∧ ∀ c ∈ t, (Piece.hole p).takes c := by
  have digit : ∀ {digits : Text}, Decimal.IsNumeral digits →
      ∀ c ∈ digits, Text.isWordChar c := fun hd c hc => Text.isWordChar_of_isDigit (hd.2 c hc)
  cases h with
  | register hd | operandRegister hd | operandImmediate hd =>
    refine ⟨by simp, fun c hc => ?_⟩
    rcases List.mem_cons.1 hc with rfl | hc
    · decide
    · simp [Piece.takes, digit hd c hc]
  | memory hd => exact ⟨hd.1, fun c hc => by simp [Piece.takes, digit hd c hc]⟩
  | label hn => exact ⟨hn.1, fun c hc => by simp [Piece.takes, hn.2 c hc]⟩

theorem Piece.takes_of_spells {piece : Piece} {t : Text} {captures : Captures}
    (h : piece.Spells t captures) : ∀ c ∈ t, piece.takes c := by
  cases h with
  | literal c => simp [takes]
  | blank c hd => simpa [takes] using hd
  | noBlank c => simp
  | hole h => exact (Placeholder.takes_of_spells h).2

/-- No character of a hole's texts is blank. -/
theorem Piece.isBlank_of_takes_hole {p : Placeholder} {c : Char} (h : (hole p).takes c) :
    Text.isBlank c = false := by
  simp only [takes, Bool.or_eq_true, beq_iff_eq] at h
  rcases h with h | rfl
  · exact Text.isBlank_of_isWordChar h
  · decide

/-- The texts of a piece that opens are not empty, and have no blank at all. -/
theorem Piece.ne_nil_of_opens {piece : Piece} (ho : piece.opens) {t : Text}
    {captures : Captures} (h : piece.Spells t captures) :
    t ≠ [] ∧ ∀ c ∈ t, Text.isBlank c = false := by
  cases h with
  | literal c => simpa [opens] using ho
  | blank c hd => simp [opens] at ho
  | noBlank c => simp [opens] at ho
  | hole h =>
    obtain ⟨hne, htakes⟩ := Placeholder.takes_of_spells h
    exact ⟨hne, fun c hc => isBlank_of_takes_hole (htakes c hc)⟩

namespace Template

/-- **Each character of a template's texts is one of its pieces'.** -/
theorem exists_takes_of_mem {template : Template} {t : Text} {captures : Captures}
    (h : template.Spells t captures) : ∀ c ∈ t, ∃ piece ∈ template, piece.takes c := by
  induction h with
  | nil => simp
  | @cons piece pieces t u captures others hpiece _ ih =>
    intro c hc
    rcases List.mem_append.1 hc with hc | hc
    · exact ⟨piece, List.mem_cons_self, Piece.takes_of_spells hpiece c hc⟩
    · obtain ⟨other, hmem, htakes⟩ := ih c hc
      exact ⟨other, List.mem_cons_of_mem _ hmem, htakes⟩

/-- A template whose first piece opens has texts that begin without a blank. -/
theorem exists_cons_of_opens {template : Template} (ho : template.head?.any Piece.opens) {t : Text}
    {captures : Captures} (h : template.Spells t captures) :
    ∃ c rest, t = c :: rest ∧ Text.isBlank c = false := by
  cases h with
  | nil => simp at ho
  | cons hpiece _ =>
    obtain ⟨hne, hblank⟩ := Piece.ne_nil_of_opens (by simpa using ho) hpiece
    obtain ⟨c, rest, rfl⟩ := List.exists_cons_of_ne_nil hne
    exact ⟨c, rest ++ _, rfl, hblank c List.mem_cons_self⟩

/-- A template whose last piece opens has texts that end without a blank. -/
theorem exists_concat_of_closes {template : Template} (hc : template.getLast?.any Piece.opens)
    {t : Text} {captures : Captures} (h : template.Spells t captures) :
    ∃ front c, t = front ++ [c] ∧ Text.isBlank c = false := by
  induction h with
  | nil => simp at hc
  | @cons piece pieces t u captures others hpiece hpieces ih =>
    cases pieces with
    | nil =>
      cases hpieces
      obtain ⟨hne, hblank⟩ := Piece.ne_nil_of_opens (by simpa using hc) hpiece
      obtain ⟨front, c, rfl⟩ := (List.eq_nil_or_concat t).resolve_left hne
      exact ⟨front, c, by simp, hblank c (by simp)⟩
    | cons other pieces =>
      rw [List.getLast?_cons_cons] at hc
      obtain ⟨front, c, rfl, hblank⟩ := ih hc
      exact ⟨t ++ front, c, by simp, hblank⟩

end Template

end TeachAsm
