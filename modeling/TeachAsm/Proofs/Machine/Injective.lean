import TeachAsm.Proofs.Machine.Image
/-!
# Different contents are written differently

A machine can be told from what is written of it. Memory is read back from its text,
and so two memories with one text are the same. Registers are not read anywhere, but
their text can be taken apart at its commas (`Text.eq_of_intercalate_comma_space`): the
parts that start with an `R` are the entries, and a part that does not is the flag
(`Registers.text_injective`). Nothing that is written of a machine goes over the end of
a line.
-/

namespace TeachAsm

/-! ## Numbers -/

namespace Decimal

theorem ofNat_injective : Function.Injective ofNat :=
  Function.LeftInverse.injective value_ofNat

theorem ofInt_injective : Function.Injective ofInt := by
  intro z y h
  have hread := Image.integer?_ofInt z
  rw [h, Image.integer?_ofInt] at hread
  exact (Option.some.inj hread).symm

theorem newline_notMem_ofNat (n : Nat) : '\n' ∉ ofNat n :=
  fun h => absurd (isDigit_of_mem_ofNat h) (by decide)

end Decimal

theorem Word.decimal_injective : Function.Injective Word.decimal :=
  fun _ _ h => Int32.toInt_inj.1 (Decimal.ofInt_injective h)

/-! ## Parts between commas -/

/-- **Parts are told from the text that they are put together to**, if none of them is
empty or holds a comma. -/
theorem Text.eq_of_intercalate_comma_space {parts others : List Text}
    (hparts : ∀ part ∈ parts, part ≠ [] ∧ ',' ∉ part)
    (hothers : ∀ part ∈ others, part ≠ [] ∧ ',' ∉ part)
    (h : ", ".toList.intercalate parts = ", ".toList.intercalate others) : parts = others := by
  -- what stands between two commas is a part, with a space in front but for the first
  have hcut {first : Text} {rest : List Text}
      (hall : ∀ part ∈ first :: rest, part ≠ [] ∧ ',' ∉ part) :
      (", ".toList.intercalate (first :: rest)).splitOn ',' = first :: rest.map (' ' :: ·) := by
    rw [Image.intercalate_comma_space]
    refine List.splitOn_intercalate ',' (fun part hpart => ?_) (List.cons_ne_nil _ _)
    rcases List.mem_cons.1 hpart with rfl | hpart
    · exact (hall _ List.mem_cons_self).2
    · obtain ⟨other, hother, rfl⟩ := List.mem_map.1 hpart
      simpa using (hall other (List.mem_cons_of_mem _ hother)).2
  have hnone {first : Text} {rest : List Text}
      (hall : ∀ part ∈ first :: rest, part ≠ [] ∧ ',' ∉ part) :
      ", ".toList.intercalate (first :: rest) ≠ [] := by
    intro hnil
    have hpieces := hcut hall
    rw [hnil, List.splitOn_nil] at hpieces
    exact (hall first List.mem_cons_self).1 (List.cons.inj hpieces).1.symm
  cases parts with
  | nil =>
    cases others with
    | nil => rfl
    | cons first rest => exact absurd h.symm (hnone hothers)
  | cons first rest =>
    cases others with
    | nil => exact absurd h (hnone hparts)
    | cons first' rest' =>
      have hpieces := congrArg (List.splitOn ',') h
      rw [hcut hparts, hcut hothers] at hpieces
      obtain ⟨rfl, hrest⟩ := List.cons.inj hpieces
      rw [List.map_injective_iff.2 (List.cons_injective (a := ' ')) hrest]

/-! ## Memory -/

namespace Memory

/-- **Different memories have different texts.** -/
theorem text_injective : Function.Injective text := by
  intro m m' h
  have hread := ofText?_text m
  rw [h, ofText?_text] at hread
  exact (Option.some.inj hread).symm

theorem newline_notMem_text (m : Memory) : '\n' ∉ m.text := by
  intro h
  rcases mem_or_isDigit_of_mem_text h with h | h
  · exact absurd h (by decide)
  · exact absurd h (by decide)

end Memory

/-! ## Registers -/

namespace Registers

variable {rs others : Registers}

/-- The parts of the text of registers. -/
def parts (rs : Registers) : List Text :=
  rs.entries.map entryText ++ flagText rs.flag

/-- The number of a register goes as far as the colon, and its contents stand behind
that. -/
theorem entryText_injective : Function.Injective entryText := by
  rintro ⟨r, w⟩ ⟨q, v⟩ h
  have hdigits (n : Nat) : ∀ c ∈ Decimal.ofNat n, c.isDigit :=
    fun c hc => Decimal.isDigit_of_mem_ofNat hc
  have hcolon (w : Word) : ∀ c ∈ (": ".toList ++ w.decimal).head?, c.isDigit = false := by simp
  have htail := (List.cons.inj h).2
  simp only [List.append_assoc] at htail
  have hnumber := congrArg (List.takeWhile Char.isDigit) htail
  have hcontents := congrArg (List.dropWhile Char.isDigit) htail
  rw [Text.takeWhile_append_of_stop (hdigits _) (hcolon _),
    Text.takeWhile_append_of_stop (hdigits _) (hcolon _)] at hnumber
  rw [Text.dropWhile_append_of_stop (hdigits _) (hcolon _),
    Text.dropWhile_append_of_stop (hdigits _) (hcolon _)] at hcontents
  rw [UInt32.toNat_inj.1 (Decimal.ofNat_injective hnumber),
    Word.decimal_injective (List.append_cancel_left hcontents)]

theorem flagText_injective : Function.Injective flagText := by
  intro flag flag' h
  have hcode (f g : Flag) (h : f.code.toList = g.code.toList) : f = g := by
    cases f <;> cases g <;> simp_all [Flag.code]
  cases flag with
  | none =>
    cases flag' with
    | none => rfl
    | some flag' => cases h
  | some flag =>
    cases flag' with
    | none => cases h
    | some flag' => rw [hcode _ _ (List.append_cancel_left (List.cons.inj h).1)]

/-- Whether a part of the text of registers is that of an entry. -/
def isEntry (part : Text) : Bool :=
  part.head? == some 'R'

/-- The entries are the parts that start with an `R`. -/
theorem filter_isEntry_parts (rs : Registers) :
    rs.parts.filter isEntry = rs.entries.map entryText := by
  have hentries : ∀ part ∈ rs.entries.map entryText, isEntry part := by
    intro part hpart
    obtain ⟨entry, -, rfl⟩ := List.mem_map.1 hpart
    rfl
  have hflag : (flagText rs.flag).filter isEntry = [] := by
    rcases rs.flag with _ | _ | _ | _ <;> rfl
  rw [parts, List.filter_append, List.filter_eq_self.2 hentries, hflag, List.append_nil]

/-- **Registers are told from their parts**: which of them exist and what they hold, and
the flag or that it is unset. -/
theorem parts_injective : Function.Injective parts := by
  intro rs others h
  have hentries := congrArg (List.filter isEntry) h
  rw [filter_isEntry_parts, filter_isEntry_parts] at hentries
  rw [parts, parts, hentries] at h
  have hflag := flagText_injective (List.append_cancel_left h)
  obtain ⟨entries, ascending, flag⟩ := rs
  obtain ⟨entries', ascending', flag'⟩ := others
  obtain rfl : entries = entries' := List.map_injective_iff.2 entryText_injective hentries
  obtain rfl : flag = flag' := hflag
  rfl

/-- The characters that an entry is written in. -/
theorem mem_or_isDigit_of_mem_entryText {entry : Register × Word} {c : Char}
    (h : c ∈ entryText entry) : c ∈ "R: -".toList ∨ c.isDigit := by
  rw [entryText, List.mem_cons, List.mem_append, List.mem_append] at h
  rcases h with rfl | (h | h) | h
  · exact .inl (by decide)
  · exact .inr (Decimal.isDigit_of_mem_ofNat h)
  · exact .inl ((by decide : ": ".toList ⊆ "R: -".toList) h)
  · rcases Decimal.eq_minus_or_isDigit_of_mem_ofInt h with rfl | h
    · exact .inl (by decide)
    · exact .inr h

/-- A part is not empty, and holds neither a comma nor a line feed. -/
theorem ne_nil_of_mem_parts {part : Text} (h : part ∈ rs.parts) :
    part ≠ [] ∧ ',' ∉ part ∧ '\n' ∉ part := by
  rcases List.mem_append.1 h with h | h
  · obtain ⟨entry, -, rfl⟩ := List.mem_map.1 h
    have hnot (c : Char) (hc : c ∉ "R: -".toList) (hdigit : c.isDigit = false) :
        c ∉ entryText entry := by
      intro hmem
      rcases mem_or_isDigit_of_mem_entryText hmem with h | h
      · exact hc h
      · rw [hdigit] at h
        cases h
    exact ⟨List.cons_ne_nil _ _, hnot _ (by decide) (by decide), hnot _ (by decide) (by decide)⟩
  · rcases hflag : rs.flag with _ | flag
    · rw [hflag] at h
      cases h
    · rw [hflag] at h
      obtain rfl := List.mem_singleton.1 h
      cases flag <;> decide

/-- **Different registers have different texts.** -/
theorem text_injective : Function.Injective text := by
  intro rs others h
  have hbody := List.append_cancel_right (List.cons.inj h).2
  refine parts_injective (Text.eq_of_intercalate_comma_space (fun part hpart => ?_)
    (fun part hpart => ?_) hbody)
  · exact (ne_nil_of_mem_parts hpart).imp_right And.left
  · exact (ne_nil_of_mem_parts hpart).imp_right And.left

theorem newline_notMem_text (rs : Registers) : '\n' ∉ rs.text := by
  intro h
  rw [text, List.mem_cons, List.mem_append, List.mem_singleton] at h
  rcases h with h | h | h
  · exact absurd h (by decide)
  · rcases Image.mem_of_mem_intercalate h with h | ⟨part, hpart, h⟩
    · exact absurd h (by decide)
    · exact (ne_nil_of_mem_parts hpart).2.2 h
  · exact absurd h (by decide)

end Registers

end TeachAsm
