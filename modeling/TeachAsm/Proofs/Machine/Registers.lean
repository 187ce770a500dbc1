import Mathlib.Data.List.Sort
import TeachAsm.Proofs.Machine.Image
/-!
# What registers hold, and what their text shows

Registers are the same when each of them holds the same and the flag stands the same
(`eq_of_get?_eq`), since entries are kept in order; so writes to different registers may
change places.

A register is shown by its number between an `R` and a colon. Registers show the ones
that exist and no others (`shows_iff`): an `R` stands nowhere in their text but at the
front of an entry, and the digits behind it go as far as the colon, so that a register
is not found in the entry of another one whose number starts or ends alike.
-/

namespace TeachAsm

/-! ## Texts that are put together -/

namespace Text

variable {c : Char} {part separator rest t : Text} {parts : List Text}

/-- A suffix starts behind a part that its first character does not stand in. -/
theorem suffix_of_notMem (hpart : c ∉ part) (h : c :: rest <:+ part ++ t) : c :: rest <:+ t := by
  induction part with
  | nil => exact h
  | cons d part ih =>
    obtain ⟨hne, hpart⟩ := List.ne_and_not_mem_of_not_mem_cons hpart
    rcases List.suffix_cons_iff.1 h with heq | h
    · exact absurd (List.cons.inj heq).1 hne
    · exact ih hpart h

/-- A suffix starts at the front of a part or behind it, if its first character may
stand at the front only. -/
theorem prefix_or_suffix (hpart : c ∉ part.tail) (h : c :: rest <:+ part ++ t) :
    part <+: c :: rest ∧ part ≠ [] ∨ c :: rest <:+ t := by
  cases part with
  | nil => exact .inr h
  | cons d part =>
    rcases List.suffix_cons_iff.1 h with heq | h
    · exact .inl ⟨⟨t, heq.symm⟩, List.cons_ne_nil _ _⟩
    · exact .inr (suffix_of_notMem hpart h)

/-- **A suffix of what is put together** starts at the front of a part or behind all
of them. -/
theorem exists_prefix_or_suffix (hseparator : c ∉ separator)
    (hparts : ∀ part ∈ parts, c ∉ part.tail)
    (h : c :: rest <:+ separator.intercalate parts ++ t) :
    (∃ part ∈ parts, part <+: c :: rest ∧ part ≠ []) ∨ c :: rest <:+ t := by
  induction parts with
  | nil => exact .inr h
  | cons part parts ih =>
    obtain ⟨hpart, hparts⟩ := List.forall_mem_cons.1 hparts
    have hhere : part <+: c :: rest ∧ part ≠ [] →
        ∃ other ∈ part :: parts, other <+: c :: rest ∧ other ≠ [] :=
      fun hfront => ⟨part, List.mem_cons_self, hfront⟩
    cases parts with
    | nil => exact (prefix_or_suffix hpart (by simpa using h)).imp_left hhere
    | cons next parts =>
      rw [List.intercalate_cons_cons, List.append_assoc, List.append_assoc] at h
      rcases prefix_or_suffix hpart h with hfront | h
      · exact .inl (hhere hfront)
      · refine (ih hparts (suffix_of_notMem hseparator h)).imp_left ?_
        rintro ⟨other, hother, hfront⟩
        exact ⟨other, List.mem_cons_of_mem _ hother, hfront⟩

/-- A part is found in what is put together. -/
theorem infix_intercalate (separator : Text) (h : part ∈ parts) :
    part <:+: separator.intercalate parts := by
  induction parts with
  | nil => simp at h
  | cons first parts ih =>
    cases parts with
    | nil =>
      obtain rfl := List.mem_singleton.1 h
      simp
    | cons next parts =>
      rw [List.intercalate_cons_cons, List.append_assoc]
      rcases List.mem_cons.1 h with rfl | h
      · exact (List.prefix_append _ _).isInfix
      · exact (ih h).trans ((List.suffix_append _ _).trans (List.suffix_append _ _)).isInfix

end Text

/-! ## Registers with the same contents -/

namespace Registers

variable {rs rs' : Registers} {r q : Register}

/-- What a register holds stands in its entry. -/
theorem mem_entries_iff {w : Word} : (r, w) ∈ rs.entries ↔ rs.get? r = some w := by
  rw [get?, List.lookup_eq_some_iff]
  constructor
  · intro h
    obtain ⟨front, back, heq⟩ := List.append_of_mem h
    refine ⟨front, back, heq, fun entry hentry => ?_⟩
    -- the entries in front of it are those of lower registers
    have hlower := (List.pairwise_append.1 (heq ▸ rs.ascending)).2.2 entry hentry _
      List.mem_cons_self
    simpa using (UInt32.ne_of_lt hlower).symm
  · rintro ⟨front, back, heq, -⟩
    simp [heq]

/-- **Registers are told by what they hold**, and by the flag. -/
theorem eq_of_get?_eq (hflag : rs.flag = rs'.flag) (hget : ∀ r, rs.get? r = rs'.get? r) :
    rs = rs' := by
  have hentries : rs.entries = rs'.entries := by
    have : Std.Irrefl fun x y : Register × Word => x.1 < y.1 := ⟨fun x => UInt32.lt_irrefl x.1⟩
    have : Std.Antisymm fun x y : Register × Word => x.1 < y.1 :=
      ⟨fun x y h h' => absurd (UInt32.lt_trans h h') (UInt32.lt_irrefl x.1)⟩
    refine List.Pairwise.eq_of_mem_iff rs.ascending rs'.ascending fun ⟨r, w⟩ => ?_
    rw [mem_entries_iff, mem_entries_iff, hget]
  cases rs
  cases rs'
  simp_all

/-- **Writes to different registers change places.** -/
theorem write_write_comm (h : r ≠ q) (rs : Registers) (v w : Word) :
    (rs.write r v).write q w = (rs.write q w).write r v := by
  refine eq_of_get?_eq rfl fun p => ?_
  simp only [get?_write]
  by_cases hr : p = r
  · rw [if_pos hr, if_pos hr, if_neg (hr ▸ h)]
  · rw [if_neg hr, if_neg hr]

end Registers

/-! ## The text of registers -/

namespace Registers

/-- The front of an entry of a register. -/
def entryFront (r : Register) : Text :=
  'R' :: (Decimal.ofNat r.toNat ++ ": ".toList)

/-- Whether the text of registers shows a register. -/
def Shows (rs : Registers) (r : Register) : Prop :=
  entryFront r <:+: rs.text

variable {rs : Registers} {r q : Register} {w : Word}

/-- A register exists that has an entry. -/
theorem isSome_get?_iff : (rs.get? r).isSome ↔ ∃ w, (r, w) ∈ rs.entries := by
  simp [get?, List.lookup_isSome_iff]

theorem entryText_eq (r : Register) (w : Word) : entryText (r, w) = entryFront r ++ w.decimal := by
  simp [entryText, entryFront]

/-- The front of an entry tells the register. -/
theorem eq_of_entryFront_prefix {t : Text} (h : entryFront r <+: t) (h' : entryFront q <+: t) :
    r = q := by
  obtain ⟨rest, rfl⟩ := h
  obtain ⟨rest', heq⟩ := h'
  have hcut (n : Nat) (rest : Text) :
      (Decimal.ofNat n ++ (": ".toList ++ rest)).takeWhile Char.isDigit = Decimal.ofNat n :=
    Text.takeWhile_append_of_stop (fun c hc => Decimal.isDigit_of_mem_ofNat hc) (by simp)
  rw [entryFront, entryFront, List.cons_append, List.cons_append, List.append_assoc,
    List.append_assoc] at heq
  have hdigits := congrArg (List.takeWhile Char.isDigit) (List.cons.inj heq).2
  rw [hcut, hcut] at hdigits
  have hvalue := congrArg Decimal.value hdigits
  rw [Decimal.value_ofNat, Decimal.value_ofNat] at hvalue
  exact (UInt32.toNat_inj.1 hvalue).symm

/-- An `R` stands at the front of an entry only. -/
theorem notMem_tail_entryText (entry : Register × Word) : 'R' ∉ (entryText entry).tail := by
  intro h
  rcases List.mem_append.1 h with h | h
  · rcases List.mem_append.1 h with h | h
    · exact absurd (Decimal.isDigit_of_mem_ofNat h) (by decide)
    · exact absurd h (by decide)
  · exact Decimal.notMem_ofInt (by decide) (by decide) h

/-- And it stands nowhere in the flag. -/
theorem notMem_of_mem_flagText {flag : Option Flag} {t : Text} (h : t ∈ flagText flag) :
    'R' ∉ t := by
  rcases flag with _ | flag
  · cases h
  · obtain rfl := List.mem_singleton.1 h
    cases flag <;> decide

/-- **Registers show those that exist**, and no others. -/
theorem shows_iff : rs.Shows r ↔ (rs.get? r).isSome := by
  rw [isSome_get?_iff]
  constructor
  · intro h
    obtain ⟨t, hfront, hsuffix⟩ := List.infix_iff_prefix_suffix.1 h
    obtain ⟨behind, rfl⟩ := hfront
    -- the text goes on from an `R`, and that is the front of an entry
    have hparts : ∀ part ∈ rs.entries.map entryText ++ flagText rs.flag, 'R' ∉ part.tail := by
      intro part hpart
      rcases List.mem_append.1 hpart with hentry | hflag
      · obtain ⟨entry, -, rfl⟩ := List.mem_map.1 hentry
        exact notMem_tail_entryText entry
      · exact fun h => notMem_of_mem_flagText hflag (List.mem_of_mem_tail h)
    have hopening : 'R' ∉ ['\x7b'] := by decide
    have hclosing : 'R' ∉ ['\x7d'] := by decide
    have hinside := Text.suffix_of_notMem hopening hsuffix
    rcases Text.exists_prefix_or_suffix (by decide) hparts hinside with
      ⟨part, hpart, hprefix, hne⟩ | hend
    · rcases List.mem_append.1 hpart with hentry | hflag
      · obtain ⟨⟨q, w⟩, hmem, rfl⟩ := List.mem_map.1 hentry
        rw [entryText_eq] at hprefix
        obtain rfl := eq_of_entryFront_prefix ((List.prefix_append _ _).trans hprefix)
          (List.prefix_append (entryFront r) behind)
        exact ⟨w, hmem⟩
      · obtain ⟨c, part, rfl⟩ := List.exists_cons_of_ne_nil hne
        obtain rfl := (List.cons_prefix_cons.1 hprefix).1
        exact absurd List.mem_cons_self (notMem_of_mem_flagText hflag)
    · have hnil := Text.suffix_of_notMem hclosing (t := []) hend
      cases List.suffix_nil.1 hnil
  · rintro ⟨w, hentry⟩
    have hpart : entryText (r, w) ∈ rs.entries.map entryText ++ flagText rs.flag :=
      List.mem_append_left _ (List.mem_map_of_mem hentry)
    rw [entryText_eq] at hpart
    have hinside := Text.infix_intercalate ", ".toList hpart
    have htext : _ <:+: rs.text := hinside.trans ⟨['\x7b'], ['\x7d'], rfl⟩
    exact (List.prefix_append _ _).isInfix.trans htext

end Registers

end TeachAsm
