import TeachAsm.Proofs.Template.Completeness
/-!
# How far a template looks ahead

A template reads the front of a line and hands back what is left of it. Which of the line
it reads depends on the character behind the part that is read, and on nothing further: a
number and a name end where no digit or name character follows
(`Placeholder.goesOn_of_read?`), a blank is missing where another character stands, and a
literal does not look ahead. So a template reads the same in front of a rest that begins
alike, and in front of nothing (`Template.exists_of_front?`). A line whose label has been
taken off may therefore be read without the label, and the label without the line
(`Template.front?_cuts`).
-/

namespace TeachAsm

/-! ## Where a run ends -/

/-- What is left behind a run of a class does not go on with it. -/
theorem Text.eq_false_of_head?_dropWhile {p : Char → Bool} {t : Text} :
    ∀ c ∈ (t.dropWhile p).head?, p c = false := by
  intro c hc
  have hstop := List.head?_dropWhile_not p t
  rwa [Option.mem_def.1 hc] at hstop

/-- A number ends where no digit follows. -/
theorem Decimal.isDigit_of_front? {bound n : Nat} {t rest : Text}
    (h : front? bound t = some (n, rest)) : ∀ c ∈ rest.head?, c.isDigit = false := by
  simp only [front?] at h
  split at h
  · obtain ⟨-, rfl⟩ := Prod.mk.inj (Option.some.inj h)
    exact Text.eq_false_of_head?_dropWhile
  · cases h

namespace Placeholder

theorem isDigit_of_register? {t rest : Text} {r : Register} (h : register? t = some (r, rest)) :
    ∀ c ∈ rest.head?, c.isDigit = false := by
  unfold register? at h
  split at h
  · obtain ⟨n, hn, -⟩ := exists_of_map_read h
    exact Decimal.isDigit_of_front? hn
  · cases h

theorem isDigit_of_operand? {t rest : Text} {o : Operand} (h : operand? t = some (o, rest)) :
    ∀ c ∈ rest.head?, c.isDigit = false := by
  unfold operand? at h
  split at h
  · obtain ⟨n, hn, -⟩ :=
      @exists_of_map_read _ _ _ (fun n => Operand.immediate (Int32.ofNat n)) _ _ h
    exact Decimal.isDigit_of_front? hn
  · obtain ⟨r, hr, -⟩ := exists_of_map_read h
    exact isDigit_of_register? hr

/-- A name ends where no character of a name follows. -/
theorem isWordChar_of_name? {t name rest : Text} (h : name? t = some (name, rest)) :
    ∀ c ∈ rest.head?, Text.isWordChar c = false := by
  unfold name? at h
  split at h
  · cases h
  · obtain ⟨-, rfl⟩ := Prod.mk.inj (Option.some.inj h)
    exact Text.eq_false_of_head?_dropWhile

/-- **A placeholder takes all that it can.** -/
theorem goesOn_of_read? {p : Placeholder} {t rest : Text} {capture : Capture}
    (h : p.read? t = some (capture, rest)) : ∀ c ∈ rest.head?, p.goesOn c = false := by
  cases p with
  | register =>
    obtain ⟨r, hr, -⟩ := exists_of_map_read h
    exact isDigit_of_register? hr
  | memory =>
    obtain ⟨a, ha, -⟩ := exists_of_map_read h
    obtain ⟨n, hn, -⟩ := exists_of_map_read ha
    exact Decimal.isDigit_of_front? hn
  | operand =>
    obtain ⟨o, ho, -⟩ := exists_of_map_read h
    exact isDigit_of_operand? ho
  | label =>
    obtain ⟨name, hname, -⟩ := exists_of_map_read h
    exact isWordChar_of_name? hname

end Placeholder

/-! ## What is read in front of another rest -/

/-- **A piece looks at one character**: it reads the same in front of every rest that
begins as this one does, and in front of nothing. -/
theorem Piece.exists_of_read? {piece : Piece} {t rest : Text} {captures : Captures}
    (h : piece.read? t = some (captures, rest)) :
    ∃ body, t = body ++ rest ∧ ∀ rest' : Text, (∀ c ∈ rest'.head?, c ∈ rest.head?) →
      piece.read? (body ++ rest') = some (captures, rest') := by
  obtain ⟨body, rfl, hbody⟩ := Piece.exists_spells_of_read? h
  refine ⟨body, rfl, fun rest' hrest => ?_⟩
  cases hbody with
  | literal c => simp [read?]
  | blank c hd => simp [read?, hd]
  | noBlank c =>
    cases rest' with
    | nil => rfl
    | cons d rest' =>
      -- the blank was missing in front of this character already
      obtain ⟨rest, rfl⟩ := List.head?_eq_some_iff.1 (hrest d rfl)
      simp only [List.nil_append, read?] at h ⊢
      split at h
      · obtain ⟨-, h⟩ := Prod.mk.inj (Option.some.inj h)
        exact absurd h (List.cons_ne_self d rest).symm
      · next hd => rw [if_neg hd]
  | @hole p _ capture hspells =>
    obtain ⟨_, hread, -⟩ := @exists_of_map_read _ _ _ (fun c => [c]) _ _ h
    have hstop := Placeholder.goesOn_of_read? hread
    simp [read?, Placeholder.read?_append hspells fun c hc => hstop c (hrest c hc)]

namespace Template

variable {template : Template} {line rest : Text} {captures : Captures}

/-- **A template looks at one character** behind what it reads. -/
theorem exists_of_front? (h : template.front? line = some (captures, rest)) :
    ∃ p, line = p ++ rest ∧ ∀ rest' : Text, (∀ c ∈ rest'.head?, c ∈ rest.head?) →
      template.front? (p ++ rest') = some (captures, rest') := by
  induction template generalizing line captures with
  | nil =>
    obtain ⟨rfl, rfl⟩ := Prod.mk.inj (Option.some.inj h)
    exact ⟨[], rfl, fun _ _ => rfl⟩
  | cons piece pieces ih =>
    obtain ⟨first, u, others, hpiece, hpieces, rfl⟩ := front?_cons_eq_some_iff.1 h
    obtain ⟨body, rfl, hbody⟩ := Piece.exists_of_read? hpiece
    obtain ⟨tail, rfl, htail⟩ := ih hpieces
    refine ⟨body ++ tail, (List.append_assoc ..).symm, fun rest' hrest => ?_⟩
    rw [List.append_assoc, front?_cons_eq_some_iff]
    refine ⟨first, tail ++ rest', others, hbody _ ?_, htail rest' hrest, rfl⟩
    -- the first piece sees the rest only where the others have read nothing
    cases tail with
    | nil => exact hrest
    | cons c tail => exact fun _ hc => hc

/-- **What follows goes on with no placeholder at the end.** -/
theorem goesOn_of_front? {p : Placeholder} (hlast : template.getLast? = some (.hole p))
    (h : template.front? line = some (captures, rest)) : ∀ c ∈ rest.head?, p.goesOn c = false := by
  induction template generalizing line captures with
  | nil => cases hlast
  | cons piece pieces ih =>
    obtain ⟨first, u, others, hpiece, hpieces, rfl⟩ := front?_cons_eq_some_iff.1 h
    cases pieces with
    | nil =>
      obtain rfl := Option.some.inj hlast
      obtain ⟨-, rfl⟩ := Prod.mk.inj (Option.some.inj hpieces)
      obtain ⟨_, hread, -⟩ := @exists_of_map_read _ _ _ (fun c => [c]) _ _ hpiece
      exact Placeholder.goesOn_of_read? hread
    | cons other pieces =>
      rw [List.getLast?_cons_cons] at hlast
      exact ih hlast hpieces

/-- **Reading the front of a line cuts it in two.** The part that is read is read as a
whole with the same captures, and in front of every text that begins as the rest does, or
is empty, it is read as it was here. So more text behind a rest that is not empty is more
rest, and nothing else. If the template ends with a placeholder for a number, the rest
begins with no digit, and if it ends with one for a name, with no character of a name. -/
theorem front?_cuts (h : template.front? line = some (captures, rest)) :
    (∃ p, line = p ++ rest ∧ template.whole? p = some captures ∧
        ∀ rest' : Text, (∀ c ∈ rest'.head?, c ∈ rest.head?) →
          template.front? (p ++ rest') = some (captures, rest')) ∧
      (rest ≠ [] → ∀ t, template.front? (line ++ t) = some (captures, rest ++ t)) ∧
      ∀ p : Placeholder, template.getLast? = some (.hole p) →
        ∀ c ∈ rest.head?, p.goesOn c = false := by
  obtain ⟨p, rfl, hread⟩ := exists_of_front? h
  refine ⟨⟨p, rfl, ?_, hread⟩, fun hne t => ?_, fun q hlast => goesOn_of_front? hlast h⟩
  · have hempty := hread [] (by simp)
    rw [List.append_nil] at hempty
    exact whole?_eq_some_iff.2 hempty
  · rw [List.append_assoc]
    refine hread (rest ++ t) fun c hc => ?_
    rwa [List.head?_append_of_ne_nil _ hne] at hc

/-- A template that ends with a number: the blank behind the number is left, with all that
is put behind the blank. -/
theorem front?_cuts_memory :
    let template := compile "LDR <register>, <memory>".toList
    (∃ p, "LDR R3,0042 // x".toList = p ++ " // x".toList ∧
        template.whole? p = some [.register 3, .address 42]) ∧
      (∀ t, template.front? ("LDR R3,0042 // x".toList ++ t) =
        some ([.register 3, .address 42], " // x".toList ++ t)) ∧
      ∀ c ∈ " // x".toList.head?, c.isDigit = false := by
  intro template
  have hread : template.front? "LDR R3,0042 // x".toList =
      some ([.register 3, .address 42], " // x".toList) := by decide +kernel
  obtain ⟨⟨p, hcut, hwhole, -⟩, hmore, hlast⟩ := front?_cuts hread
  exact ⟨⟨p, hcut, hwhole⟩, hmore (by decide), hlast .memory (by decide +kernel)⟩

end Template

/-- Behind an empty rest there is more to read: the digit belongs to the number. -/
example :
    let template := Template.compile "<memory>".toList
    template.front? "4".toList = some ([.address 4], []) ∧
      template.front? ("4".toList ++ "2".toList) = some ([.address 42], []) := by
  decide +kernel

end TeachAsm
