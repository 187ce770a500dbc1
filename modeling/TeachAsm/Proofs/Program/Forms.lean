import Mathlib.Data.List.Forall2
import TeachAsm.Program.Slot
import TeachAsm.Proofs.Instruction.Decoding
/-!
# The two forms of a line

A line of code either decodes as it is, or is a label in front of code that
decodes: a name, a colon, blanks, and the code. No line is both
(`Line.IsLabelled.not_isSingle`), because only a declaration holds a colon and
nothing stands behind the colon of one. `Slot.Forms` says which slots a line of
either form stands for, and reading a line gives these slots or, for a line of
neither form, the fault that names it; lines are read in order up to the first
of neither form (`ofLines_eq_ok_iff`, `ofLines_eq_error_iff`).
-/

namespace TeachAsm

namespace Line

/-- A text that decodes as it is. -/
def IsSingle (t : Text) : Prop :=
  ∃ i, Instruction.ofText? t = some i

/-- A text that is a label in front of code that decodes. -/
def IsLabelled (t : Text) : Prop :=
  ∃ name gap code, t = name ++ ':' :: (gap ++ code) ∧ Text.IsName name ∧
    (∀ c ∈ gap, Text.isBlank c) ∧ ∃ i, Instruction.ofText? code = some i

/-- **The two forms exclude each other.** -/
theorem IsLabelled.not_isSingle {t : Text} (h : IsLabelled t) : ¬ IsSingle t := by
  obtain ⟨name, gap, code, rfl, hname, -, i, hcode⟩ := h
  rintro ⟨j, hj⟩
  obtain ⟨c, rest, rfl, -⟩ := Instruction.exists_cons_of_ofText? hcode
  obtain ⟨other, hother, heq, -⟩ := Instruction.eq_label_of_colon_mem hj (by simp)
  -- both sides are a name up to their first colon, so what follows it is the same
  have hstop : ∀ c ∈ (':' :: (gap ++ c :: rest)).head?, Text.isWordChar c = false := by
    simp; decide
  have hfollow := congrArg (List.dropWhile Text.isWordChar) heq
  rw [Text.dropWhile_append_of_stop hname.2 hstop,
    Text.dropWhile_append_of_stop hother.2 (by simp; decide)] at hfollow
  simp at hfollow

end Line

/-- The slots that a line of either form stands for. -/
inductive Slot.Forms (line : Line) : List Slot → Prop
  | single {i : Instruction} (h : Instruction.ofText? line.text = some i) :
      Forms line [⟨line.number, line.text, i⟩]
  | labelled {name gap code : Text} {i : Instruction}
      (htext : line.text = name ++ ':' :: (gap ++ code)) (hname : Text.IsName name)
      (hgap : ∀ c ∈ gap, Text.isBlank c) (hcode : Instruction.ofText? code = some i) :
      Forms line
        [⟨line.number, name ++ [':'], ⟨.label, [.label name]⟩⟩, ⟨line.number, code, i⟩]

namespace Text

/-- Blanks in front of code are all that trimming its front takes. -/
theorem trimStart_append {gap code : Text} (hgap : ∀ c ∈ gap, isBlank c)
    (hcode : ∃ c rest, code = c :: rest ∧ isBlank c = false) : trimStart (gap ++ code) = code := by
  obtain ⟨c, rest, rfl, hc⟩ := hcode
  exact dropWhile_append_of_stop hgap (by simpa using hc)

/-- Cut in front of the code and trimmed, a label is left with its colon. -/
theorem trimEnd_take_label {name gap code : Text} (hgap : ∀ c ∈ gap, isBlank c) :
    trimEnd ((name ++ ':' :: (gap ++ code)).take
      ((name ++ ':' :: (gap ++ code)).length - code.length)) = name ++ [':'] := by
  have hcut : name ++ ':' :: (gap ++ code) = (name ++ ':' :: gap) ++ code := by simp
  have hlength : ((name ++ ':' :: gap) ++ code).length - code.length =
      (name ++ ':' :: gap).length := by
    rw [List.length_append]
    omega
  have hreverse : (name ++ ':' :: gap).reverse = gap.reverse ++ ':' :: name.reverse := by simp
  rw [hcut, hlength, List.take_left, trimEnd, hreverse,
    dropWhile_append_of_stop (by simpa using hgap) (by simp; decide)]
  simp

end Text

namespace Slot

variable {line : Line} {slots : List Slot} {fault : Fault}

theorem single?_eq_some_iff :
    single? line = some slots ↔
      ∃ i, Instruction.ofText? line.text = some i ∧ slots = [⟨line.number, line.text, i⟩] := by
  simp only [single?, Option.bind_eq_bind, Option.bind_eq_some_iff, Option.pure_def,
    Option.some.injEq, @eq_comm _ slots]

theorem labelled?_eq_some_iff :
    labelled? line = some slots ↔
      ∃ name gap code i, line.text = name ++ ':' :: (gap ++ code) ∧ Text.IsName name ∧
        (∀ c ∈ gap, Text.isBlank c) ∧ Instruction.ofText? code = some i ∧
        slots =
          [⟨line.number, name ++ [':'], ⟨.label, [.label name]⟩⟩, ⟨line.number, code, i⟩] := by
  simp only [labelled?, Option.bind_eq_bind, Option.bind_eq_some_iff, Option.pure_def,
    Option.some.injEq]
  constructor
  · rintro ⟨⟨declaration, rest⟩, hdecl, i, hi, rfl⟩
    obtain ⟨name, hname, htext, rfl⟩ := Instruction.declaration?_eq_some_iff.1 hdecl
    -- the gap is the run of blanks behind the colon, as long as it goes
    have hrest : rest = rest.takeWhile Text.isBlank ++ Text.trimStart rest :=
      (List.takeWhile_append_dropWhile).symm
    have hgap : ∀ c ∈ rest.takeWhile Text.isBlank, Text.isBlank c :=
      fun c hc => List.mem_takeWhile_imp hc
    rw [hrest] at htext
    refine ⟨name, rest.takeWhile Text.isBlank, Text.trimStart rest, i, htext, hname, hgap, hi, ?_⟩
    rw [htext, Text.trimEnd_take_label hgap]
  · rintro ⟨name, gap, code, i, htext, hname, hgap, hcode, rfl⟩
    have hdecl := Instruction.declaration?_eq_some_iff.2 ⟨name, hname, htext, rfl⟩
    have htrim := Text.trimStart_append hgap (Instruction.exists_cons_of_ofText? hcode)
    refine ⟨_, hdecl, i, by rw [htrim]; exact hcode, ?_⟩
    rw [htrim, htext, Text.trimEnd_take_label hgap]

/-- **A line is read as the slots it stands for.** -/
theorem ofLine_eq_ok_iff : ofLine line = .ok slots ↔ Forms line slots := by
  unfold ofLine
  constructor
  · intro h
    split at h
    · next found hfound =>
      cases h
      rcases Option.or_eq_some_iff.1 hfound with h | ⟨-, h⟩
      · obtain ⟨i, hi, rfl⟩ := single?_eq_some_iff.1 h
        exact .single hi
      · obtain ⟨name, gap, code, i, htext, hname, hgap, hcode, rfl⟩ := labelled?_eq_some_iff.1 h
        exact .labelled htext hname hgap hcode
    · cases h
  · rintro (hi | ⟨htext, hname, hgap, hcode⟩)
    · rw [single?_eq_some_iff.2 ⟨_, hi, rfl⟩]
      rfl
    · have hnot : single? line = none := by
        by_contra hne
        obtain ⟨found, hfound⟩ := Option.ne_none_iff_exists'.1 hne
        obtain ⟨i, hi, -⟩ := single?_eq_some_iff.1 hfound
        exact Line.IsLabelled.not_isSingle ⟨_, _, _, htext, hname, hgap, _, hcode⟩ ⟨i, hi⟩
      rw [hnot, labelled?_eq_some_iff.2 ⟨_, _, _, _, htext, hname, hgap, hcode, rfl⟩]
      rfl

/-- A line stands for slots when it has one of the two forms. -/
theorem exists_forms_iff :
    (∃ slots, Forms line slots) ↔ Line.IsSingle line.text ∨ Line.IsLabelled line.text := by
  constructor
  · rintro ⟨slots, h⟩
    cases h with
    | single h => exact .inl ⟨_, h⟩
    | labelled htext hname hgap hcode => exact .inr ⟨_, _, _, htext, hname, hgap, _, hcode⟩
  · rintro (⟨i, hi⟩ | ⟨name, gap, code, htext, hname, hgap, i, hcode⟩)
    · exact ⟨_, .single hi⟩
    · exact ⟨_, .labelled htext hname hgap hcode⟩

/-- A line of neither form is the fault that names it. -/
theorem ofLine_eq_error_iff :
    ofLine line = .error fault ↔
      ¬ (Line.IsSingle line.text ∨ Line.IsLabelled line.text) ∧
        fault = .unknownInstruction line.number line.text := by
  rw [← exists_forms_iff]
  constructor
  · intro h
    refine ⟨fun ⟨slots, hslots⟩ => ?_, ?_⟩
    · rw [ofLine_eq_ok_iff.2 hslots] at h
      cases h
    · unfold ofLine at h
      split at h
      · cases h
      · exact (Except.error.inj h).symm
  · rintro ⟨hnot, rfl⟩
    cases h : ofLine line with
    | ok slots => exact absurd ⟨slots, ofLine_eq_ok_iff.1 h⟩ hnot
    | error fault =>
      unfold ofLine at h
      split at h
      · cases h
      · rw [← Except.error.inj h]

/-- A line stands for one row of slots only. -/
theorem Forms.unique {others : List Slot} (h : Forms line slots) (h' : Forms line others) :
    slots = others := by
  rw [← ofLine_eq_ok_iff] at h h'
  exact Except.ok.inj (h.symm.trans h')

/-- The slots of a line hold shaped instructions. -/
theorem Forms.shaped (h : Forms line slots) : ∀ slot ∈ slots, slot.instruction.Shaped := by
  cases h with
  | single h =>
    intro slot hslot
    rw [List.mem_singleton.1 hslot]
    exact Instruction.shaped_of_ofText? h
  | @labelled name _ _ _ _ _ _ hcode =>
    intro slot hslot
    rcases List.mem_cons.1 hslot with rfl | hslot
    · exact .label name
    · rw [List.mem_singleton.1 hslot]
      exact Instruction.shaped_of_ofText? hcode

/-! ## Line after line -/

theorem ofLines_nil : ofLines [] = .ok [] :=
  rfl

/-- Lines are read one after the other, up to the first fault. -/
theorem ofLines_cons (line : Line) (lines : List Line) :
    ofLines (line :: lines) = do
      let first ← ofLine line
      let others ← ofLines lines
      return first ++ others := by
  simp only [ofLines, List.mapM_cons, bind_assoc, pure_bind, List.flatten_cons]

variable {lines : List Line}

/-- Lines that stand for slots have one of the two forms. -/
theorem forms_of_forall₂ {parts : List (List Slot)} (h : List.Forall₂ Forms lines parts) :
    ∀ l ∈ lines, Line.IsSingle l.text ∨ Line.IsLabelled l.text := by
  induction h with
  | nil => simp
  | @cons line slots lines parts hform _ ih =>
    intro l hl
    rcases List.mem_cons.1 hl with rfl | hl
    · exact exists_forms_iff.1 ⟨slots, hform⟩
    · exact ih l hl

/-- And lines of these forms stand for slots. -/
theorem exists_forall₂_forms
    (h : ∀ l ∈ lines, Line.IsSingle l.text ∨ Line.IsLabelled l.text) :
    ∃ parts, List.Forall₂ Forms lines parts := by
  induction lines with
  | nil => exact ⟨[], .nil⟩
  | cons line lines ih =>
    obtain ⟨slots, hslots⟩ := exists_forms_iff.2 (h line List.mem_cons_self)
    obtain ⟨parts, hparts⟩ := ih fun l hl => h l (List.mem_cons_of_mem _ hl)
    exact ⟨slots :: parts, .cons hslots hparts⟩

/-- **Lines are read as the slots they stand for**, in order. -/
theorem ofLines_eq_ok_iff :
    ofLines lines = .ok slots ↔
      ∃ parts, List.Forall₂ Forms lines parts ∧ slots = parts.flatten := by
  induction lines generalizing slots with
  | nil =>
    rw [ofLines_nil]
    constructor
    · intro h
      exact ⟨[], .nil, (Except.ok.inj h).symm⟩
    · rintro ⟨parts, hparts, rfl⟩
      cases hparts
      rfl
  | cons line lines ih =>
    rw [ofLines_cons]
    constructor
    · intro h
      cases hfirst : ofLine line with
      | error fault => rw [hfirst] at h; cases h
      | ok first =>
        cases hothers : ofLines lines with
        | error fault => rw [hfirst, hothers] at h; cases h
        | ok others =>
          rw [hfirst, hothers] at h
          cases h
          obtain ⟨parts, hparts, rfl⟩ := ih.1 hothers
          exact ⟨first :: parts, .cons (ofLine_eq_ok_iff.1 hfirst) hparts, rfl⟩
    · rintro ⟨parts, hparts, rfl⟩
      cases hparts with
      | cons hfirst hothers =>
        rw [ofLine_eq_ok_iff.2 hfirst, ih.2 ⟨_, hothers, rfl⟩]
        rfl

/-- **The first line of neither form is the fault.** -/
theorem ofLines_eq_error_iff :
    ofLines lines = .error fault ↔
      ∃ before line after, lines = before ++ line :: after ∧
        (∀ l ∈ before, Line.IsSingle l.text ∨ Line.IsLabelled l.text) ∧
        ¬ (Line.IsSingle line.text ∨ Line.IsLabelled line.text) ∧
        fault = .unknownInstruction line.number line.text := by
  induction lines with
  | nil =>
    rw [ofLines_nil]
    constructor
    · intro h
      cases h
    · rintro ⟨before, line, after, h, -⟩
      simp at h
  | cons line lines ih =>
    rw [ofLines_cons]
    cases hfirst : ofLine line with
    | error other =>
      obtain ⟨hnot, rfl⟩ := ofLine_eq_error_iff.1 hfirst
      constructor
      · intro h
        cases h
        exact ⟨[], line, lines, rfl, by simp, hnot, rfl⟩
      · rintro ⟨before, bad, after, heq, hbefore, -, rfl⟩
        cases before with
        | nil =>
          cases heq
          rfl
        | cons head before =>
          cases heq
          exact absurd (hbefore line List.mem_cons_self) hnot
    | ok first =>
      have hform := exists_forms_iff.1 ⟨first, ofLine_eq_ok_iff.1 hfirst⟩
      have hrest : (do
          let first ← Except.ok first
          let others ← ofLines lines
          return first ++ others) = .error fault ↔ ofLines lines = .error fault := by
        cases ofLines lines with
        | error other => exact Iff.rfl
        | ok others => exact ⟨fun h => (by cases h), fun h => (by cases h)⟩
      rw [hrest, ih]
      constructor
      · rintro ⟨before, bad, after, rfl, hbefore, hbad, rfl⟩
        refine ⟨line :: before, bad, after, rfl, fun l hl => ?_, hbad, rfl⟩
        rcases List.mem_cons.1 hl with rfl | hl
        · exact hform
        · exact hbefore l hl
      · rintro ⟨before, bad, after, heq, hbefore, hbad, rfl⟩
        cases before with
        | nil =>
          cases heq
          exact absurd hform hbad
        | cons head before =>
          cases heq
          exact ⟨before, bad, after, rfl, fun l hl => hbefore l (List.mem_cons_of_mem _ hl), hbad,
            rfl⟩

end Slot

end TeachAsm
