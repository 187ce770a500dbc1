import Mathlib.Data.Set.Function
import TeachAsm.Proofs.Template.Compilation
/-!
# Where compiling cuts a text

A template's text may be cut in two, and its halves compiled one by one: put together,
they are what the whole compiles to, unless a spelling of a placeholder straddles the
cut, and then they are not (`Template.compile_append_iff`). Two spellings do not overlap,
because a spelling begins with `<` and has no other `<` in it, and so the cuts at either
end of a spelling are straddled by none. Each place where the text spells a placeholder
is therefore a hole with the pieces of the rest around it
(`Template.compile_append_spelling`), and there is no other hole
(`Template.bijOn_places`): a spelling that is begun and not finished is a row of
literals.
-/

namespace TeachAsm

/-! ## Places of placeholders -/

/-- A placeholder, and what stands in front of it and behind it. -/
@[ext]
structure Place (α : Type) where
  front : List α
  placeholder : Placeholder
  back : List α

/-- A place among pieces, in the text that they spell. -/
def Place.spelling (place : Place Piece) : Place Char :=
  ⟨Template.spelling place.front, place.placeholder, Template.spelling place.back⟩

/-- **The places where a text spells a placeholder.** -/
def Text.places (t : Text) : Set (Place Char) :=
  {place | t = place.front ++ place.placeholder.spelling ++ place.back}

/-- **The places of a template's holes.** -/
def Template.places (template : Template) : Set (Place Piece) :=
  {place | template = place.front ++ .hole place.placeholder :: place.back}

theorem Text.mem_places_iff {t : Text} {place : Place Char} :
    place ∈ t.places ↔ t = place.front ++ place.placeholder.spelling ++ place.back :=
  Iff.rfl

theorem Template.mem_places_iff {template : Template} {place : Place Piece} :
    place ∈ template.places ↔ template = place.front ++ .hole place.placeholder :: place.back :=
  Iff.rfl

/-- **A spelling straddles a cut**: it begins in the text in front of the cut, and ends in
the text behind it. -/
def Text.Straddled (front back : Text) : Prop :=
  ∃ (p : Placeholder) (head tail : Text), head ≠ [] ∧ tail ≠ [] ∧ p.spelling = head ++ tail ∧
    head <:+ front ∧ tail <+: back

/-! ## Spellings of pieces -/

/-- A spelling begins with `<`, and has no other one. -/
theorem Placeholder.exists_spelling_eq_cons (p : Placeholder) :
    ∃ rest, p.spelling = '<' :: rest ∧ '<' ∉ rest := by
  cases p <;> exact ⟨_, rfl, by decide⟩

/-- Every piece is spelled. -/
theorem Piece.spelling_ne_nil (piece : Piece) : piece.spelling ≠ [] := by
  cases piece with
  | literal c | blank c => exact List.cons_ne_nil _ _
  | hole p => exact List.ne_nil_of_length_pos p.length_spelling_pos

/-- No spelling straddles the cut in front of another one. -/
theorem Text.not_straddled_spelling (front : Text) (p : Placeholder) (back : Text) :
    ¬ Straddled front (p.spelling ++ back) := by
  rintro ⟨q, head, tail, hhead, htail, hq, -, hprefix⟩
  obtain ⟨rest, hp, -⟩ := p.exists_spelling_eq_cons
  obtain ⟨others, hothers, hfree⟩ := q.exists_spelling_eq_cons
  obtain ⟨c, head, rfl⟩ := List.exists_cons_of_ne_nil hhead
  obtain ⟨d, tail, rfl⟩ := List.exists_cons_of_ne_nil htail
  -- what is left for the text behind the cut begins with the `<` of the spelling there
  rw [hp, List.cons_append] at hprefix
  obtain ⟨rfl, -⟩ := List.cons_prefix_cons.1 hprefix
  rw [hothers, List.cons_append] at hq
  obtain ⟨-, rfl⟩ := List.cons.inj hq
  simp at hfree

namespace Template

variable {front back front' back' : Template}

theorem spelling_append (front back : Template) :
    spelling (front ++ back) = spelling front ++ spelling back :=
  List.flatMap_append

theorem spelling_cons (piece : Piece) (pieces : Template) :
    spelling (piece :: pieces) = piece.spelling ++ spelling pieces :=
  List.flatMap_cons

theorem eq_nil_of_spelling_eq_nil {template : Template} (h : spelling template = []) :
    template = [] := by
  cases template with
  | nil => rfl
  | cons piece pieces =>
    rw [spelling_cons, List.append_eq_nil_iff] at h
    exact absurd h.1 piece.spelling_ne_nil

/-- **A template is cut where its text is**: the pieces up to a place are told from what
they spell. -/
theorem append_inj_of_spelling (h : front ++ back = front' ++ back')
    (hspelling : spelling front = spelling front') : front = front' ∧ back = back' := by
  rcases List.append_eq_append_iff.1 h with ⟨more, rfl, rfl⟩ | ⟨more, rfl, rfl⟩ <;>
  · rw [spelling_append] at hspelling
    obtain rfl : more = [] := eq_nil_of_spelling_eq_nil (by simpa using hspelling)
    exact ⟨by simp, by simp⟩

end Template

/-! ## Cuts -/

namespace Template

/-- **Halves are compiled one by one**, if no spelling straddles the cut. -/
theorem compile_append {front back : Text} (h : ¬ Text.Straddled front back) :
    compile (front ++ back) = compile front ++ compile back := by
  fun_induction compile front with
  | case1 => rfl
  | case2 c rest p hp ih =>
    obtain ⟨tail, htail⟩ := Placeholder.prefix_of_front? hp
    rw [← htail, List.drop_left] at ih ⊢
    rw [List.append_assoc, compile_spelling_append, List.cons_append, ih]
    -- what ends the rest ends the text as well
    rintro ⟨q, head, last, hhead, hlast, hq, hsuffix, hprefix⟩
    exact h ⟨q, head, last, hhead, hlast, hq,
      hsuffix.trans (htail ▸ List.suffix_append _ _), hprefix⟩
  | case3 c rest hnone ih =>
    have hwhole : Placeholder.front? (c :: (rest ++ back)) = none := by
      refine Placeholder.front?_eq_none_iff.2 fun p hp => ?_
      have hshort := Placeholder.front?_eq_none_iff.1 hnone p
      -- a spelling that the first half does not hold goes on behind the cut
      rcases List.prefix_or_prefix_of_prefix hp (List.prefix_append (c :: rest) back) with
        hle | ⟨tail, htail⟩
      · exact hshort hle
      · refine h ⟨p, c :: rest, tail, List.cons_ne_nil _ _, ?_, htail.symm, List.suffix_rfl, ?_⟩
        · rintro rfl
          exact hshort ⟨[], by simpa using htail.symm⟩
        · rw [← htail, ← List.cons_append] at hp
          exact (List.prefix_append_right_inj _).1 hp
    rw [List.cons_append, compile_cons hwhole, List.cons_append, ih]
    rintro ⟨q, head, last, hhead, hlast, hq, hsuffix, hprefix⟩
    exact h ⟨q, head, last, hhead, hlast, hq, hsuffix.trans (List.suffix_cons _ _), hprefix⟩

/-- **A spelling is a hole**, whatever stands around it. -/
theorem compile_append_spelling (front : Text) (p : Placeholder) (back : Text) :
    compile (front ++ p.spelling ++ back) = compile front ++ .hole p :: compile back := by
  rw [List.append_assoc, compile_append (Text.not_straddled_spelling front p back),
    compile_spelling_append]

/-- Where a spelling straddles the cut, its hole is in neither half. -/
theorem compile_append_ne {front back : Text} (h : Text.Straddled front back) :
    compile (front ++ back) ≠ compile front ++ compile back := by
  obtain ⟨p, head, tail, hhead, htail, hp, ⟨before, rfl⟩, after, rfl⟩ := h
  have htext : before ++ head ++ (tail ++ after) = before ++ p.spelling ++ after := by
    simp [hp]
  rw [htext, compile_append_spelling]
  intro heq
  rcases List.append_eq_append_iff.1 heq with ⟨more, hmore, hrest⟩ | ⟨more, hmore, -⟩
  · -- the first half would hold all of the hole or nothing of it
    have hspelling := congrArg spelling hmore
    rw [spelling_append, spelling_compile, spelling_compile, List.append_cancel_left_eq]
      at hspelling
    cases more with
    | nil => exact hhead hspelling
    | cons piece more =>
      obtain ⟨rfl, -⟩ := List.cons.inj hrest
      rw [spelling_cons, Piece.spelling, hp] at hspelling
      have hlength := congrArg List.length hspelling
      have hpos := List.length_pos_iff.2 htail
      simp only [List.length_append] at hlength
      omega
  · have hspelling := congrArg spelling hmore
    rw [spelling_append, spelling_compile, spelling_compile, List.append_assoc,
      List.self_eq_append_right, List.append_eq_nil_iff] at hspelling
    exact hhead hspelling.1

/-- **The only cuts that matter** are those through a spelling. -/
theorem compile_append_iff {front back : Text} :
    compile (front ++ back) = compile front ++ compile back ↔ ¬ Text.Straddled front back :=
  ⟨fun heq h => compile_append_ne h heq, compile_append⟩

/-! ## Holes -/

/-- **The holes of a compiled text are the spellings in it**, one for each. -/
theorem bijOn_places (text : Text) :
    Set.BijOn Place.spelling (compile text).places text.places := by
  refine ⟨fun place hplace => ?_, fun place hplace other hother heq => ?_, fun place hplace => ?_⟩
  · have hspelling := congrArg spelling (mem_places_iff.1 hplace)
    rw [spelling_compile, spelling_append, spelling_cons, ← List.append_assoc] at hspelling
    exact Text.mem_places_iff.2 hspelling
  · have hcut := (mem_places_iff.1 hplace).symm.trans (mem_places_iff.1 hother)
    obtain ⟨hfront, hp, -⟩ := Place.mk.inj heq
    obtain ⟨hfront, hback⟩ := append_inj_of_spelling hcut hfront
    exact Place.ext hfront hp (List.cons.inj hback).2
  · have hcompile := compile_append_spelling place.front place.placeholder place.back
    rw [← Text.mem_places_iff.1 hplace] at hcompile
    refine ⟨⟨compile place.front, place.placeholder, compile place.back⟩,
      mem_places_iff.2 hcompile, ?_⟩
    rw [Place.spelling, spelling_compile, spelling_compile]

/-- **Compiling cuts a text and changes nothing of it.** The pieces, each as the template
spells it, are the text again. A piece that stands for a blank has been a blank, and a
literal never is one. There is a hole just where the text spells a placeholder: to each
such place belongs one hole, with the same placeholder and with pieces around it that
spell what stands around the placeholder, and there are no others. And a text that is cut
in two may be compiled half by half, just when no spelling straddles the cut. -/
theorem compile_segments (text : Text) :
    spelling (compile text) = text ∧ (∀ piece ∈ compile text, piece.Genuine) ∧
      Set.BijOn Place.spelling (compile text).places text.places ∧
      ∀ back, compile (text ++ back) = compile text ++ compile back ↔
        ¬ Text.Straddled text back :=
  ⟨spelling_compile text, genuine_of_mem_compile, bijOn_places text, fun _ => compile_append_iff⟩

end Template

/-- Spellings that are begun and not finished stay literal: the first `<` is not part of a
placeholder, and the name behind the hole is not closed. -/
example : Template.compile "<<label> <mem".toList =
    [.literal '<', .hole .label, .blank ' ', .literal '<', .literal 'm', .literal 'e',
      .literal 'm'] := by
  decide +kernel

end TeachAsm
