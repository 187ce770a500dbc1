import TeachAsm.Proofs.Template.Language
/-!
# The language of a template's text

A template is written as text, and its language can be told from this text alone
(`Template.Describes`): a spelling of a placeholder stands for the texts of its kind,
a blank for one blank or none, and any other character for itself. The spellings
cannot be mistaken for each other, nor for anything else
(`Placeholder.front?_eq_some_iff`), and so the pieces that the text is compiled to
have the same language (`Template.spells_compile_iff`). Literals that come out of
compiling are never blank, and blanks are (`Template.genuine_of_mem_compile`).
-/

namespace TeachAsm

/-! ## Spellings -/

namespace Placeholder

variable {t : Text} {p : Placeholder}

@[simp] theorem front?_spelling_append (p : Placeholder) (rest : Text) :
    front? (p.spelling ++ rest) = some p := by
  cases p <;> rfl

/-- **A text begins with the spelling of one placeholder**, or of none. -/
theorem front?_eq_some_iff : front? t = some p ↔ p.spelling <+: t := by
  constructor
  · exact prefix_of_front?
  · rintro ⟨rest, rfl⟩
    exact front?_spelling_append p rest

theorem front?_eq_none_iff : front? t = none ↔ ∀ p : Placeholder, ¬ p.spelling <+: t := by
  rw [Option.eq_none_iff_forall_ne_some]
  exact forall_congr' fun p => not_congr front?_eq_some_iff

/-- No spelling begins with a blank. -/
theorem front?_eq_none_of_isBlank {c : Char} (hc : Text.isBlank c) (rest : Text) :
    front? (c :: rest) = none := by
  refine front?_eq_none_iff.2 fun p hp => ?_
  have hhead : c = '<' := by
    cases p <;> exact (List.cons_prefix_cons.1 hp).1.symm
  rw [hhead] at hc
  exact absurd hc (by decide)

end Placeholder

/-! ## Texts of a template's text -/

/-- **The texts that a template's text stands for**, each with its captures, from the
front to the end. -/
inductive Template.Describes : Text → Text → Captures → Prop
  | nil : Describes [] [] []
  | placeholder {p : Placeholder} {body : Text} {capture : Capture} {rest t : Text}
      {captures : Captures} (h : p.Spells body capture) (hs : Describes rest t captures) :
      Describes (p.spelling ++ rest) (body ++ t) (capture :: captures)
  | literal {c : Char} {rest t : Text} {captures : Captures} (hblank : Text.isBlank c = false)
      (hnone : ∀ p : Placeholder, ¬ p.spelling <+: c :: rest) (hs : Describes rest t captures) :
      Describes (c :: rest) (c :: t) captures
  | blank {c d : Char} {rest t : Text} {captures : Captures} (hc : Text.isBlank c)
      (hd : Text.isBlank d) (hs : Describes rest t captures) :
      Describes (c :: rest) (d :: t) captures
  | noBlank {c : Char} {rest t : Text} {captures : Captures} (hc : Text.isBlank c)
      (hs : Describes rest t captures) : Describes (c :: rest) t captures

/-- A piece as compiling makes it: a literal is not blank, and a blank is. -/
def Piece.Genuine : Piece → Prop
  | literal c => Text.isBlank c = false
  | blank c => Text.isBlank c = true
  | hole _ => True

theorem Piece.genuine_ofChar (c : Char) : (ofChar c).Genuine := by
  unfold ofChar
  split
  · next h => exact h
  · next h => exact Bool.eq_false_iff.2 h

namespace Template

/-! ## Compiling, character by character -/

theorem compile_spelling_append (p : Placeholder) (rest : Text) :
    compile (p.spelling ++ rest) = .hole p :: compile rest := by
  obtain ⟨c, tail, hcons⟩ := List.exists_cons_of_length_pos p.length_spelling_pos
  have hfront : Placeholder.front? (c :: (tail ++ rest)) = some p := by
    rw [← List.cons_append, ← hcons, Placeholder.front?_spelling_append]
  rw [hcons, List.cons_append, compile, hfront, ← List.cons_append, ← hcons]
  simp only [List.drop_left]

theorem compile_cons {c : Char} {rest : Text} (h : Placeholder.front? (c :: rest) = none) :
    compile (c :: rest) = .ofChar c :: compile rest := by
  rw [compile, h]

/-- **Every piece of a compiled text is genuine.** -/
theorem genuine_of_mem_compile {text : Text} : ∀ piece ∈ compile text, piece.Genuine := by
  fun_induction compile text with
  | case1 => simp
  | case2 c rest p hp ih =>
    intro piece hmem
    rcases List.mem_cons.1 hmem with rfl | hmem
    · trivial
    · exact ih piece hmem
  | case3 c rest hp ih =>
    intro piece hmem
    rcases List.mem_cons.1 hmem with rfl | hmem
    · exact Piece.genuine_ofChar c
    · exact ih piece hmem

/-! ## The pieces have the language of the text -/

theorem describes_of_spells {text t : Text} {captures : Captures}
    (h : (compile text).Spells t captures) : Describes text t captures := by
  fun_induction compile text generalizing t captures with
  | case1 =>
    cases h
    exact .nil
  | case2 c rest p hp ih =>
    obtain _ | ⟨hpiece, hs⟩ := h
    cases hpiece with
    | hole hbody =>
      obtain ⟨tail, htail⟩ := Placeholder.prefix_of_front? hp
      rw [← htail, List.drop_left] at ih hs
      rw [← htail]
      exact .placeholder hbody (ih hs)
  | case3 c rest hp ih =>
    obtain _ | ⟨hpiece, hs⟩ := h
    unfold Piece.ofChar at hpiece
    split at hpiece
    · next hc =>
      cases hpiece with
      | blank _ hd => exact .blank hc hd (ih hs)
      | noBlank => exact .noBlank hc (ih hs)
    · next hc =>
      cases hpiece with
      | literal =>
        exact .literal (Bool.eq_false_iff.2 hc) (Placeholder.front?_eq_none_iff.1 hp) (ih hs)

theorem Describes.spells {text t : Text} {captures : Captures} (h : Describes text t captures) :
    (compile text).Spells t captures := by
  induction h with
  | nil =>
    rw [compile]
    exact .nil
  | placeholder hbody _ ih =>
    rw [compile_spelling_append]
    exact .cons (.hole hbody) ih
  | literal hblank hnone _ ih =>
    rw [compile_cons (Placeholder.front?_eq_none_iff.2 hnone), Piece.ofChar,
      if_neg (Bool.eq_false_iff.1 hblank)]
    exact .cons (.literal _) ih
  | blank hc hd _ ih =>
    rw [compile_cons (Placeholder.front?_eq_none_of_isBlank hc _), Piece.ofChar, if_pos hc]
    exact .cons (.blank _ hd) ih
  | noBlank hc _ ih =>
    rw [compile_cons (Placeholder.front?_eq_none_of_isBlank hc _), Piece.ofChar, if_pos hc]
    exact .cons (.noBlank _) ih

/-- **A template's pieces stand for the texts that its own text stands for.** -/
theorem spells_compile_iff {text t : Text} {captures : Captures} :
    (compile text).Spells t captures ↔ Describes text t captures :=
  ⟨describes_of_spells, Describes.spells⟩

end Template

end TeachAsm
