import Mathlib.Data.List.Forall2
import TeachAsm.Proofs.Program.Numbering
import TeachAsm.Proofs.Text.Layout
/-!
# Layout does not matter

A source may be laid out in other ways. `Text.Respaced` says what may be done inside its
lines: blanks at either end, a comment behind, and another line end. This leaves the code
of every line as it is, and so all that loading makes of it. `Text.Inserted` says that a
line without code has been put in, which moves the numbers of the lines behind it, and
changes nothing but these numbers (`Program.ofSource_edited`).
-/

namespace TeachAsm

/-! ## Edits of a source -/

namespace Text

/-- Blanks that stand on one line. -/
structure IsSpacing (blanks : Text) : Prop where
  blank : ∀ c ∈ blanks, isBlank c
  newline : '\n' ∉ blanks

/-- A line starts behind this text. -/
def StartsLine (front : Text) : Prop :=
  front = [] ∨ front.getLast? = some '\n'

/-- A line ends in front of this text: there is nothing, a line feed, or a carriage
return and a line feed. -/
def EndsLine (tail : Text) : Prop :=
  tail = [] ∨ tail.head? = some '\n' ∨ ∃ rest, tail = '\r' :: '\n' :: rest

/-- **Some line feeds have been turned** into a carriage return and a line feed. -/
inductive Returned : Text → Text → Prop
  | nil : Returned [] []
  | keep (c : Char) {t u : Text} (h : Returned t u) : Returned (c :: t) (c :: u)
  | turn {t u : Text} (h : Returned t u) : Returned ('\n' :: t) ('\r' :: '\n' :: u)

/-- **A source has been edited inside its lines.** -/
inductive Respaced : Text → Text → Prop
  /-- There are more blanks at the start of a line. -/
  | indented {front blanks tail : Text} (hstart : StartsLine front) (hblanks : IsSpacing blanks) :
      Respaced (front ++ tail) (front ++ blanks ++ tail)
  /-- There are more blanks at the end of a line. -/
  | padded {front blanks tail : Text} (hend : EndsLine tail) (hblanks : IsSpacing blanks) :
      Respaced (front ++ tail) (front ++ blanks ++ tail)
  /-- There is a comment behind a line, with a blank in front of it, or at least with no
  slash. -/
  | remarked {front blanks comment tail : Text} (hend : EndsLine tail)
      (hblanks : IsSpacing blanks) (hslash : blanks ≠ [] ∨ front.getLast? ≠ some '/')
      (hcomment : '\n' ∉ comment) :
      Respaced (front ++ tail) (front ++ blanks ++ '/' :: '/' :: comment ++ tail)
  /-- There are other line ends. -/
  | returned {source other : Text} (h : Returned source other) : Respaced source other

/-- **A line without code**: it is blank, or nothing but a comment. -/
inductive IsIdle : Text → Prop
  | blank {blanks : Text} (h : IsSpacing blanks) : IsIdle blanks
  | comment {blanks comment : Text} (h : IsSpacing blanks) (hcomment : '\n' ∉ comment) :
      IsIdle (blanks ++ '/' :: '/' :: comment)

/-- **A line without code has been put into a source**, behind so many lines. -/
inductive Inserted : Nat → Text → Text → Prop
  /-- In front of a line, or of the end. -/
  | above {front line tail : Text} (hstart : StartsLine front) (hidle : IsIdle line) :
      Inserted (front.count '\n') (front ++ tail) (front ++ line ++ '\n' :: tail)
  /-- Behind a line. -/
  | below {front line tail : Text} (hend : tail = [] ∨ tail.head? = some '\n')
      (hidle : IsIdle line) :
      Inserted (front.count '\n' + 1) (front ++ tail) (front ++ '\n' :: line ++ tail)

variable {front tail source other : Text} {first last : Text} {pieces others : List Text}

/-- Where a line starts, nothing of it stands in front. -/
theorem StartsLine.eq_nil (h : StartsLine front) (hfront : front.splitOn '\n' = pieces ++ [last]) :
    last = [] := by
  obtain ⟨before, hbefore⟩ : ∃ before, front.splitOn '\n' = before ++ [[]] := by
    rcases h with rfl | h
    · exact ⟨[], rfl⟩
    · obtain ⟨before, rfl⟩ := List.getLast?_eq_some_iff.1 h
      exact ⟨before.splitOn '\n', List.splitOn_append_cons_self before []⟩
  rw [hbefore] at hfront
  exact (List.cons.inj (List.append_inj' hfront rfl).2).1.symm

theorem splitOn_of_head? (h : tail = [] ∨ tail.head? = some '\n') :
    ∃ others, tail.splitOn '\n' = [] :: others := by
  rcases h with rfl | h
  · exact ⟨[], rfl⟩
  · obtain ⟨rest, rfl⟩ := List.head?_eq_some_iff.1 h
    exact ⟨rest.splitOn '\n', splitOn_cons_self '\n' rest⟩

/-- Where a line ends, there is no more of it behind than a carriage return. -/
theorem EndsLine.blank_of_splitOn (h : EndsLine tail)
    (htail : tail.splitOn '\n' = first :: others) : ∀ c ∈ first, isBlank c := by
  have hnil (h : tail = [] ∨ tail.head? = some '\n') : ∀ c ∈ first, isBlank c := by
    obtain ⟨others', hothers⟩ := splitOn_of_head? h
    obtain rfl := (List.cons.inj (htail.symm.trans hothers)).1
    simp
  rcases h with h | h | ⟨rest, rfl⟩
  · exact hnil (.inl h)
  · exact hnil (.inr h)
  · obtain rfl := (List.cons.inj (htail.symm.trans (splitOn_return rest))).1
    exact List.forall_mem_singleton.2 (by decide)

/-- Each piece has got a carriage return at its end, or stayed as it is. -/
theorem Returned.forall₂ (h : Returned source other) :
    List.Forall₂ (fun piece piece' => piece' = piece ∨ piece' = piece ++ ['\r'])
      (source.splitOn '\n') (other.splitOn '\n') := by
  induction h with
  | nil => exact .cons (.inl rfl) .nil
  | @keep c t u _ ih =>
    rw [List.splitOn_cons_eq_if_modifyHead, List.splitOn_cons_eq_if_modifyHead]
    split
    · exact .cons (.inl rfl) ih
    · -- the character goes to the first piece of both
      rcases hpieces : t.splitOn '\n' with _ | ⟨piece, pieces⟩
      · exact absurd hpieces (List.splitOn_ne_nil _ _)
      · rw [hpieces] at ih
        obtain ⟨piece', pieces', hpiece, hrest, hpieces'⟩ := List.forall₂_cons_left_iff.1 ih
        rw [hpieces']
        exact .cons (hpiece.imp (congrArg (c :: ·)) (congrArg (c :: ·))) hrest
  | @turn t u _ ih =>
    rw [splitOn_cons_self, splitOn_return]
    exact .cons (.inr rfl) ih

/-- What is put between two texts, and has no line feed, goes into one piece. -/
theorem splitOn_put {middle : Text} (hmiddle : '\n' ∉ middle)
    (hfront : front.splitOn '\n' = pieces ++ [last]) (htail : tail.splitOn '\n' = first :: others) :
    (front ++ middle ++ tail).splitOn '\n' = pieces ++ (last ++ middle ++ first) :: others := by
  have hone : middle.splitOn '\n' = [middle] := List.splitOn_eq_singleton hmiddle
  exact splitOn_append (splitOn_append hfront hone) htail

end Text

namespace Line

open Text

variable {source other : Text} {k : Nat}

/-- The code of a source into which something is put within a line. -/
theorem codes_put {front middle tail : Text} (hmiddle : '\n' ∉ middle)
    (h : ∀ pieces last first others, front.splitOn '\n' = pieces ++ [last] →
      tail.splitOn '\n' = first :: others →
        code (last ++ middle ++ first) = code (last ++ first)) :
    codes (front ++ middle ++ tail) = codes (front ++ tail) := by
  obtain ⟨pieces, last, hfront⟩ := exists_splitOn_eq_concat '\n' front
  obtain ⟨first, others, htail⟩ := List.exists_cons_of_ne_nil (List.splitOn_ne_nil '\n' tail)
  rw [codes, codes, splitOn_put hmiddle hfront htail, splitOn_append hfront htail, List.map_append,
    List.map_append, List.map_cons, List.map_cons, h pieces last first others hfront htail]

/-- What stands in front of a comment that is put behind a line does not end with a slash,
and so the comment begins where it is put. -/
theorem getLast?_append_ne_slash {front last blanks : Text} (hsuffix : last <:+ front)
    (hblanks : IsSpacing blanks) (hslash : blanks ≠ [] ∨ front.getLast? ≠ some '/') :
    (last ++ blanks).getLast? ≠ some '/' := by
  intro hlast
  rcases blanks.eq_nil_or_concat' with rfl | ⟨blanks, c, rfl⟩
  · rw [List.append_nil] at hlast
    obtain ⟨before, rfl⟩ := hsuffix
    refine hslash.resolve_left (fun h => h rfl) ?_
    rw [List.getLast?_append, hlast]
    rfl
  · rw [← List.append_assoc, List.getLast?_concat] at hlast
    exact slash_notMem_of_blank hblanks.blank (by simp [Option.some.inj hlast])

/-- **An edit inside lines leaves the code of every line.** -/
theorem codes_respaced (h : Respaced source other) : codes other = codes source := by
  cases h with
  | @indented front blanks tail hstart hblanks =>
    refine codes_put hblanks.newline fun pieces last first others hfront htail => ?_
    rw [hstart.eq_nil hfront, List.nil_append, List.nil_append, code_append_left hblanks.blank]
  | @padded front blanks tail hend hblanks =>
    refine codes_put hblanks.newline fun pieces last first others hfront htail => ?_
    have hfirst := hend.blank_of_splitOn htail
    rw [code_append_right _ hfirst, code_append_right _ hfirst, code_append_right _ hblanks.blank]
  | @remarked front blanks comment tail hend hblanks hslash hcomment =>
    rw [List.append_assoc front]
    refine codes_put ?_ fun pieces last first others hfront htail => ?_
    · have hcomment : '\n' ∉ '/' :: '/' :: comment := by simp [hcomment]
      rw [List.mem_append, not_or]
      exact ⟨hblanks.newline, hcomment⟩
    · have hlast := getLast?_append_ne_slash (suffix_of_splitOn hfront) hblanks hslash
      have hmiddle : last ++ (blanks ++ '/' :: '/' :: comment) ++ first =
          last ++ blanks ++ '/' :: '/' :: (comment ++ first) := by simp
      rw [hmiddle, code_append_comment hblanks.blank hlast,
        code_append_right _ (hend.blank_of_splitOn htail)]
  | returned h =>
    have hsame : List.Forall₂ (fun piece piece' => code piece' = code piece)
        (source.splitOn '\n') (other.splitOn '\n') := by
      refine h.forall₂.imp fun piece piece' hpiece => ?_
      rcases hpiece with rfl | rfl
      · rfl
      · exact code_append_right piece (List.forall_mem_singleton.2 (by decide))
    rw [codes, codes, ← List.forall₂_eq_eq_eq, List.forall₂_map_left_iff,
      List.forall₂_map_right_iff]
    exact hsame.flip

/-- An idle line has no code. -/
theorem code_of_idle {t : Text} (h : IsIdle t) : code t = [] ∧ '\n' ∉ t := by
  cases h with
  | blank h => exact ⟨code_eq_nil_of_blank h.blank, h.newline⟩
  | @comment blanks comment h hcomment =>
    refine ⟨code_append_left h.blank _, ?_⟩
    simp [h.newline, hcomment]

/-- **A line that is put in is one more piece without code.** -/
theorem codes_inserted (h : Inserted k source other) :
    ∃ before after, codes source = before ++ after ∧ codes other = before ++ [] :: after ∧
      before.length = k := by
  cases h with
  | @above front line tail hstart hidle =>
    obtain ⟨hcode, hline⟩ := code_of_idle hidle
    obtain ⟨pieces, last, hfront⟩ := exists_splitOn_eq_concat '\n' front
    obtain ⟨first, others, htail⟩ := List.exists_cons_of_ne_nil (List.splitOn_ne_nil '\n' tail)
    obtain rfl := hstart.eq_nil hfront
    have hrest := splitOn_cons_self '\n' tail
    have hlength := length_splitOn '\n' front
    rw [hfront, List.length_append] at hlength
    refine ⟨pieces.map code, codes tail, ?_, ?_, ?_⟩
    · rw [codes, splitOn_append hfront htail, List.map_append, codes, htail, List.nil_append]
    · rw [codes, splitOn_put hline hfront hrest, List.map_append, List.map_cons, List.nil_append,
        List.append_nil, hcode, codes]
    · rw [List.length_map]
      exact Nat.succ.inj hlength
  | @below front line tail hend hidle =>
    obtain ⟨hcode, hline⟩ := code_of_idle hidle
    obtain ⟨pieces, last, hfront⟩ := exists_splitOn_eq_concat '\n' front
    obtain ⟨others, htail⟩ := splitOn_of_head? hend
    have hone : line.splitOn '\n' = [line] := List.splitOn_eq_singleton hline
    have hrest : (line ++ tail).splitOn '\n' = [] ++ (line ++ []) :: others :=
      splitOn_append hone htail
    refine ⟨codes front, others.map code, ?_, ?_, ?_⟩
    · rw [codes, splitOn_append hfront htail, List.append_nil, codes, hfront]
      simp
    · rw [codes, List.append_assoc, List.cons_append, List.splitOn_append_cons_self, hrest,
        List.nil_append, List.map_append, List.map_cons, List.append_nil, hcode, codes]
    · rw [codes, List.length_map, length_splitOn]

/-- The number of a line when one has been put in behind the first `k`. -/
def moved (k n : Nat) : Nat :=
  if n ≤ k then n else n + 1

/-- **A piece without code only moves the numbers of those behind it.** -/
theorem ofCodes_insert (before after : List Text) :
    ofCodes 1 (before ++ [] :: after) =
      (ofCodes 1 (before ++ after)).map (Line.renumber (moved before.length)) := by
  have hskip (start : Nat) : ofCodes start ([] :: after) = ofCodes (start + 1) after := rfl
  have hnext (start : Nat) : ofCodes (start + 1) after =
      (ofCodes start after).map (Line.renumber (· + 1)) := by
    rw [ofCodes, ofCodes, List.zipIdx_succ, List.filterMap_map, List.map_filterMap]
    refine List.filterMap_congr fun e _ => ?_
    obtain ⟨text, number⟩ := e
    simp only [Function.comp_apply, ofCode?]
    split <;> rfl
  have hbefore : (ofCodes 1 before).map (Line.renumber (moved before.length)) =
      ofCodes 1 before := by
    refine List.map_congr_left (g := id) (fun line hline => ?_) |>.trans (List.map_id _)
    have hnumber := (number_of_mem_ofCodes hline).2
    have hsame : moved before.length line.number = line.number := if_pos (by omega)
    rw [Line.renumber, hsame, id]
  have hafter : (ofCodes (1 + before.length) after).map (Line.renumber (moved before.length)) =
      (ofCodes (1 + before.length) after).map (Line.renumber (· + 1)) := by
    refine List.map_congr_left fun line hline => ?_
    have hnumber := (number_of_mem_ofCodes hline).1
    have hnext : moved before.length line.number = line.number + 1 := if_neg (by omega)
    rw [Line.renumber, hnext, Line.renumber]
  rw [ofCodes_append, ofCodes_append, List.map_append, hbefore, hafter, hskip, hnext]

end Line

/-! ## Programs -/

namespace Program

/-- **Layout does not matter.** A source that is edited inside its lines loads to the
same report: the same program with the same line numbers, or the same fault. A source
into which a line without code is put behind the first `k` lines loads to the same image,
the same slots and the same labels, or to the same fault, but for line numbers: those up
to `k` stay, and those behind are one more, wherever they stand. -/
theorem ofSource_edited :
    (∀ source other : Text, Text.Respaced source other → ofSource other = ofSource source) ∧
    ∀ (k : Nat) (source other : Text), Text.Inserted k source other →
      (ofSource other).result =
        ((ofSource source).result.map (Program.renumber (Line.moved k))).mapError
          (Fault.renumber (Line.moved k)) := by
  refine ⟨fun source other h => ?_, fun k source other h => ?_⟩
  · rw [ofSource, Line.ofSource_eq_ofCodes, Line.codes_respaced h, ← Line.ofSource_eq_ofCodes,
      ofSource]
  · obtain ⟨before, after, hsource, hother, rfl⟩ := Line.codes_inserted h
    have hlines : Line.ofSource other =
        (Line.ofSource source).map (Line.renumber (Line.moved before.length)) := by
      rw [Line.ofSource_eq_ofCodes, Line.ofSource_eq_ofCodes, hsource, hother,
        Line.ofCodes_insert]
    rw [ofSource, hlines, ofLines_renumber, ofSource]
    rcases ofLines (Line.ofSource source) with ⟨events, fault | program⟩
    · rfl
    · rfl

/-- A source that declares a label twice. With a comment behind its third line it has the
same fault, and with another comment in front of that line the second declaration, and
not the first, is one line further down. -/
theorem ofSource_edited_duplicate :
    let front := "[0]\na:\n".toList
    let tail := "\na:\r\n".toList
    let source := front ++ "B a".toList ++ tail
    let commented := front ++ "B a".toList ++ " ".toList ++ "// again/".toList ++ tail
    let longer := front ++ "\t// again".toList ++ '\n' :: ("B a".toList ++ tail)
    (ofSource source).result = .error (.duplicateLabel "a".toList 2 4) ∧
      Text.Respaced source commented ∧ ofSource commented = ofSource source ∧
      Text.Inserted 2 source longer ∧
      (ofSource longer).result = .error (.duplicateLabel "a".toList 2 5) := by
  intro front tail source commented longer
  have hsource : (ofSource source).result = .error (.duplicateLabel "a".toList 2 4) := by
    decide +kernel
  have hcommented : Text.Respaced source commented :=
    .remarked (.inr (.inl rfl)) ⟨List.forall_mem_singleton.2 (by decide), by decide⟩
      (.inl (by decide)) (by decide)
  have htwo : front.count '\n' = 2 := by decide +kernel
  have hidle : Text.IsIdle "\t// again".toList :=
    @Text.IsIdle.comment "\t".toList " again".toList
      ⟨List.forall_mem_singleton.2 (by decide), by decide⟩ (by decide)
  have hlonger : Text.Inserted 2 source longer := by
    rw [← htwo, show source = front ++ ("B a".toList ++ tail) from List.append_assoc _ _ _]
    exact .above (.inr (by decide)) hidle
  obtain ⟨hedited, hinserted⟩ := ofSource_edited
  refine ⟨hsource, hcommented, hedited _ _ hcommented, hlonger, ?_⟩
  rw [hinserted 2 _ _ hlonger, hsource]
  rfl

end Program

end TeachAsm
