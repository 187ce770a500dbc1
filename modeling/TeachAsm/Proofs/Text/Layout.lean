import Mathlib.Data.List.TakeWhile
import TeachAsm.Proofs.Text.Line
/-!
# The layout of a line

What matters of a physical line is its code, and what matters of a source is the code
between its line feeds, piece by piece (`Line.ofSource_eq_ofCodes`): a carriage return
at the end of a line is a blank, and what stands behind the last line feed has code or
has none. Blanks at either end of a line do not change its code, nor does a comment
behind it, unless a slash in front of the comment makes it begin earlier
(`Line.code_append_comment`). What is put into a source between two line feeds goes into
one piece (`Text.splitOn_append`).
-/

namespace TeachAsm

namespace Text

variable {p : Char → Bool} {front tail t : Text}

/-! ## Stripping -/

/-- Characters of the class behind make no difference. -/
theorem strip_append_right (t : Text) {back : Text} (hback : ∀ c ∈ back, p c) :
    strip p (t ++ back) = strip p t := by
  have hall : back.dropWhile p = [] := List.dropWhile_eq_nil_iff.2 hback
  rw [strip, strip, List.dropWhile_append]
  split
  · next hnone => rw [hall, List.isEmpty_iff.1 hnone]
  · rw [List.reverse_append, List.dropWhile_append_of_pos fun c hc => hback c (by simpa using hc)]

/-! ## Pieces -/

theorem splitOn_cons_self (c : Char) (t : Text) : (c :: t).splitOn c = [] :: t.splitOn c :=
  List.splitOn_append_cons_self_of_not_mem List.not_mem_nil t

theorem splitOn_return (t : Text) : ('\r' :: '\n' :: t).splitOn '\n' = ['\r'] :: t.splitOn '\n' :=
  have hfree : '\n' ∉ ['\r'] := by decide
  List.splitOn_append_cons_self_of_not_mem hfree t

/-- There always is a last piece. -/
theorem exists_splitOn_eq_concat (c : Char) (t : Text) :
    ∃ pieces last, t.splitOn c = pieces ++ [last] :=
  (List.eq_nil_or_concat' (t.splitOn c)).resolve_left (List.splitOn_ne_nil c t)

/-- Where two texts are put together that consist of pieces, two of these become one. -/
theorem intercalate_append_intercalate (c : Char) (pieces : List Text) (last first : Text)
    (others : List Text) :
    [c].intercalate (pieces ++ [last]) ++ [c].intercalate (first :: others) =
      [c].intercalate (pieces ++ (last ++ first) :: others) := by
  induction pieces with
  | nil => cases others <;> simp
  | cons piece pieces ih =>
    rw [List.cons_append, List.cons_append,
      List.intercalate_cons_of_ne_nil (l := piece) (List.concat_ne_nil _ _),
      List.intercalate_cons_of_ne_nil (l := piece) (by simp), ← ih, List.append_assoc]

/-- A text ends with its last piece. -/
theorem suffix_of_splitOn {c : Char} {last : Text} {pieces : List Text}
    (h : t.splitOn c = pieces ++ [last]) : last <:+ t := by
  have hsuffix (pieces : List Text) : last <:+ [c].intercalate (pieces ++ [last]) := by
    induction pieces with
    | nil => simp
    | cons piece pieces ih =>
      rw [List.cons_append, List.intercalate_cons_of_ne_nil (List.concat_ne_nil _ _)]
      exact ih.trans (List.suffix_append _ _)
  have htext : [c].intercalate (t.splitOn c) = t := List.intercalate_splitOn c
  rw [← htext, h]
  exact hsuffix pieces

/-- Two texts one behind the other have the pieces of both, and the last piece of the
first and the first piece of the second are one. -/
theorem splitOn_append {c : Char} {first last : Text} {pieces others : List Text}
    (hfront : front.splitOn c = pieces ++ [last]) (htail : tail.splitOn c = first :: others) :
    (front ++ tail).splitOn c = pieces ++ (last ++ first) :: others := by
  have hfree : ∀ piece ∈ pieces ++ (last ++ first) :: others, c ∉ piece := by
    have hfirst : ∀ piece ∈ pieces ++ [last], c ∉ piece :=
      fun piece hpiece => notMem_of_mem_splitOn (hfront ▸ hpiece)
    have hothers : ∀ piece ∈ first :: others, c ∉ piece :=
      fun piece hpiece => notMem_of_mem_splitOn (htail ▸ hpiece)
    intro piece hpiece
    rcases List.mem_append.1 hpiece with hpiece | hpiece
    · exact hfirst piece (List.mem_append_left _ hpiece)
    · rcases List.mem_cons.1 hpiece with rfl | hpiece
      · rw [List.mem_append, not_or]
        exact ⟨hfirst last (by simp), hothers first (by simp)⟩
      · exact hothers piece (List.mem_cons_of_mem _ hpiece)
  have hfront' : [c].intercalate (front.splitOn c) = front := List.intercalate_splitOn c
  have htail' : [c].intercalate (tail.splitOn c) = tail := List.intercalate_splitOn c
  rw [← hfront', ← htail', hfront, htail, intercalate_append_intercalate,
    List.splitOn_intercalate c hfree (by simp)]

/-- There is one piece more than there are places to cut. -/
theorem length_splitOn (c : Char) (t : Text) : (t.splitOn c).length = t.count c + 1 := by
  induction t with
  | nil => rfl
  | cons d t ih =>
    rw [List.splitOn_cons_eq_if_modifyHead, List.count_cons]
    split
    · rw [List.length_cons, ih]
    · rw [List.length_modifyHead, ih, Nat.add_zero]

end Text

namespace Line

variable {t blanks front back : Text}

/-! ## The code of a line -/

theorem slash_notMem_of_blank (h : ∀ c ∈ blanks, Text.isBlank c) : '/' ∉ blanks :=
  fun hmem => absurd (h _ hmem) (by decide)

/-- The first character stays if no comment begins with it. -/
theorem beforeComment_cons {c : Char} {rest : Text} (h : c = '/' → rest.head? ≠ some '/') :
    beforeComment (c :: rest) = c :: beforeComment rest := by
  rw [beforeComment]
  rintro after rfl rfl
  exact h rfl rfl

/-- What is put in front of a text and has no slash is in front of its comment. -/
theorem beforeComment_append (hfront : '/' ∉ front) (t : Text) :
    beforeComment (front ++ t) = front ++ beforeComment t := by
  induction front with
  | nil => rfl
  | cons c front ih =>
    rw [List.mem_cons, not_or] at hfront
    rw [List.cons_append, beforeComment_cons fun hc => absurd hc.symm hfront.1, ih hfront.2,
      List.cons_append]

/-- What is put behind a text and has no slash is in its comment, or is kept. -/
theorem beforeComment_append_right (t : Text) (hback : '/' ∉ back) :
    beforeComment (t ++ back) = beforeComment t ∨
      beforeComment (t ++ back) = beforeComment t ++ back := by
  fun_induction beforeComment t with
  | case1 => exact .inr (beforeComment_eq_self hback)
  | case2 rest => exact .inl rfl
  | case3 c rest hcomment ih =>
    have hcons : beforeComment (c :: (rest ++ back)) = c :: beforeComment (rest ++ back) := by
      refine beforeComment_cons fun hc hslash => ?_
      cases rest with
      | nil => exact hback (List.mem_of_mem_head? hslash)
      | cons d rest =>
        obtain rfl : d = '/' := Option.some.inj hslash
        exact hcomment rest hc rfl
    rw [List.cons_append, hcons]
    exact ih.imp (congrArg (c :: ·)) (congrArg (c :: ·))

/-- A comment that is put behind a text ends it, unless a slash in front of it makes it
begin earlier. -/
theorem beforeComment_append_comment {t : Text} (h : t.getLast? ≠ some '/') (comment : Text) :
    beforeComment (t ++ '/' :: '/' :: comment) = beforeComment t := by
  fun_induction beforeComment t with
  | case1 => rfl
  | case2 rest => rfl
  | case3 c rest hcomment ih =>
    cases rest with
    | nil =>
      rw [List.singleton_append, beforeComment_cons fun hc : c = '/' =>
        absurd (congrArg some hc) h]
      rfl
    | cons d rest =>
      rw [List.getLast?_cons_cons] at h
      rw [List.cons_append, beforeComment_cons, ih h]
      intro hc hslash
      obtain rfl : d = '/' := Option.some.inj hslash
      exact hcomment rest hc rfl

/-- **Blanks in front of a line** do not change its code. -/
theorem code_append_left (hblanks : ∀ c ∈ blanks, Text.isBlank c) (t : Text) :
    code (blanks ++ t) = code t := by
  rw [code, beforeComment_append (slash_notMem_of_blank hblanks)]
  exact Text.strip_append hblanks _

/-- **Blanks behind a line** do not change its code. -/
theorem code_append_right (t : Text) (hblanks : ∀ c ∈ blanks, Text.isBlank c) :
    code (t ++ blanks) = code t := by
  rcases beforeComment_append_right t (slash_notMem_of_blank hblanks) with h | h
  · rw [code, h, code]
  · rw [code, h]
    exact Text.strip_append_right _ hblanks

/-- **A comment behind a line** does not change its code, and may have blanks in front of
it. -/
theorem code_append_comment {t : Text} (hblanks : ∀ c ∈ blanks, Text.isBlank c)
    (hslash : (t ++ blanks).getLast? ≠ some '/') (comment : Text) :
    code (t ++ blanks ++ '/' :: '/' :: comment) = code t := by
  rw [← code_append_right t hblanks, code, beforeComment_append_comment hslash, code]

theorem code_eq_nil_of_blank (hblanks : ∀ c ∈ blanks, Text.isBlank c) : code blanks = [] :=
  code_append_right [] hblanks

theorem code_dropReturn (t : Text) : code (Text.dropReturn t) = code t := by
  unfold Text.dropReturn
  split
  · next h =>
    have hreturn : ∀ c ∈ ['\r'], Text.isBlank c := List.forall_mem_singleton.2 (by decide)
    obtain ⟨front, rfl⟩ := List.getLast?_eq_some_iff.1 h
    rw [List.dropLast_concat, code_append_right front hreturn]
  · rfl

/-! ## The code of a source -/

/-- The code between the line feeds of a source, piece by piece. -/
def codes (source : Text) : List Text :=
  (source.splitOn '\n').map code

/-- The line with some code and a number, if there is code. -/
def ofCode? (text : Text) (number : Nat) : Option Line :=
  if text = [] then none else some ⟨number, text⟩

/-- The lines of code that pieces make up, numbered from `start`. -/
def ofCodes (start : Nat) (codes : List Text) : List Line :=
  (codes.zipIdx start).filterMap fun (text, number) => ofCode? text number

variable {start : Nat} {before after : List Text} {line : Line}

theorem ofPhysical?_eq_ofCode? (physical : Text) (number : Nat) :
    ofPhysical? physical number = ofCode? (code physical) number := by
  unfold ofPhysical? ofCode?
  split
  · next h => rw [if_pos h]
  · next h => rw [if_neg h]

theorem ofCodes_append (start : Nat) (before after : List Text) :
    ofCodes start (before ++ after) =
      ofCodes start before ++ ofCodes (start + before.length) after := by
  rw [ofCodes, List.zipIdx_append, List.filterMap_append]
  rfl

/-- **The lines of code of a source are settled by the code of its pieces.** -/
theorem ofSource_eq_ofCodes (source : Text) : ofSource source = ofCodes 1 (codes source) := by
  have hlines : ofSource source = ofCodes 1 ((Text.lines source).map code) := by
    rw [ofSource, ofCodes, List.zipIdx_map, List.filterMap_map]
    exact List.filterMap_congr fun e _ => ofPhysical?_eq_ofCode? e.1 e.2
  obtain ⟨pieces, last, hpieces⟩ := Text.exists_splitOn_eq_concat '\n' source
  have hfront : (pieces.map Text.dropReturn).map code = pieces.map code := by
    rw [List.map_map]
    exact List.map_congr_left fun piece _ => code_dropReturn piece
  rw [hlines, Text.lines, codes, hpieces, List.dropLast_concat, List.getLast?_concat,
    List.map_append, hfront, List.map_append, ofCodes_append, ofCodes_append]
  congr 1
  cases last <;> rfl

theorem number_of_mem_ofCodes (h : line ∈ ofCodes start before) :
    start ≤ line.number ∧ line.number < start + before.length := by
  obtain ⟨⟨text, number⟩, hmem, hline⟩ := List.mem_filterMap.1 h
  have hline : ofCode? text number = some line := hline
  rw [ofCode?] at hline
  split at hline
  · cases hline
  · rw [← Option.some.inj hline]
    exact ⟨List.le_snd_of_mem_zipIdx hmem, List.snd_lt_add_of_mem_zipIdx hmem⟩

end Line

end TeachAsm
