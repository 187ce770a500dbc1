import Mathlib.Data.List.Basic
import TeachAsm.Text.Line
/-!
# Lines that are written

A text is plain when it is a line of code as it stands: it has no line feed, no
slash, and no blank at its ends (`Text.IsPlain`). Plain texts that are written on
lines of their own are read back as the lines of code there are, numbered from
one (`Line.ofSource_intercalate`). Reading puts nothing into a line, and so no
line of code holds a line feed (`Line.newline_notMem_of_mem_ofSource`).
-/

namespace TeachAsm

namespace Text

/-! ## Physical lines -/

/-- What is cut at a character holds none. -/
theorem notMem_of_mem_splitOn {c : Char} {t piece : Text} (h : piece ∈ t.splitOn c) :
    c ∉ piece := by
  rw [List.splitOn_eq_splitOnP] at h
  induction t generalizing piece with
  | nil =>
    rw [List.splitOnP_nil, List.mem_singleton] at h
    simp [h]
  | cons d t ih =>
    rw [List.splitOnP_cons_eq_if_modifyHead] at h
    split at h
    · rcases List.mem_cons.1 h with rfl | h
      · simp
      · exact ih h
    · next hd =>
      -- the character is put in front of the first piece, and is another one
      obtain ⟨first, others, hpieces⟩ :=
        List.exists_cons_of_ne_nil (List.splitOnP_ne_nil (· == c) t)
      rw [hpieces, List.modifyHead_cons, List.mem_cons] at h
      rw [hpieces] at ih
      rcases h with rfl | h
      · have hfirst := ih List.mem_cons_self
        intro hmem
        rcases List.mem_cons.1 hmem with rfl | hmem
        · simp at hd
        · exact hfirst hmem
      · exact ih (List.mem_cons_of_mem _ h)

theorem mem_of_mem_dropReturn {t : Text} {c : Char} (h : c ∈ dropReturn t) : c ∈ t := by
  unfold dropReturn at h
  split at h
  · exact (List.dropLast_sublist t).mem h
  · exact h

/-- No physical line holds a line feed. -/
theorem newline_notMem_of_mem_lines {source physical : Text} (h : physical ∈ lines source) :
    '\n' ∉ physical := by
  rw [lines, List.mem_append] at h
  rcases h with h | h
  · obtain ⟨piece, hpiece, rfl⟩ := List.mem_map.1 h
    intro hmem
    exact notMem_of_mem_splitOn ((List.dropLast_sublist _).mem hpiece) (mem_of_mem_dropReturn hmem)
  · have hlast := (List.mem_filter.1 h).1
    rw [Option.mem_toList] at hlast
    exact notMem_of_mem_splitOn (List.mem_of_mem_getLast? hlast)

/-- **A text that is a line of code as it stands.** -/
structure IsPlain (t : Text) : Prop where
  newline : '\n' ∉ t
  slash : '/' ∉ t
  ne_nil : t ≠ []
  head : ∀ c ∈ t.head?, isBlank c = false
  last : ∀ c ∈ t.getLast?, isBlank c = false

/-- A plain text keeps what it ends with. -/
theorem IsPlain.dropReturn_eq {t : Text} (h : t.IsPlain) : dropReturn t = t := by
  rw [dropReturn, if_neg]
  intro hreturn
  exact absurd (h.last _ hreturn) (by decide)

/-- **Texts on lines of their own are the physical lines there are.** -/
theorem lines_intercalate {ts : List Text} (hne : ts ≠ []) (h : ∀ t ∈ ts, t.IsPlain) :
    lines ("\n".toList.intercalate ts) = ts := by
  have hpieces : ("\n".toList.intercalate ts).splitOn '\n' = ts :=
    List.splitOn_intercalate '\n' (fun t ht => (h t ht).newline) hne
  have hlast : (ts.getLast hne).IsPlain := h _ (List.getLast_mem hne)
  have hfront : ts.dropLast.map dropReturn = ts.dropLast := by
    rw [List.map_congr_left fun t ht => (h t ((List.dropLast_sublist ts).mem ht)).dropReturn_eq,
      List.map_id']
  rw [lines, hpieces, hfront, List.getLast?_eq_some_getLast hne]
  simp only [Option.toList_some, List.filter_cons, List.filter_nil, hlast.ne_nil, ne_eq,
    not_false_eq_true, decide_true, if_true]
  exact List.dropLast_concat_getLast hne

end Text

namespace Line

/-! ## The code of a line -/

/-- Where there is no slash there is no comment. -/
theorem beforeComment_eq_self {t : Text} (h : '/' ∉ t) : beforeComment t = t := by
  fun_induction beforeComment t with
  | case1 => rfl
  | case2 rest => simp at h
  | case3 c rest hcomment ih => rw [ih fun hmem => h (List.mem_cons_of_mem _ hmem)]

theorem mem_of_mem_beforeComment {t : Text} {c : Char} (h : c ∈ beforeComment t) : c ∈ t := by
  fun_induction beforeComment t with
  | case1 => exact h
  | case2 rest => simp at h
  | case3 d rest hcomment ih =>
    rcases List.mem_cons.1 h with rfl | h
    · exact List.mem_cons_self
    · exact List.mem_cons_of_mem _ (ih h)

/-- A plain text is the code of the line it stands on. -/
theorem code_eq_self {t : Text} (h : t.IsPlain) : code t = t := by
  rw [code, beforeComment_eq_self h.slash]
  exact Text.strip_eq_self h.head h.last

/-- No line of code holds a line feed. -/
theorem newline_notMem_of_mem_ofSource {source : Text} {line : Line} (h : line ∈ ofSource source) :
    '\n' ∉ line.text := by
  obtain ⟨place, physical, hphysical, -, htext, -⟩ := mem_ofSource_iff.1 h
  intro hmem
  rw [htext] at hmem
  have hmem : '\n' ∈ physical := mem_of_mem_beforeComment (Text.mem_of_mem_strip hmem)
  exact Text.newline_notMem_of_mem_lines (List.mem_of_getElem? hphysical) hmem

/-- **Plain texts on lines of their own are the lines of code there are**, one
on each physical line. -/
theorem ofSource_intercalate {ts : List Text} (hne : ts ≠ []) (h : ∀ t ∈ ts, t.IsPlain) :
    ofSource ("\n".toList.intercalate ts) = (ts.zipIdx 1).map fun (t, number) => ⟨number, t⟩ := by
  rw [ofSource, Text.lines_intercalate hne h, ← List.filterMap_eq_map]
  refine List.filterMap_congr ?_
  rintro ⟨t, number⟩ hmem
  have hplain := h t (List.mem_of_getElem? (List.mk_mem_zipIdx_iff_le_and_getElem?_sub.1 hmem).2)
  exact ofPhysical?_eq_some_iff.2 ⟨rfl, (code_eq_self hplain).symm, hplain.ne_nil⟩

end Line

end TeachAsm
