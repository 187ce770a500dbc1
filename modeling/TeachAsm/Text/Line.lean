import TeachAsm.Text.Blank
/-!
# The lines of a source

A source is cut into physical lines at its line feeds (`Text.lines`); they are
numbered from one. What matters of a line is its code: the part in front of the
first `//`, trimmed. Lines without code are dropped, and the others keep the
number they have in the source (`Line.ofSource`).
-/

namespace TeachAsm

namespace Text

/-- A text without the carriage return at its end. -/
def dropReturn (t : Text) : Text :=
  if t.getLast? = some '\r' then t.dropLast else t

/-- The physical lines of a source. A line feed ends a line, together with a
carriage return in front of it; what stands behind the last line feed is a
line as well, unless it is empty. -/
def lines (source : Text) : List Text :=
  let pieces := source.splitOn '\n'
  pieces.dropLast.map dropReturn ++ pieces.getLast?.toList.filter (· ≠ [])

end Text

/-- A line of code, with the number of the physical line it stands on. -/
structure Line where
  /-- The physical line, counted from one. -/
  number : Nat
  /-- The code on it: no comment, no blank at either end. -/
  text : Text
  deriving DecidableEq, Repr

namespace Line

/-- The part of a text in front of its first `//`. -/
def beforeComment : Text → Text
  | [] => []
  | '/' :: '/' :: _ => []
  | c :: rest => c :: beforeComment rest

/-- The code of a physical line. -/
def code (t : Text) : Text :=
  Text.trim (beforeComment t)

/-- The line of code that a physical line with the given number holds. -/
def ofPhysical? (physical : Text) (number : Nat) : Option Line :=
  match code physical with
  | [] => none
  | text => some ⟨number, text⟩

/-- The lines of a source that hold code, in order. -/
def ofSource (source : Text) : List Line :=
  ((Text.lines source).zipIdx 1).filterMap fun (physical, number) => ofPhysical? physical number

theorem ofPhysical?_eq_some_iff {physical : Text} {number : Nat} {line : Line} :
    ofPhysical? physical number = some line ↔
      line.number = number ∧ line.text = code physical ∧ line.text ≠ [] := by
  obtain ⟨number', text⟩ := line
  unfold ofPhysical?
  split
  · next hcode =>
    simp only [reduceCtorEq, false_iff]
    rintro ⟨-, htext, hne⟩
    exact hne (htext.trans hcode)
  · next hne =>
    simp only [Option.some.injEq, mk.injEq]
    constructor
    · rintro ⟨rfl, rfl⟩
      exact ⟨rfl, rfl, hne⟩
    · rintro ⟨rfl, rfl, -⟩
      exact ⟨rfl, rfl⟩

/-- A line holds the code of a physical line of a source, and its number. -/
def StandsIn (source : Text) (line : Line) : Prop :=
  ∃ place physical, (Text.lines source)[place]? = some physical ∧ line.number = 1 + place ∧
    line.text = code physical ∧ line.text ≠ []

/-- **The lines of code are those that stand in the source.** -/
theorem mem_ofSource_iff {source : Text} {line : Line} :
    line ∈ ofSource source ↔ line.StandsIn source := by
  simp only [ofSource, List.mem_filterMap, ofPhysical?_eq_some_iff]
  constructor
  · rintro ⟨⟨physical, number⟩, hmem, hnumber, htext, hne⟩
    obtain ⟨hle, hphysical⟩ := List.mk_mem_zipIdx_iff_le_and_getElem?_sub.1 hmem
    exact ⟨number - 1, physical, hphysical, by omega, htext, hne⟩
  · rintro ⟨place, physical, hphysical, hnumber, htext, hne⟩
    exact ⟨(physical, 1 + place), List.mk_add_mem_zipIdx_iff_getElem?.2 hphysical, hnumber, htext,
      hne⟩

/-- The lines of code stand in the order of their numbers. -/
theorem pairwise_number_ofSource (source : Text) :
    (ofSource source).Pairwise fun line other => line.number < other.number := by
  refine List.pairwise_filterMap.2 (List.pairwise_iff_getElem.2 ?_)
  intro i j hi hj hij line hline other hother
  have hnumber := (ofPhysical?_eq_some_iff.1 hline).1
  have hnumber' := (ofPhysical?_eq_some_iff.1 hother).1
  simp only [List.get_eq_getElem, List.getElem_zipIdx] at hnumber hnumber'
  omega

end Line

end TeachAsm
