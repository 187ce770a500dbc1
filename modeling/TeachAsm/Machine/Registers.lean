import TeachAsm.Machine.Word
/-!
# Registers

A register exists once it has been written. The registers that exist are kept
in ascending order of their numbers, so that there is one value for each
set of contents. Beside them stands the flag of the last comparison,
which is unset until there is one. `get?_write` says what a write does.
-/

namespace TeachAsm

namespace Registers

/-- Puts the contents of a register in their place in an ascending list,
instead of the contents it had. -/
def insertEntry (r : Register) (w : Word) : List (Register × Word) → List (Register × Word)
  | [] => [(r, w)]
  | (q, v) :: rest =>
    if r < q then (r, w) :: (q, v) :: rest
    else if r = q then (r, w) :: rest
    else (q, v) :: insertEntry r w rest

theorem eq_or_mem_of_mem_insertEntry {r : Register} {w : Word} {e : Register × Word}
    {entries : List (Register × Word)} (h : e ∈ insertEntry r w entries) :
    e = (r, w) ∨ e ∈ entries := by
  fun_induction insertEntry r w entries with
  | case1 => simpa using h
  | case2 => simpa using h
  | case3 =>
    rcases List.mem_cons.1 h with h | h
    · exact .inl h
    · exact .inr (List.mem_cons_of_mem _ h)
  | case4 q v rest _ _ ih =>
    rcases List.mem_cons.1 h with h | h
    · exact .inr (h ▸ List.mem_cons_self)
    · exact (ih h).imp_right (List.mem_cons_of_mem _)

/-- Inserting keeps the list ascending. -/
theorem pairwise_insertEntry {r : Register} {w : Word} {entries : List (Register × Word)}
    (h : entries.Pairwise fun x y => x.1 < y.1) :
    (insertEntry r w entries).Pairwise fun x y => x.1 < y.1 := by
  fun_induction insertEntry r w entries with
  | case1 => exact List.pairwise_singleton _ _
  | case2 q v rest hr =>
    refine List.pairwise_cons.2 ⟨fun e he => ?_, h⟩
    rcases List.mem_cons.1 he with rfl | he
    · exact hr
    · exact UInt32.lt_trans hr ((List.pairwise_cons.1 h).1 e he)
  | case3 => exact List.pairwise_cons.2 ⟨(List.pairwise_cons.1 h).1, (List.pairwise_cons.1 h).2⟩
  | case4 q v rest hlt hne ih =>
    have hq : q < r := UInt32.lt_of_le_of_ne (UInt32.not_lt.1 hlt) (Ne.symm hne)
    refine List.pairwise_cons.2 ⟨fun e he => ?_, ih (List.pairwise_cons.1 h).2⟩
    rcases eq_or_mem_of_mem_insertEntry he with rfl | he
    · exact hq
    · exact (List.pairwise_cons.1 h).1 e he

/-- Looking up by the key of the first entry or past it. -/
theorem lookup_cons_eq_ite (q r : Register) (w : Word) (entries : List (Register × Word)) :
    ((r, w) :: entries).lookup q = if q = r then some w else entries.lookup q := by
  by_cases h : q = r
  · simp [h]
  · simp [List.lookup_cons, beq_false_of_ne h, h]

theorem lookup_insertEntry (r q : Register) (w : Word) (entries : List (Register × Word)) :
    (insertEntry r w entries).lookup q = if q = r then some w else entries.lookup q := by
  fun_induction insertEntry r w entries with
  | case1 => exact lookup_cons_eq_ite q r w []
  | case2 => exact lookup_cons_eq_ite q r w _
  | case3 v rest =>
    rw [lookup_cons_eq_ite, lookup_cons_eq_ite]
    split <;> rfl
  | case4 p v rest _ hne ih =>
    rw [lookup_cons_eq_ite, lookup_cons_eq_ite, ih]
    by_cases h : q = p
    · subst h
      simp [Ne.symm hne]
    · simp [h]

theorem insertEntry_insertEntry (r : Register) (w : Word) (entries : List (Register × Word)) :
    insertEntry r w (insertEntry r w entries) = insertEntry r w entries := by
  fun_induction insertEntry r w entries with
  | case1 | case2 | case3 => simp [insertEntry]
  | case4 q v rest hlt hne ih => simp [insertEntry, hlt, hne, ih]

end Registers

/-- The registers that exist, and the flag. -/
structure Registers where
  /-- Number and contents of each register that exists. -/
  entries : List (Register × Word) := []
  /-- The entries stand in ascending order. -/
  ascending : entries.Pairwise fun x y => x.1 < y.1 := by exact List.Pairwise.nil
  /-- The outcome of the last comparison. -/
  flag : Option Flag := none
  deriving DecidableEq, Repr

namespace Registers

/-- No registers, and the flag unset. -/
def empty : Registers := {}

/-- The contents of a register, if it exists. -/
def get? (rs : Registers) (r : Register) : Option Word :=
  rs.entries.lookup r

/-- The contents of a register, zero if it does not exist. -/
def get (rs : Registers) (r : Register) : Word :=
  (rs.get? r).getD 0

/-- The registers with `w` in register `r`. -/
def write (rs : Registers) (r : Register) (w : Word) : Registers :=
  { entries := insertEntry r w rs.entries
    ascending := pairwise_insertEntry rs.ascending
    flag := rs.flag }

/-- The registers with the flag set. -/
def setFlag (rs : Registers) (flag : Flag) : Registers :=
  { rs with flag := some flag }

/-- **A write changes its register and no other.** -/
@[simp] theorem get?_write (rs : Registers) (r q : Register) (w : Word) :
    (rs.write r w).get? q = if q = r then some w else rs.get? q :=
  lookup_insertEntry r q w rs.entries

@[simp] theorem flag_write (rs : Registers) (r : Register) (w : Word) :
    (rs.write r w).flag = rs.flag :=
  rfl

theorem get_write (rs : Registers) (r q : Register) (w : Word) :
    (rs.write r w).get q = if q = r then w else rs.get q := by
  rw [get, get?_write]
  split <;> rfl

/-- Writing again changes nothing. -/
@[simp] theorem write_write (rs : Registers) (r : Register) (w : Word) :
    (rs.write r w).write r w = rs.write r w := by
  simp [write, insertEntry_insertEntry]

/-- The registers with the given contents, later entries over earlier ones. -/
def ofList (entries : List (Register × Word)) (flag : Option Flag) : Registers :=
  { entries.foldl (fun (rs : Registers) (r, w) => rs.write r w) empty with flag := flag }

end Registers

end TeachAsm
