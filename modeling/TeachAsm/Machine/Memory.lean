import TeachAsm.Machine.Word
/-!
# Memory

Memory is a row of words, addressed from zero. Reading past its end gives
zero. Writing past its end makes it longer and fills the gap with zeros, up to
a length of `Memory.limit` words; a memory that starts out longer keeps its
length. `put` is the write itself, and `put?` the write as instructions do it,
with the limit. Two lemmas say what a write does to the only views there are:
`size_put` and `get_put`.
-/

namespace TeachAsm

/-- The words of memory, in address order. -/
structure Memory where
  words : Array Word := #[]
  deriving DecidableEq, Repr

namespace Memory

/-- Writing makes memory no longer than this. -/
def limit : Nat := 65536

/-- The number of words. -/
def size (m : Memory) : Nat :=
  m.words.size

/-- The word at an address, zero past the end. -/
def get (m : Memory) (a : Nat) : Word :=
  m.words.getD a 0

/-- Memory with zeros added until it has `n` words; longer memory stays as it is. -/
def grow (m : Memory) (n : Nat) : Memory :=
  ⟨m.words ++ Array.replicate (n - m.words.size) 0⟩

/-- Memory with `w` at address `a`, made longer where that is needed. -/
def put (m : Memory) (a : Nat) (w : Word) : Memory :=
  ⟨(m.grow (a + 1)).words.setIfInBounds a w⟩

/-- Whether an address may be written: it lies inside, or below the limit. -/
abbrev Writable (m : Memory) (a : Nat) : Prop :=
  a < m.size ∨ a < limit

/-- Memory with `w` at address `a`, unless that is past the limit. -/
def put? (m : Memory) (a : Nat) (w : Word) : Option Memory :=
  if m.Writable a then some (m.put a w) else none

/-! ## What growing and writing do to size and contents -/

@[simp] theorem size_grow (m : Memory) (n : Nat) : (m.grow n).size = max m.size n := by
  simp only [grow, size, Array.size_append, Array.size_replicate]
  omega

@[simp] theorem get_grow (m : Memory) (n a : Nat) : (m.grow n).get a = m.get a := by
  simp only [grow, get, Array.getD_eq_getD_getElem?, Array.getElem?_append,
    Array.getElem?_replicate]
  split
  · rfl
  · next h =>
    rw [Array.getElem?_eq_none (by omega)]
    split <;> rfl

@[simp] theorem size_put (m : Memory) (a : Nat) (w : Word) :
    (m.put a w).size = max m.size (a + 1) := by
  simpa [put, size] using m.size_grow (a + 1)

/-- **A write changes the word at its address and no other.** -/
theorem get_put (m : Memory) (a b : Nat) (w : Word) :
    (m.put a w).get b = if b = a then w else m.get b := by
  have hsize : a < (m.grow (a + 1)).words.size := by
    have := m.size_grow (a + 1)
    simp only [size] at this
    omega
  by_cases h : b = a
  · subst h
    simp [put, get, Array.getElem?_setIfInBounds_self_of_lt hsize]
  · have hget := m.get_grow (a + 1) b
    simp only [get, Array.getD_eq_getD_getElem?] at hget
    simp [put, get, Array.getElem?_setIfInBounds_ne (Ne.symm h), hget, h]

/-- Writing again changes nothing. -/
@[simp] theorem put_put (m : Memory) (a : Nat) (w : Word) : (m.put a w).put a w = m.put a w := by
  have hgrow : (m.put a w).grow (a + 1) = m.put a w := by
    have hsize : a + 1 - (m.put a w).words.size = 0 := by
      have := m.size_put a w
      rw [size] at this
      omega
    rw [grow, hsize, Array.replicate_zero, Array.append_empty]
  rw [put, hgrow, put, Array.setIfInBounds_setIfInBounds]

theorem put?_eq_some_iff {m m' : Memory} {a : Nat} {w : Word} :
    m.put? a w = some m' ↔ m.Writable a ∧ m.put a w = m' := by
  unfold put?
  split
  · next h => simp [h]
  · next h => simp only [reduceCtorEq, false_iff]; exact fun h' => h h'.1

end Memory

end TeachAsm
