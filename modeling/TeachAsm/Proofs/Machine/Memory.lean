import TeachAsm.Machine.Action
/-!
# Memory as a map

Memory is kept as a row of words that grows, but it is used as a map from every
address to a word. Its length decides which addresses may be written, and a write
may change its length; but not the bound that the length and the limit have in
common (`Memory.bound_after`). So which writes succeed is settled by the memory that
a program starts with, whatever has been read and written since. After any accesses,
an address holds what was written to it last, or what it held in the beginning
(`get_after`), and memory ends behind the last address that was ever written
(`size_after`). Writes to different addresses may therefore change places
(`access_access_comm`).
-/

namespace TeachAsm

/-- A use of memory. -/
inductive Access where
  /-- The word at an address is read. -/
  | read (a : Address)
  /-- A word is written to an address, unless that is past the limit. -/
  | write (a : Address) (w : Word)
  deriving DecidableEq, Repr

namespace Memory

/-- Memory after an access. A write that is refused gives no other memory. -/
def access (m : Memory) : Access → Memory
  | .read _ => m
  | .write a w => (m.put? a.toNat w).getD m

/-- Memory after some accesses, one after the other. -/
def after (m : Memory) (accesses : List Access) : Memory :=
  accesses.foldl access m

/-- The writes that succeed among some accesses, in order. -/
def written (m : Memory) : List Access → List (Address × Word)
  | [] => []
  | .read _ :: accesses => m.written accesses
  | .write a w :: accesses =>
    match m.put? a.toNat w with
    | some m' => (a, w) :: m'.written accesses
    | none => m.written accesses

variable {m m' : Memory}

/-! ## One access -/

/-- **A write succeeds below the bound**, and nowhere else. -/
theorem put?_eq_ite (m : Memory) (a : Nat) (w : Word) :
    m.put? a w = if a < max m.size limit then some (m.put a w) else none := by
  have hiff : m.Writable a ↔ a < max m.size limit := by omega
  simp only [put?, hiff]

theorem access_write (m : Memory) (a : Address) (w : Word) :
    m.access (.write a w) = if a.toNat < max m.size limit then m.put a.toNat w else m := by
  rw [access, put?_eq_ite]
  split <;> rfl

/-- **An access leaves the bound where it is**: memory that is longer than the limit
has been so from the beginning. -/
theorem bound_access (m : Memory) (access : Access) :
    max (m.access access).size limit = max m.size limit := by
  cases access with
  | read a => rfl
  | write a w =>
    rw [access_write]
    split
    · rw [size_put]
      omega
    · rfl

/-- An instruction that writes in place does what a write does, and reports a fault
instead when it is refused. -/
theorem setWord_eq_put? (a : Nat) (w : Word) (fault : Fault) (machine : Machine) :
    Action.setWord a w fault machine =
      match machine.memory.put? a w with
      | some memory => ({ machine with memory }, Report.note (machine.memory.growth a))
      | none => (machine, Report.fail fault) := by
  rw [Action.setWord, put?]
  by_cases h : machine.memory.Writable a
  · rw [if_pos h, if_pos h]
  · rw [if_neg h, if_neg h]

/-! ## Memories with the same words -/

/-- Memories of one length that hold the same words are the same. -/
theorem eq_of_get_eq (hsize : m.size = m'.size) (hget : ∀ a, m.get a = m'.get a) : m = m' := by
  obtain ⟨words⟩ := m
  obtain ⟨words'⟩ := m'
  have hwords : words = words' := by
    refine Array.ext hsize fun a ha ha' => ?_
    have := hget a
    rwa [get, get, Array.getD_eq_getD_getElem?, Array.getD_eq_getD_getElem?,
      Array.getElem?_eq_getElem ha, Array.getElem?_eq_getElem ha', Option.getD_some,
      Option.getD_some] at this
  rw [hwords]

/-- **Writes to different addresses change places**, and the length is the same. -/
theorem put_put_comm {a b : Nat} (h : a ≠ b) (m : Memory) (v w : Word) :
    (m.put a v).put b w = (m.put b w).put a v := by
  refine eq_of_get_eq ?_ fun c => ?_
  · simp only [size_put]
    omega
  · simp only [get_put]
    by_cases ha : c = a
    · rw [if_pos ha, if_pos ha, if_neg (ha ▸ h)]
    · rw [if_neg ha, if_neg ha]

/-- And so do accesses that write, whether they succeed or not. -/
theorem access_access_comm {a b : Address} (h : a ≠ b) (m : Memory) (v w : Word) :
    (m.access (.write a v)).access (.write b w) = (m.access (.write b w)).access (.write a v) := by
  have hne : a.toNat ≠ b.toNat := fun heq => h (UInt64.toNat_inj.1 heq)
  rw [access_write (m.access (.write a v)), access_write (m.access (.write b w)), bound_access,
    bound_access, access_write, access_write]
  by_cases ha : a.toNat < max m.size limit <;> by_cases hb : b.toNat < max m.size limit
  · simp only [if_pos ha, if_pos hb, put_put_comm hne]
  · simp only [if_pos ha, if_neg hb]
  · simp only [if_neg ha, if_pos hb]
  · simp only [if_neg ha, if_neg hb]

/-! ## Many accesses -/

theorem after_append (m : Memory) (accesses others : List Access) :
    m.after (accesses ++ others) = (m.after accesses).after others :=
  List.foldl_append

/-- **Accesses leave the bound where it is.** -/
theorem bound_after (m : Memory) (accesses : List Access) :
    max (m.after accesses).size limit = max m.size limit := by
  induction accesses generalizing m with
  | nil => rfl
  | cons access accesses ih => exact (ih (m.access access)).trans (m.bound_access access)

/-- **Which writes succeed is settled in the beginning**: those below the bound that
there is then. -/
theorem written_eq_filterMap (m : Memory) (accesses : List Access) :
    m.written accesses = accesses.filterMap fun
      | .write a w => if a.toNat < max m.size limit then some (a, w) else none
      | .read _ => none := by
  induction accesses generalizing m with
  | nil => rfl
  | cons access accesses ih =>
    cases access with
    | read a => exact ih m
    | write a w =>
      have hbound := m.bound_access (.write a w)
      rw [access_write] at hbound
      rw [written, put?_eq_ite, List.filterMap_cons]
      by_cases h : a.toNat < max m.size limit
      · rw [if_pos h] at hbound
        simp only [if_pos h, ih (m.put a.toNat w), hbound]
      · simp only [if_neg h, ih m]

/-- **An address holds what was written to it last**, and otherwise what it held
before. -/
theorem get_after (m : Memory) (accesses : List Access) (b : Address) :
    (m.after accesses).get b.toNat =
      ((m.written accesses).reverse.lookup b).getD (m.get b.toNat) := by
  induction accesses generalizing m with
  | nil => rfl
  | cons access accesses ih =>
    refine (ih (m.access access)).trans ?_
    cases access with
    | read a => rfl
    | write a w =>
      rw [Memory.access, written]
      cases hput : m.put? a.toNat w with
      | none => rfl
      | some m' =>
        obtain ⟨-, rfl⟩ := put?_eq_some_iff.1 hput
        rw [List.reverse_cons, List.lookup_append, Option.getD_or, Option.getD_some, get_put]
        by_cases hb : b = a
        · simp [hb]
        · have hne : b.toNat ≠ a.toNat := fun heq => hb (UInt64.toNat_inj.1 heq)
          simp [hne, List.lookup_cons, beq_false_of_ne hb]

/-- **Memory ends behind the last address that was written**, or where it ended
before. -/
theorem size_after (m : Memory) (accesses : List Access) :
    (m.after accesses).size =
      max m.size (((m.written accesses).map fun (a, _) => a.toNat + 1).foldr max 0) := by
  induction accesses generalizing m with
  | nil => simp [after, written]
  | cons access accesses ih =>
    refine (ih (m.access access)).trans ?_
    cases access with
    | read a => rfl
    | write a w =>
      rw [Memory.access, written]
      cases hput : m.put? a.toNat w with
      | none => rfl
      | some m' =>
        obtain ⟨-, rfl⟩ := put?_eq_some_iff.1 hput
        rw [Option.getD_some, size_put, List.map_cons, List.foldr_cons, Nat.max_assoc]

/-- **Memory is a map from all addresses, with a limit that has no history.** After
any accesses to a memory, a write succeeds exactly at the addresses below its
first length or below the limit, and so did the writes among these accesses; a write
that is refused changes nothing, and neither does a read; every address reads as the
last word that was written to it, or the word it had at first, or zero; and memory has
its first length, or ends behind the largest address written. Writes to different
addresses may therefore change places. An instruction that writes in place does the
same. -/
theorem is_map_after (m : Memory) (accesses : List Access) :
    (∀ (a : Address) (w : Word),
        ((m.after accesses).put? a.toNat w).isSome ↔ a.toNat < max m.size limit) ∧
      (m.written accesses = accesses.filterMap fun
        | .write a w => if a.toNat < max m.size limit then some (a, w) else none
        | .read _ => none) ∧
      (∀ (a : Address) (w : Word), (m.after accesses).put? a.toNat w = none →
        m.after (accesses ++ [.write a w]) = m.after accesses) ∧
      (∀ a : Address, m.after (accesses ++ [.read a]) = m.after accesses) ∧
      (∀ a : Address, ((m.after accesses).read a.toNat).result =
        .ok ((((m.written accesses).reverse.lookup a).or m.words[a.toNat]?).getD 0)) ∧
      (m.after accesses).size =
        max m.size (((m.written accesses).map fun (a, _) => a.toNat + 1).foldr max 0) ∧
      (∀ (a b : Address) (v w : Word), a ≠ b →
        m.after (accesses ++ [.write a v, .write b w]) =
          m.after (accesses ++ [.write b w, .write a v])) ∧
      (∀ (machine : Machine) (a : Address) (w : Word) (fault : Fault),
        machine.memory = m.after accesses →
          Action.setWord a.toNat w fault machine =
            if a.toNat < max m.size limit then
              ({ machine with memory := m.after (accesses ++ [.write a w]) },
                Report.note (machine.memory.growth a.toNat))
            else
              (machine, Report.fail fault)) := by
  have hbound := m.bound_after accesses
  have hput (a : Address) (w : Word) : (m.after accesses).put? a.toNat w =
      if a.toNat < max m.size limit then some ((m.after accesses).put a.toNat w) else none := by
    rw [put?_eq_ite, hbound]
  refine ⟨fun a w => ?_, m.written_eq_filterMap accesses, fun a w hnone => ?_,
    fun a => after_append m accesses _, fun a => ?_, m.size_after accesses,
    fun a b v w hne => ?_, fun machine a w fault hmemory => ?_⟩
  · rw [hput]
    split <;> simp_all
  · rw [after_append]
    exact congrArg (Option.getD · (m.after accesses)) hnone
  · rw [result_read, get_after, Option.getD_or, get, Array.getD_eq_getD_getElem?]
  · rw [after_append, after_append]
    exact access_access_comm hne (m.after accesses) v w
  · have hafter : m.after (accesses ++ [.write a w]) = (m.after accesses).access (.write a w) :=
      after_append m accesses _
    rw [setWord_eq_put?, hafter, access, hmemory, hput]
    by_cases h : a.toNat < max m.size limit
    · rw [if_pos h, if_pos h, Option.getD_some]
    · rw [if_neg h, if_neg h]

/-- One word, with a write at the limit, which is refused, and two writes behind a
gap. -/
theorem is_map_after_gap :
    let m : Memory := ⟨#[7]⟩
    let accesses : List Access := [.write 65536 1, .write 3 5, .read 9, .write 3 6]
    let machine : Machine := { memory := m.after accesses }
    m.written accesses = [(3, 5), (3, 6)] ∧ (m.after accesses).put? 65536 2 = none ∧
      m.after (accesses ++ [.write 65536 2]) = m.after accesses ∧
      ((m.after accesses).put? 65535 2).isSome ∧
      ((m.after accesses).read 3).result = .ok 6 ∧ ((m.after accesses).read 2).result = .ok 0 ∧
      ((m.after accesses).read 0).result = .ok 7 ∧ (m.after accesses).size = 4 ∧
      (2 : Address) ≠ 65535 ∧
      m.after (accesses ++ [.write 2 8, .write 65535 9]) =
        m.after (accesses ++ [.write 65535 9, .write 2 8]) ∧
      machine.memory = m.after accesses ∧
      Action.setWord 65536 2 (.addressOutOfRange 1 65536) machine =
        (machine, Report.fail (.addressOutOfRange 1 65536)) := by
  intro m accesses machine
  obtain ⟨hwritable, hwritten, hrefused, -, hread, hsize, hcomm, hinPlace⟩ :=
    is_map_after m accesses
  have hnone : (m.after accesses).put? 65536 2 = none := by decide
  have hne : (2 : Address) ≠ 65535 := by decide
  exact ⟨hwritten.trans (by decide), hnone, hrefused 65536 2 hnone,
    (hwritable 65535 2).2 (by decide), (hread 3).trans (congrArg Except.ok (by decide)),
    (hread 2).trans (congrArg Except.ok (by decide)),
    (hread 0).trans (congrArg Except.ok (by decide)), hsize.trans (by decide), hne,
    hcomm 2 65535 8 9 hne, rfl, hinPlace machine 65536 2 (.addressOutOfRange 1 65536) rfl⟩

end Memory

end TeachAsm
