import Mathlib.Data.List.Induction
import Mathlib.Data.List.Nodup
import TeachAsm.Program.Basic
import TeachAsm.Proofs.Instruction.Decoding
/-!
# The labels that slots declare

Resolving goes through the slots of a program and declares what they declare.
Either no name is declared twice, and then the labels hold exactly the
declarations there are (`result_resolve_of_nodup`, `slot?_ofSlots`), or there
is a first slot that declares a name again, and then the fault names that slot
and the one before it (`result_resolve_of_redeclared`). These are the only two
ways it can go (`nodup_or_redeclared`): slots that come from lines have the
captures that resolving asks for.
-/

namespace TeachAsm

/-- The label that a slot declares. -/
def Slot.declares? (slot : Slot) : Option Text :=
  slot.instruction.declares?

/-- The names that slots declare, in the order of the slots. -/
def Slot.names (slots : List Slot) : List Text :=
  slots.filterMap Slot.declares?

/-- The slot at `j` is the first to declare a name that is declared already,
and the slot at `i` is where it was declared. -/
structure Slot.Redeclared (slots : List Slot) (i j : Nat) (earlier later : Slot) (name : Text) :
    Prop where
  lt : i < j
  earlier_eq : slots[i]? = some earlier
  later_eq : slots[j]? = some later
  earlier_declares : earlier.declares? = some name
  later_declares : later.declares? = some name
  /-- No other slot before `j` declares the name. -/
  unique : ∀ k < j, ∀ slot, slots[k]? = some slot → slot.declares? = some name → k = i
  /-- No slot before `j` declares a name again. -/
  first : ∀ k < j, ∀ m < k, ∀ slot other, slots[k]? = some slot → slots[m]? = some other →
    ∀ n, slot.declares? = some n → other.declares? ≠ some n

namespace Slot

variable {slots before after : List Slot} {slot earlier later : Slot} {name : Text}

theorem mem_names : name ∈ names slots ↔ ∃ slot ∈ slots, slot.declares? = some name :=
  List.mem_filterMap

/-- Distinct names, slot by slot: two slots do not declare the same. -/
theorem eq_of_nodup_names (h : (names slots).Nodup) {i j : Nat} {slot other : Slot}
    (hi : slots[i]? = some slot) (hj : slots[j]? = some other)
    (hslot : slot.declares? = some name) (hother : other.declares? = some name) : i = j := by
  have hpair := List.pairwise_iff_getElem.1 (List.pairwise_filterMap.1 h)
  obtain ⟨hi', rfl⟩ := List.getElem?_eq_some_iff.1 hi
  obtain ⟨hj', rfl⟩ := List.getElem?_eq_some_iff.1 hj
  rcases Nat.lt_trichotomy i j with hlt | heq | hgt
  · exact absurd rfl (hpair i j hi' hj' hlt name hslot name hother)
  · exact heq
  · exact absurd rfl (hpair j i hj' hi' hgt name hother name hslot)

/-- Up to the first slot that declares a name again, names are distinct. -/
theorem nodup_or_exists_append (slots : List Slot) :
    (names slots).Nodup ∨ ∃ before later after earlier name,
      slots = before ++ later :: after ∧ (names before).Nodup ∧ earlier ∈ before ∧
        earlier.declares? = some name ∧ later.declares? = some name := by
  -- a slot is put behind slots of which the statement holds already
  induction slots using List.reverseRecOn with
  | nil => exact .inl List.nodup_nil
  | append_singleton slots slot ih =>
    rcases ih with hnodup | ⟨before, later, after, earlier, name, rfl, hrest⟩
    · cases hd : slot.declares? with
      | none => exact .inl (by simpa [names, hd] using hnodup)
      | some name =>
        by_cases hmem : name ∈ names slots
        · obtain ⟨earlier, hearlier, hname⟩ := mem_names.1 hmem
          exact .inr ⟨slots, slot, [], earlier, name, rfl, hnodup, hearlier, hname, hd⟩
        · refine .inl ?_
          have hnames : names (slots ++ [slot]) = names slots ++ [name] := by
            simp [names, hd]
          rw [hnames]
          exact List.nodup_append.2 ⟨hnodup, List.nodup_singleton name, by
            intro a ha b hb hab
            rw [List.mem_singleton] at hb
            exact hmem (hb ▸ hab ▸ ha)⟩
    · exact .inr ⟨before, later, after ++ [slot], earlier, name, by simp, hrest⟩

/-- Slots that are cut in front of the first repetition, by their places. -/
theorem redeclared_of_append (hnodup : (names before).Nodup) (hmem : earlier ∈ before)
    (hearlier : earlier.declares? = some name) (hlater : later.declares? = some name) :
    ∃ i, Redeclared (before ++ later :: after) i before.length earlier later name := by
  obtain ⟨i, hi, rfl⟩ := List.getElem_of_mem hmem
  have hfront : ∀ k < before.length, (before ++ later :: after)[k]? = before[k]? :=
    fun k hk => List.getElem?_append_left hk
  refine ⟨i, hi, ?_, by simp, hearlier, hlater, fun k hk slot hslot hname => ?_,
    fun k hk m hm slot other hslot hother n hn hn' => ?_⟩
  · rw [hfront i hi, List.getElem?_eq_getElem hi]
  · rw [hfront k hk] at hslot
    exact eq_of_nodup_names hnodup hslot (List.getElem?_eq_getElem hi) hname hearlier
  · rw [hfront k hk] at hslot
    rw [hfront m (by omega)] at hother
    have := eq_of_nodup_names hnodup hslot hother hn hn'
    omega

/-- **The names are distinct, or a slot declares one again.** -/
theorem nodup_or_redeclared (slots : List Slot) :
    (names slots).Nodup ∨
      ∃ i j earlier later name, Redeclared slots i j earlier later name := by
  rcases nodup_or_exists_append slots with
    hnodup | ⟨before, later, after, earlier, name, rfl, hnodup, hmem, hearlier, hlater⟩
  · exact .inl hnodup
  · obtain ⟨i, hre⟩ := redeclared_of_append hnodup hmem hearlier hlater
    exact .inr ⟨i, before.length, earlier, later, name, hre⟩

/-- And back: in front of the first repetition the names are distinct. -/
theorem Redeclared.exists_append {i j : Nat} (h : Redeclared slots i j earlier later name) :
    ∃ before after, slots = before ++ later :: after ∧ before.length = j ∧ (names before).Nodup ∧
      earlier ∈ before := by
  obtain ⟨hj, hlater⟩ := List.getElem?_eq_some_iff.1 h.later_eq
  -- the slots in front of `j` are the first `j`
  refine ⟨slots.take j, slots.drop (j + 1), ?_, List.length_take_of_le (Nat.le_of_lt hj), ?_, ?_⟩
  · rw [← hlater, List.getElem_cons_drop, List.take_append_drop]
  · refine List.pairwise_filterMap.2 (List.pairwise_iff_getElem.2 ?_)
    intro m k hm hk hmk n hn n' hn' heq
    subst heq
    simp only [List.length_take, List.getElem_take] at hm hk hn hn'
    exact h.first k (by omega) m hmk _ _ (List.getElem?_eq_getElem (by omega))
      (List.getElem?_eq_getElem (by omega)) n hn' hn
  · obtain ⟨hi, hearlier⟩ := List.getElem?_eq_some_iff.1 h.earlier_eq
    exact List.mem_take_iff_getElem.2 ⟨i, by have := h.lt; omega, hearlier⟩

end Slot

namespace Labels

/-- The declarations that placed slots make. -/
def declared (slots : List (Slot × Nat)) : List Declaration :=
  slots.filterMap fun (slot, place) => slot.declares?.map (⟨·, place, slot.line⟩)

/-- The labels that hold the declarations of slots. -/
def ofSlots (slots : List Slot) : Labels :=
  ⟨(declared slots.zipIdx).reverse⟩

variable {slots before after : List Slot} {slot earlier later : Slot} {name : Text}

theorem map_name_declared (slots : List (Slot × Nat)) :
    (declared slots).map Declaration.name = Slot.names (slots.map Prod.fst) := by
  simp only [declared, Slot.names, List.map_filterMap, List.filterMap_map]
  congr 1
  funext ⟨slot, place⟩
  cases h : slot.declares? <;> simp [h]

theorem map_name_declared_zipIdx (slots : List Slot) :
    (declared slots.zipIdx).map Declaration.name = Slot.names slots := by
  rw [map_name_declared, List.zipIdx_map_fst]

theorem mem_declared_zipIdx {d : Declaration} :
    d ∈ declared slots.zipIdx ↔
      ∃ slot, slots[d.slot]? = some slot ∧ slot.declares? = some d.name ∧ slot.line = d.line := by
  simp only [declared, List.mem_filterMap, Option.map_eq_some_iff]
  constructor
  · rintro ⟨⟨slot, place⟩, hmem, name, hname, rfl⟩
    exact ⟨slot, List.mem_zipIdx_iff_getElem?.1 hmem, hname, rfl⟩
  · rintro ⟨slot, hslot, hname, hline⟩
    exact ⟨(slot, d.slot), List.mem_zipIdx_iff_getElem?.2 hslot, d.name, hname, by rw [hline]⟩

/-- Where names are distinct, looking one up finds its declaration. -/
theorem find?_eq_some_iff {ds : List Declaration} (h : (ds.map Declaration.name).Nodup)
    {d : Declaration} : (Labels.mk ds.reverse).find? name = some d ↔ d ∈ ds ∧ d.name = name := by
  unfold find?
  constructor
  · intro hd
    exact ⟨List.mem_reverse.1 (List.mem_of_find?_eq_some hd), by simpa using List.find?_some hd⟩
  · rintro ⟨hmem, rfl⟩
    cases hd : ds.reverse.find? (·.name = d.name) with
    | none => exact absurd (List.find?_eq_none.1 hd d (List.mem_reverse.2 hmem)) (by simp)
    | some e =>
      have he := List.mem_reverse.1 (List.mem_of_find?_eq_some hd)
      have hname : e.name = d.name := by simpa using List.find?_some hd
      rw [List.inj_on_of_nodup_map h he hmem hname]

/-- A name that is not among the declarations is not found. -/
theorem find?_eq_none_iff {ds : List Declaration} :
    (Labels.mk ds.reverse).find? name = none ↔ name ∉ ds.map Declaration.name := by
  simp [find?, List.find?_eq_none]

/-- **A name stands for the slot that declares it.** -/
theorem slot?_ofSlots (h : (Slot.names slots).Nodup) {place : Nat} :
    (ofSlots slots).slot? name = some place ↔
      ∃ slot, slots[place]? = some slot ∧ slot.declares? = some name := by
  rw [← map_name_declared_zipIdx] at h
  simp only [slot?, ofSlots, Option.map_eq_some_iff, find?_eq_some_iff h, mem_declared_zipIdx]
  constructor
  · rintro ⟨d, ⟨⟨slot, hslot, hname, -⟩, rfl⟩, rfl⟩
    exact ⟨slot, hslot, hname⟩
  · rintro ⟨slot, hslot, hname⟩
    exact ⟨⟨name, place, slot.line⟩, ⟨⟨slot, hslot, hname, rfl⟩, rfl⟩, rfl⟩

/-! ## Resolving -/

/-- Resolving declares what shaped slots declare, one after the other. -/
theorem result_resolve (labels : Labels) {slots : List (Slot × Nat)}
    (h : ∀ e ∈ slots, e.1.instruction.Shaped) :
    (labels.resolve slots).result = (declared slots).foldlM declare labels := by
  -- only the shape of a declaration declares, the other shapes are passed over
  induction slots generalizing labels with
  | nil => rfl
  | cons e slots ih =>
    obtain ⟨⟨line, text, i⟩, place⟩ := e
    have ih := fun labels => ih labels fun e he => h e (List.mem_cons_of_mem _ he)
    have hshape : i.Shaped := h _ List.mem_cons_self
    cases hshape with
    | label name =>
      have hdeclared : declared ((⟨line, text, ⟨.label, [.label name]⟩⟩, place) :: slots) =
          ⟨name, place, line⟩ :: declared slots := rfl
      rw [hdeclared, List.foldlM_cons]
      simp only [resolve, Opcode.declaresLabel, Captures.label, Captures.field, Capture.label?,
        List.getElem?_cons_zero, Option.bind_some, Report.lift_ok, pure_bind, beq_self_eq_true,
        if_true]
      cases labels.declare ⟨name, place, line⟩ with
      | error fault => rfl
      | ok labels' =>
        rw [Report.lift_ok, pure_bind, Report.note_bind]
        exact ih labels'
    | _ => exact ih labels

/-- Declarations of distinct names are all made. -/
theorem foldlM_declare_of_nodup {seen ds : List Declaration}
    (h : ((seen ++ ds).map Declaration.name).Nodup) :
    ds.foldlM declare ⟨seen.reverse⟩ = .ok ⟨(seen ++ ds).reverse⟩ := by
  -- what has been declared so far is `seen`, and stays apart from what follows
  induction ds generalizing seen with
  | nil => simp [pure, Except.pure]
  | cons d ds ih =>
    have hnew : (Labels.mk seen.reverse).find? d.name = none := by
      rw [find?_eq_none_iff]
      intro hmem
      rw [List.map_append, List.map_cons, List.nodup_append] at h
      exact h.2.2 _ hmem _ List.mem_cons_self rfl
    have hdeclare : (Labels.mk seen.reverse).declare d = .ok ⟨(seen ++ [d]).reverse⟩ := by
      simp [declare, hnew]
    rw [List.foldlM_cons, hdeclare]
    have hrest := @ih (seen ++ [d]) (by simpa using h)
    rwa [List.append_assoc] at hrest

/-- **Slots with distinct names are all resolved.** -/
theorem result_resolve_of_nodup (hshape : ∀ slot ∈ slots, slot.instruction.Shaped)
    (h : (Slot.names slots).Nodup) : (resolve {} slots.zipIdx).result = .ok (ofSlots slots) := by
  have hplaced : ∀ e ∈ slots.zipIdx, e.1.instruction.Shaped := fun e he =>
    hshape _ (List.fst_mem_of_mem_zipIdx he)
  rw [result_resolve {} hplaced]
  rw [← map_name_declared_zipIdx] at h
  exact @foldlM_declare_of_nodup [] _ h

/-- A name that one of the slots declares is not declared once more. -/
theorem declare_ofSlots_of_mem (hnodup : (Slot.names before).Nodup) (hmem : earlier ∈ before)
    {d : Declaration} (h : earlier.declares? = some d.name) :
    (ofSlots before).declare d = .error (.duplicateLabel d.name earlier.line d.line) := by
  rw [← map_name_declared_zipIdx] at hnodup
  obtain ⟨k, hk, rfl⟩ := List.getElem_of_mem hmem
  have hfound : (ofSlots before).find? d.name = some ⟨d.name, k, before[k].line⟩ :=
    (find?_eq_some_iff hnodup).2
      ⟨mem_declared_zipIdx.2 ⟨_, List.getElem?_eq_getElem hk, h, rfl⟩, rfl⟩
  simp [declare, hfound]

/-- **The first slot that declares a name again is the fault.** -/
theorem result_resolve_of_redeclared (hshape : ∀ slot ∈ slots, slot.instruction.Shaped) {i j : Nat}
    (h : Slot.Redeclared slots i j earlier later name) :
    (resolve {} slots.zipIdx).result = .error (.duplicateLabel name earlier.line later.line) := by
  obtain ⟨before, after, rfl, -, hnodup, hmem⟩ := h.exists_append
  have hplaced : ∀ e ∈ (before ++ later :: after).zipIdx, e.1.instruction.Shaped := fun e he =>
    hshape _ (List.fst_mem_of_mem_zipIdx he)
  have hdeclared : declared (before ++ later :: after).zipIdx =
      declared before.zipIdx ++ ⟨name, before.length, later.line⟩ ::
        declared (after.zipIdx (before.length + 1)) := by
    simp [declared, List.zipIdx_append, h.later_declares]
  -- the labels at this point hold the earlier declaration of the name
  have hdeclare := @declare_ofSlots_of_mem _ _ hnodup hmem ⟨name, before.length, later.line⟩
    h.earlier_declares
  rw [← map_name_declared_zipIdx] at hnodup
  have hbefore : (declared before.zipIdx).foldlM declare {} = .ok (ofSlots before) :=
    @foldlM_declare_of_nodup [] _ hnodup
  rw [result_resolve {} hplaced, hdeclared, List.foldlM_append, hbefore]
  change (do let labels ← (ofSlots before).declare _; _) = _
  rw [hdeclare]
  rfl

end Labels

end TeachAsm
