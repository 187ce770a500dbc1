import TeachAsm.Proofs.Instruction.Writes
/-!
# The fields that an instruction asks for

An instruction asks for its captures by position and kind, one after the other, and
looks at the machine in between. What it asks for is settled by its opcode and, for a
branch, by the flag (`Opcode.fields`). So captures that no line would give it make one
difference only: if a field is lacking, the first one is the fault, and if none is,
what stands behind the fields is not looked at (`Opcode.execute_of_captures`). A report
`Asks` for fields when its faults say so, and that evaluating an opcode asks for its
fields is shown along the steps of the evaluation.
-/

namespace TeachAsm

/-- The kinds of captures that a line of an opcode asks for, in order, when the flag
stands so. A branch asks for its label when it is taken, and a declaration for
nothing. -/
def Opcode.fields (flag : Option Flag) : Opcode → List Placeholder
  | branch condition => if condition.Met flag then [.label] else []
  | label => []
  | op => op.operands

/-! ## Lacking a field -/

namespace Captures

/-- Whether there is a capture of a kind at a position. -/
def Has (captures : Captures) (position : Nat) (kind : Placeholder) : Prop :=
  captures[position]?.map Capture.placeholder = some kind

instance (captures : Captures) (position : Nat) (kind : Placeholder) :
    Decidable (captures.Has position kind) :=
  inferInstanceAs (Decidable (_ = _))

/-- **The first field that captures lack**, from some position on: it is lacking, and
each field in front of it is there. -/
structure FirstLacking (captures : Captures) (fields : List Placeholder) (start position : Nat) :
    Prop where
  le : start ≤ position
  lacking : ∃ kind, fields[position]? = some kind ∧ ¬ captures.Has position kind
  earlier : ∀ p, start ≤ p → p < position → ∀ kind, fields[p]? = some kind → captures.Has p kind

variable {captures : Captures} {fields : List Placeholder} {start position : Nat}
variable {kind : Placeholder}

/-- No field is lacking behind the last one. -/
theorem not_firstLacking_of_length_le (h : fields.length ≤ start) :
    ¬ captures.FirstLacking fields start position := by
  rintro ⟨hle, ⟨kind, hkind, -⟩, -⟩
  have hlt := (List.getElem?_eq_some_iff.1 hkind).1
  omega

/-- A field that is lacking is the first to be so. -/
theorem firstLacking_iff_of_not_has (hkind : fields[start]? = some kind)
    (h : ¬ captures.Has start kind) :
    captures.FirstLacking fields start position ↔ position = start := by
  constructor
  · rintro ⟨hle, -, hearlier⟩
    rcases Nat.eq_or_lt_of_le hle with heq | hlt
    · exact heq.symm
    · exact absurd (hearlier start (Nat.le_refl _) hlt kind hkind) h
  · rintro rfl
    exact ⟨Nat.le_refl _, ⟨kind, hkind, h⟩, fun p hle hlt => by omega⟩

/-- A field that is there leaves the first lacking one to those behind it. -/
theorem firstLacking_iff_of_has (hkind : fields[start]? = some kind)
    (h : captures.Has start kind) :
    captures.FirstLacking fields start position ↔
      captures.FirstLacking fields (start + 1) position := by
  constructor
  · rintro ⟨hle, ⟨other, hother, hlacks⟩, hearlier⟩
    have hne : start ≠ position := by
      rintro rfl
      obtain rfl := Option.some.inj (hkind.symm.trans hother)
      exact hlacks h
    exact ⟨by omega, ⟨other, hother, hlacks⟩, fun p hp => hearlier p (by omega)⟩
  · rintro ⟨hle, hlacking, hearlier⟩
    refine ⟨by omega, hlacking, fun p hp hlt other hother => ?_⟩
    rcases Nat.eq_or_lt_of_le hp with rfl | hp
    · obtain rfl := Option.some.inj (hkind.symm.trans hother)
      exact h
    · exact hearlier p hp hlt other hother

/-- Captures that are cut behind a position have the same field there. -/
theorem field_take {α : Type} (pick : Capture → Option α) (captures : Captures) {n : Nat}
    (h : position < n) : field pick (captures.take n) position = field pick captures position := by
  simp only [field, List.getElem?_take_of_lt h]

end Captures

/-! ## Asking for fields -/

/-- What takes a value out of the captures of a kind, and out of no others. -/
def Placeholder.PickedBy {α : Type} (kind : Placeholder) (pick : Capture → Option α) : Prop :=
  ∀ capture, (pick capture).isSome ↔ capture.placeholder = kind

theorem Placeholder.pickedBy_register : register.PickedBy Capture.register? := by
  rintro (_ | _ | _ | _) <;> simp [Capture.register?]

theorem Placeholder.pickedBy_memory : memory.PickedBy Capture.address? := by
  rintro (_ | _ | _ | _) <;> simp [Capture.address?]

theorem Placeholder.pickedBy_operand : operand.PickedBy Capture.operand? := by
  rintro (_ | _ | _ | _) <;> simp [Capture.operand?]

theorem Placeholder.pickedBy_label : label.PickedBy Capture.label? := by
  rintro (_ | _ | _ | _) <;> simp [Capture.label?]

/-- Whether a field is there is what asking for it comes to. -/
theorem Captures.has_iff_exists_field {α : Type} {kind : Placeholder} {pick : Capture → Option α}
    (hpick : kind.PickedBy pick) {captures : Captures} {position : Nat} :
    captures.Has position kind ↔ ∃ a, field pick captures position = .ok a := by
  simp only [field_eq_ok_iff, ← Option.isSome_iff_exists, Has]
  rcases captures[position]? with _ | capture
  · simp
  · simp [hpick capture]

namespace Report

variable {α β : Type}

/-- **A report that asks for fields**, from a position on: of all captures, it misses the
first field that is lacking. -/
def Asks (captures : Captures) (fields : List Placeholder) (start : Nat) (report : Report α) :
    Prop :=
  ∀ position, report.result = .error (.missingCapture position) ↔
    captures.FirstLacking fields start position

variable {captures : Captures} {fields : List Placeholder} {start : Nat}

/-- Behind the last field nothing is missed. -/
theorem asks_of_length_le {report : Report α} (hlength : fields.length ≤ start)
    (h : ∀ position, report.result ≠ .error (.missingCapture position)) :
    report.Asks captures fields start := fun position =>
  iff_of_false (h position) (Captures.not_firstLacking_of_length_le hlength)

theorem asks_of_ok {report : Report α} {a : α} (hlength : fields.length ≤ start)
    (h : report.result = .ok a) : report.Asks captures fields start := by
  refine asks_of_length_le hlength fun position hmissing => ?_
  rw [h] at hmissing
  cases hmissing

/-- **A field is asked for**, and those behind it once it is there. -/
theorem asks_bind_of_field {kind : Placeholder} {pick : Capture → Option α} {f : α → Report β}
    (hpick : kind.PickedBy pick) (hkind : fields[start]? = some kind)
    (h : ∀ a, (f a).Asks captures fields (start + 1)) :
    ((liftM (captures.field pick start) : Report α) >>= f).Asks captures fields start := by
  intro position
  rcases hfield : captures.field pick start with fault | a
  · have hlacks : ¬ captures.Has start kind := by
      rw [Captures.has_iff_exists_field hpick, hfield]
      exact nofun
    obtain ⟨-, rfl⟩ := Captures.field_eq_error_iff.1 hfield
    rw [lift_error, fail_bind, Captures.firstLacking_iff_of_not_has hkind hlacks]
    simp [fail, eq_comm]
  · have hhas := (Captures.has_iff_exists_field hpick).2 ⟨a, hfield⟩
    rw [lift_ok, pure_bind, h a position, Captures.firstLacking_iff_of_has hkind hhas]

/-- A look at the machine asks for nothing. -/
theorem asks_bind_of_ok {x : Report α} {a : α} {f : α → Report β} (hx : x.result = .ok a)
    (h : (f a).Asks captures fields start) : (x >>= f).Asks captures fields start := by
  intro position
  rw [result_bind_of_ok hx]
  exact h position

end Report

namespace Opcode

variable {around : Surroundings} {captures : Captures} {machine : Machine}

/-- **Evaluating an opcode asks for its fields**, from the first on. -/
theorem asks_evaluate (op : Opcode) :
    (op.evaluate around captures machine).Asks captures (op.fields machine.registers.flag) 0 := by
  -- each case goes along the steps of the evaluation: a field, or a look at the machine
  cases op with
  | load =>
    refine Report.asks_bind_of_field Placeholder.pickedBy_register rfl fun d => ?_
    refine Report.asks_bind_of_field Placeholder.pickedBy_memory rfl fun a => ?_
    refine Report.asks_bind_of_ok (Memory.result_read ..) ?_
    exact Report.asks_of_ok (Nat.le_refl _) rfl
  | store =>
    refine Report.asks_bind_of_field Placeholder.pickedBy_register rfl fun s => ?_
    refine Report.asks_bind_of_field Placeholder.pickedBy_memory rfl fun a => ?_
    refine Report.asks_bind_of_ok (Registers.result_read ..) ?_
    refine Report.asks_of_length_le (Nat.le_refl _) fun position hmissing => ?_
    split at hmissing <;> cases hmissing
  | compute operation =>
    refine Report.asks_bind_of_field Placeholder.pickedBy_register rfl fun d => ?_
    refine Report.asks_bind_of_field Placeholder.pickedBy_register rfl fun n => ?_
    refine Report.asks_bind_of_ok (Registers.result_read ..) ?_
    refine Report.asks_bind_of_field Placeholder.pickedBy_operand rfl fun o => ?_
    refine Report.asks_bind_of_ok (Machine.result_operand ..) ?_
    exact Report.asks_of_ok (Nat.le_refl _) rfl
  | copy | complement =>
    refine Report.asks_bind_of_field Placeholder.pickedBy_register rfl fun d => ?_
    refine Report.asks_bind_of_field Placeholder.pickedBy_operand rfl fun o => ?_
    refine Report.asks_bind_of_ok (Machine.result_operand ..) ?_
    exact Report.asks_of_ok (Nat.le_refl _) rfl
  | compare =>
    refine Report.asks_bind_of_field Placeholder.pickedBy_register rfl fun n => ?_
    refine Report.asks_bind_of_ok (Registers.result_read ..) ?_
    refine Report.asks_bind_of_field Placeholder.pickedBy_operand rfl fun o => ?_
    refine Report.asks_bind_of_ok (Machine.result_operand ..) ?_
    exact Report.asks_of_ok (Nat.le_refl _) rfl
  | branch condition =>
    by_cases hmet : condition.Met machine.registers.flag
    · rw [evaluate, if_pos (Condition.holds_iff.2 hmet), fields, if_pos hmet]
      refine Report.asks_bind_of_field Placeholder.pickedBy_label rfl fun name => ?_
      refine Report.asks_of_length_le (Nat.le_refl _) fun position hmissing => ?_
      rw [Surroundings.slot] at hmissing
      split at hmissing <;> cases hmissing
    · rw [evaluate, if_neg fun h => hmet (Condition.holds_iff.1 h), fields, if_neg hmet]
      exact Report.asks_of_ok (Nat.le_refl _) rfl
  | halt | label => exact Report.asks_of_ok (Nat.le_refl _) rfl

/-- **What stands behind the fields is not looked at.** -/
theorem evaluate_take (op : Opcode) :
    op.evaluate around (captures.take (op.fields machine.registers.flag).length) machine =
      op.evaluate around captures machine := by
  cases op with
  | load | store | compute | copy | complement | compare =>
    simp [evaluate, fields, operands, Captures.register, Captures.address, Captures.operand,
      Captures.field_take]
  | branch condition =>
    by_cases hmet : condition.Met machine.registers.flag
    · simp only [evaluate, fields, if_pos hmet, Captures.label, List.length_singleton,
        Captures.field_take _ _ Nat.zero_lt_one]
    · simp only [evaluate, if_neg fun h => hmet (Condition.holds_iff.1 h)]
  | halt | label => rfl

/-- **Executing an opcode on any captures.** It fails for a missing capture exactly at
the first field of the opcode, by position, that has no capture of its kind; a branch
has a field only where it is taken, and a halt and a declaration have none. Captures
behind the fields make no difference. And after any fault the machine is what it was. -/
theorem execute_of_captures (op : Opcode) (captures : Captures) (around : Surroundings)
    (machine : Machine) :
    (∀ position, (op.execute around captures machine).2.result =
        .error (.missingCapture position) ↔
      (∃ kind, (op.fields machine.registers.flag)[position]? = some kind ∧
        ¬ captures.Has position kind) ∧
      ∀ p < position, ∀ kind, (op.fields machine.registers.flag)[p]? = some kind →
        captures.Has p kind) ∧
      op.execute around (captures.take (op.fields machine.registers.flag).length) machine =
        op.execute around captures machine ∧
      ∀ fault, (op.execute around captures machine).2.result = .error fault →
        (op.execute around captures machine).1 = machine := by
  let i : Instruction := ⟨op, captures⟩
  refine ⟨fun position => ?_, ?_, fun fault => @Instruction.machine_execute_of_error i _ _ _⟩
  · have hasks := @asks_evaluate around captures machine op position
    refine (@Instruction.result_execute_eq_error_iff i _ _ _).trans (hasks.trans ?_)
    constructor
    · rintro ⟨-, hlacking, hearlier⟩
      exact ⟨hlacking, fun p => hearlier p (Nat.zero_le p)⟩
    · rintro ⟨hlacking, hearlier⟩
      exact ⟨Nat.zero_le _, hlacking, fun p _ => hearlier p⟩
  · rw [execute_eq_lastly, execute_eq_lastly, Action.lastly, Action.lastly, evaluate_take]

/-- An addition whose second source is a label, on a machine without registers: the
first source is read, and warned of, and then the operand is missing. A branch that is
not taken does not miss its label. -/
theorem execute_of_captures_add :
    let captures : Captures := [.register 0, .register 1, .label "R2".toList]
    let machine : Machine := { memory := ⟨#[7]⟩ }
    let added := (compute .add).execute ⟨{}, 1⟩ captures machine
    added.2.events = [.unsetRegister 1] ∧ added.2.result = .error (.missingCapture 2) ∧
      added.1 = machine ∧
      (branch .equal).execute ⟨{}, 1⟩ [] machine =
        (branch .equal).execute ⟨{}, 1⟩ captures machine := by
  intro captures machine added
  obtain ⟨hiff, -, hsame⟩ := execute_of_captures (compute .add) captures ⟨{}, 1⟩ machine
  obtain ⟨-, htake, -⟩ := execute_of_captures (branch .equal) captures ⟨{}, 1⟩ machine
  have hmissing : added.2.result = .error (.missingCapture 2) := by
    refine (hiff 2).2 ⟨⟨.operand, rfl, by decide⟩, fun p hp kind hkind => ?_⟩
    obtain rfl | rfl : p = 0 ∨ p = 1 := by omega
    · obtain rfl := Option.some.inj hkind
      decide
    · obtain rfl := Option.some.inj hkind
      decide
  exact ⟨rfl, hmissing, hsame _ hmissing, htake⟩

end Opcode

end TeachAsm
