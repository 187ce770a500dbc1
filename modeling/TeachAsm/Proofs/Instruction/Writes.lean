import TeachAsm.Proofs.Instruction.Outcome
/-!
# What an instruction writes

The flag and the registers are each written by instructions of one kind: the flag
by a comparison (`Instruction.comparison?`), and a register by an instruction with
that destination (`Instruction.destination?`). What a shaped instruction comes to
writes just these (`Shaped.writes_of_evaluate`), and an effect changes nothing of the
flag and of what exists but what it writes. A comparison leaves the order of two words
as signed numbers, over their whole range (`Flag.compare_eq_iff`).
-/

namespace TeachAsm

/-! ## The flag as an order -/

/-- What a flag says of the two words compared. -/
def Flag.Orders : Flag → Word → Word → Prop
  | equal, x, y => x.toInt = y.toInt
  | greater, x, y => y.toInt < x.toInt
  | less, x, y => x.toInt < y.toInt

instance : (flag : Flag) → (x y : Word) → Decidable (flag.Orders x y)
  | .equal, x, y => inferInstanceAs (Decidable (x.toInt = y.toInt))
  | .greater, x, y => inferInstanceAs (Decidable (y.toInt < x.toInt))
  | .less, x, y => inferInstanceAs (Decidable (x.toInt < y.toInt))

/-- A comparison finds the order of the words as numbers. -/
theorem Flag.orders_compare (x y : Word) : (compare x y).Orders x y := by
  unfold compare
  split
  · next heq => exact congrArg Int32.toInt heq
  · next hne =>
    split
    · next hgt => exact Int32.lt_iff_toInt_lt.1 hgt
    · next hle =>
      have hdiffer : x.toInt ≠ y.toInt := fun h => hne (Int32.toInt_inj.1 h)
      have hnot : ¬ y.toInt < x.toInt := fun h => hle (Int32.lt_iff_toInt_lt.2 h)
      simp only [Orders]
      omega

/-- Two words have one order. -/
theorem Flag.Orders.unique {flag flag' : Flag} {x y : Word} (h : flag.Orders x y)
    (h' : flag'.Orders x y) : flag = flag' := by
  cases flag <;> cases flag' <;> grind [Orders]

/-- **The flag of a comparison is the order of the words as numbers.** -/
theorem Flag.compare_eq_iff {x y : Word} {flag : Flag} :
    compare x y = flag ↔ flag.Orders x y :=
  ⟨fun h => h ▸ orders_compare x y, (orders_compare x y).unique⟩

/-- **When a condition is met**: an unset flag meets what asks for no equality, and
what asks for nothing. -/
def Condition.Met : Condition → Option Flag → Prop
  | equal, flag => flag = some .equal
  | notEqual, flag => flag ≠ some .equal
  | greater, flag => flag = some .greater
  | less, flag => flag = some .less
  | always, _ => True

instance : (condition : Condition) → (flag : Option Flag) → Decidable (condition.Met flag)
  | .equal, flag => inferInstanceAs (Decidable (flag = some .equal))
  | .notEqual, flag => inferInstanceAs (Decidable (flag ≠ some .equal))
  | .greater, flag => inferInstanceAs (Decidable (flag = some .greater))
  | .less, flag => inferInstanceAs (Decidable (flag = some .less))
  | .always, _ => inferInstanceAs (Decidable True)

theorem Condition.holds_iff {condition : Condition} {flag : Option Flag} :
    condition.holds flag = true ↔ condition.Met flag := by
  cases condition <;> simp [holds, Met]

/-! ## Effects -/

namespace Effect

/-- The flag that an effect sets. -/
def flag? : Effect → Option Flag
  | setFlag flag => some flag
  | _ => Option.none

/-- The register that an effect writes. -/
def register? : Effect → Option Register
  | setRegister r _ => some r
  | _ => Option.none

variable (effect : Effect) (machine : Machine)

/-- The flag is what an effect sets it to, or what it was. -/
theorem flag_apply :
    (effect.apply machine).registers.flag = effect.flag?.or machine.registers.flag := by
  cases effect <;> rfl

/-- **A register exists that an effect writes, or that existed before.** -/
theorem isSome_get?_apply (r : Register) :
    ((effect.apply machine).registers.get? r).isSome ↔
      effect.register? = some r ∨ (machine.registers.get? r).isSome := by
  cases effect with
  | setRegister q w =>
    simp only [apply, register?, Registers.get?_write, Option.some.injEq]
    by_cases h : r = q
    · simp [h]
    · simp [h, Ne.symm h]
  | none | setWord | setFlag => simp [apply, register?, Registers.setFlag, Registers.get?]

end Effect

/-! ## Instructions -/

namespace Instruction

/-- What an instruction compares. -/
def comparison? : Instruction → Option (Register × Operand)
  | ⟨.compare, [.register n, .operand o]⟩ => some (n, o)
  | _ => none

/-- The register that an instruction writes. -/
def destination? : Instruction → Option Register
  | ⟨.load, .register d :: _⟩ | ⟨.compute _, .register d :: _⟩ | ⟨.copy, .register d :: _⟩
  | ⟨.complement, .register d :: _⟩ => some d
  | _ => none

variable {i : Instruction} {around : Surroundings} {machine : Machine}
variable {effect : Effect} {control : Control}

/-- **A comparison sets the flag, and nothing else does**: it sets it to the order of
what it reads. And the register that an instruction writes is its destination. -/
theorem Shaped.writes_of_evaluate (h : i.Shaped)
    (hr : (i.evaluate around machine).result = .ok (effect, control)) :
    (effect.flag? = i.comparison?.map fun (n, o) =>
        Flag.compare (machine.registers.get n) (machine.value o)) ∧
      effect.register? = i.destination? := by
  cases h with
  | load | compute | copy | complement | compare | halt | label =>
    simp only [result_evaluate_load, result_evaluate_compute, result_evaluate_copy,
      result_evaluate_complement, result_evaluate_compare, result_evaluate_halt,
      result_evaluate_label, Except.ok.injEq, Prod.mk.injEq] at hr
    obtain ⟨rfl, -⟩ := hr
    exact ⟨rfl, rfl⟩
  | store s a =>
    rw [result_evaluate_store] at hr
    split at hr <;> cases hr
    exact ⟨rfl, rfl⟩
  | branch condition name =>
    rw [effect_eq_none_of_branch hr]
    exact ⟨rfl, rfl⟩

end Instruction

end TeachAsm
