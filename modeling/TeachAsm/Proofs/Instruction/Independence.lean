import TeachAsm.Proofs.Instruction.Warnings
import TeachAsm.Proofs.Instruction.Writes
import TeachAsm.Proofs.Machine.Memory
import TeachAsm.Proofs.Machine.Registers
/-!
# Independent instructions

An instruction reads some locations of a machine and writes at most one
(`Instruction.reads`, `Instruction.written?`). What it comes to is settled by the
locations that it reads and by the bound of memory, and no effect moves the bound; its
own effect changes the location that it writes and nothing else. So two instructions of
which neither writes what the other one reads or writes do not notice each other
(`result_evaluate_execute`), and their effects may change places
(`Effect.apply_apply_comm`): they come to the same machine in either order
(`Instruction.execute_comm`).
-/

namespace TeachAsm

/-- A part of a machine that an instruction may read or write. -/
inductive Location where
  | register (r : Register)
  | word (a : Nat)
  | flag
  deriving DecidableEq, Repr

/-- Machines that read alike at a location. -/
def Machine.AgreeAt (m m' : Machine) : Location → Prop
  | .register r => m.registers.get r = m'.registers.get r
  | .word a => m.memory.get a = m'.memory.get a
  | .flag => m.registers.flag = m'.registers.flag

/-! ## Effects -/

namespace Effect

/-- The location that an effect changes. -/
def location? : Effect → Option Location
  | none => Option.none
  | setRegister r _ => some (.register r)
  | setWord a _ => some (.word a)
  | setFlag _ => some .flag

variable {effect other : Effect} {l : Location}

/-- **An effect changes its own location only.** -/
theorem agreeAt_apply (h : effect.location? ≠ some l) (machine : Machine) :
    (effect.apply machine).AgreeAt machine l := by
  cases effect with
  | none => cases l <;> rfl
  | setRegister r w =>
    cases l with
    | register q =>
      have hne : q ≠ r := fun heq => h (by rw [heq]; rfl)
      simp only [Machine.AgreeAt, apply, Registers.get_write, if_neg hne]
    | word | flag => rfl
  | setWord a w =>
    cases l with
    | word b =>
      have hne : b ≠ a := fun heq => h (by rw [heq]; rfl)
      simp only [Machine.AgreeAt, apply, Memory.get_put, if_neg hne]
    | register | flag => rfl
  | setFlag flag =>
    cases l with
    | flag => exact absurd rfl h
    | register | word => rfl

/-- **Effects on different locations change places.** -/
theorem apply_apply_comm (h : ∀ l ∈ effect.location?, other.location? ≠ some l)
    (machine : Machine) :
    effect.apply (other.apply machine) = other.apply (effect.apply machine) := by
  cases effect with
  | none => rfl
  | setRegister r v =>
    cases other with
    | setRegister q w =>
      have hne : q ≠ r := fun heq => h _ rfl (by rw [heq]; rfl)
      simp only [apply, Registers.write_write_comm hne]
    | none | setWord | setFlag => rfl
  | setWord a v =>
    cases other with
    | setWord b w =>
      have hne : b ≠ a := fun heq => h _ rfl (by rw [heq]; rfl)
      simp only [apply, Memory.put_put_comm hne]
    | none | setRegister | setFlag => rfl
  | setFlag flag =>
    cases other with
    | setFlag => exact absurd rfl (h _ rfl)
    | none | setRegister | setWord => rfl

end Effect

namespace Instruction

/-! ## What instructions read and write -/

/-- The locations that an instruction reads. -/
def reads : Instruction → List Location
  | ⟨.load, [_, .address a]⟩ => [.word a.toNat]
  | ⟨.branch condition, _⟩ => if condition = .always then [] else [.flag]
  | i => i.sources.map .register

/-- The location that an instruction writes. -/
def written? : Instruction → Option Location
  | ⟨.store, [_, .address a]⟩ => some (.word a.toNat)
  | ⟨.compare, _⟩ => some .flag
  | i => i.destination?.map .register

/-- **Neither of two instructions writes what the other one reads or writes.** -/
def Independent (i j : Instruction) : Prop :=
  (∀ l ∈ i.written?, l ∉ j.reads ∧ j.written? ≠ some l) ∧
    ∀ l ∈ j.written?, l ∉ i.reads ∧ i.written? ≠ some l

instance (i j : Instruction) : Decidable (i.Independent j) :=
  inferInstanceAs (Decidable (_ ∧ _))

variable {i j : Instruction} {around around' : Surroundings} {machine machine' : Machine}
variable {effect : Effect} {control : Control}

/-- What an operand comes to is settled by the register that it names. -/
theorem value_eq_of_agreeAt {o : Operand}
    (h : ∀ l ∈ o.sources.map Location.register, machine'.AgreeAt machine l) :
    machine'.value o = machine.value o := by
  cases o with
  | register r => exact h _ List.mem_cons_self
  | immediate w => rfl

/-- **What an instruction comes to is settled by what it reads**, and by the bound of
memory. -/
theorem Shaped.result_evaluate_of_agreeAt (h : i.Shaped)
    (hreads : ∀ l ∈ i.reads, machine'.AgreeAt machine l)
    (hbound : max machine'.memory.size Memory.limit = max machine.memory.size Memory.limit) :
    (i.evaluate around machine').result = (i.evaluate around machine).result := by
  cases h with
  | load d a =>
    have hword : machine'.memory.get a.toNat = machine.memory.get a.toNat :=
      hreads (.word a.toNat) List.mem_cons_self
    rw [result_evaluate_load, result_evaluate_load, hword]
  | store s a =>
    have hsource : machine'.registers.get s = machine.registers.get s :=
      hreads (.register s) List.mem_cons_self
    have hwritable : machine'.memory.Writable a.toNat ↔ machine.memory.Writable a.toNat := by
      omega
    simp only [result_evaluate_store, hsource, hwritable]
  | compute operation d n o =>
    obtain ⟨hn, ho⟩ := List.forall_mem_cons.1 hreads
    have hsource : machine'.registers.get n = machine.registers.get n := hn
    rw [result_evaluate_compute, result_evaluate_compute, hsource, value_eq_of_agreeAt ho]
  | copy d o => rw [result_evaluate_copy, result_evaluate_copy, value_eq_of_agreeAt hreads]
  | complement d o =>
    rw [result_evaluate_complement, result_evaluate_complement, value_eq_of_agreeAt hreads]
  | compare n o =>
    obtain ⟨hn, ho⟩ := List.forall_mem_cons.1 hreads
    have hsource : machine'.registers.get n = machine.registers.get n := hn
    rw [result_evaluate_compare, result_evaluate_compare, hsource, value_eq_of_agreeAt ho]
  | branch condition name =>
    have hholds : condition.holds machine'.registers.flag =
        condition.holds machine.registers.flag := by
      by_cases halways : condition = .always
      · rw [halways]
        rfl
      · have hflag : machine'.registers.flag = machine.registers.flag :=
          hreads .flag (by simp [reads, halways])
        rw [hflag]
    rw [result_evaluate_branch, result_evaluate_branch, hholds]
  | halt | label => rfl

/-- The effect of an instruction is on the location that it writes. -/
theorem Shaped.location?_of_evaluate (h : i.Shaped)
    (hr : (i.evaluate around machine).result = .ok (effect, control)) :
    effect.location? = i.written? := by
  cases h with
  | load | compute | copy | complement | compare | halt | label =>
    simp only [result_evaluate_load, result_evaluate_compute, result_evaluate_copy,
      result_evaluate_complement, result_evaluate_compare, result_evaluate_halt,
      result_evaluate_label, Except.ok.injEq, Prod.mk.injEq] at hr
    obtain ⟨rfl, -⟩ := hr
    rfl
  | store s a =>
    rw [result_evaluate_store] at hr
    split at hr <;> cases hr
    rfl
  | branch condition name =>
    rw [effect_eq_none_of_branch hr]
    rfl

/-- **An instruction does not move the bound of memory.** -/
theorem Shaped.bound_of_evaluate (h : i.Shaped)
    (hr : (i.evaluate around machine).result = .ok (effect, control)) :
    max (effect.apply machine).memory.size Memory.limit =
      max machine.memory.size Memory.limit := by
  have hsize := h.size_memory_of_evaluate hr
  omega

/-! ## One after the other -/

/-- **An instruction does not notice another one before it** that writes nothing of
what it reads, whether that one fails or not. -/
theorem Shaped.result_evaluate_execute (hj : j.Shaped) (hi : i.Shaped)
    (h : ∀ l ∈ i.written?, l ∉ j.reads) :
    (j.evaluate around' (i.execute around machine).1).result =
      (j.evaluate around' machine).result := by
  rcases hr : (i.evaluate around machine).result with fault | ⟨effect, control⟩
  · rw [execute_of_error hr]
  · rw [execute_of_ok hr]
    refine hj.result_evaluate_of_agreeAt (fun l hl => ?_) (hi.bound_of_evaluate hr)
    refine Effect.agreeAt_apply (fun hwritten => ?_) machine
    rw [hi.location?_of_evaluate hr] at hwritten
    exact h l hwritten hl

/-- And so it goes the same way, or has the same fault. -/
theorem Shaped.result_execute_execute (hj : j.Shaped) (hi : i.Shaped)
    (h : ∀ l ∈ i.written?, l ∉ j.reads) :
    (j.execute around' (i.execute around machine).1).2.result =
      (j.execute around' machine).2.result := by
  rw [result_execute, result_execute, hj.result_evaluate_execute hi h]

/-- **Independent instructions change places**: in either order they leave the same
machine behind. -/
theorem Independent.execute_execute (h : i.Independent j) (hi : i.Shaped) (hj : j.Shaped)
    (around around' : Surroundings) (machine : Machine) :
    (j.execute around' (i.execute around machine).1).1 =
      (i.execute around (j.execute around' machine).1).1 := by
  have hsecond := @Shaped.result_evaluate_execute i j around around' machine hj hi
    fun l hl => (h.1 l hl).1
  have hfirst := @Shaped.result_evaluate_execute j i around' around machine hi hj
    fun l hl => (h.2 l hl).1
  rcases hri : (i.evaluate around machine).result with fault | ⟨effect, control⟩
  · rw [execute_of_error hri]
    rw [hri] at hfirst
    rw [execute_of_error hfirst]
  · rw [hri] at hfirst
    rw [execute_of_ok hfirst, execute_of_ok hri]
    rw [execute_of_ok hri] at hsecond
    rcases hrj : (j.evaluate around' machine).result with fault | ⟨other, control'⟩
    · rw [hrj] at hsecond
      rw [execute_of_error hsecond, execute_of_error hrj]
    · rw [hrj] at hsecond
      rw [execute_of_ok hsecond, execute_of_ok hrj]
      refine (Effect.apply_apply_comm (fun l hl => ?_) machine).symm
      rw [hi.location?_of_evaluate hri] at hl
      rw [hj.location?_of_evaluate hrj]
      exact (h.1 l hl).2

/-- **Independent instructions commute.** Of two lines that decode, let neither write a
register, an address or the flag that the other one reads or writes. Then on every
machine they leave the same machine behind in either order: the same registers exist
and hold the same, the flag is the same, and so are the contents of memory and its
length. Each of them goes the same way in both orders, or has the same fault, and one
that fails has no effect. Branches, halts and declarations write nothing, so the law
holds for them as well. -/
theorem execute_comm {line line' : Text} (hline : ofText? line = some i)
    (hline' : ofText? line' = some j) (h : i.Independent j) (around around' : Surroundings)
    (machine : Machine) :
    (j.execute around' (i.execute around machine).1).1 =
        (i.execute around (j.execute around' machine).1).1 ∧
      (i.execute around (j.execute around' machine).1).2.result =
        (i.execute around machine).2.result ∧
      (j.execute around' (i.execute around machine).1).2.result =
        (j.execute around' machine).2.result ∧
      (∀ fault, (i.execute around machine).2.result = .error fault →
        (i.execute around machine).1 = machine ∧
          (i.execute around (j.execute around' machine).1).1 = (j.execute around' machine).1) ∧
      ∀ fault, (j.execute around' machine).2.result = .error fault →
        (j.execute around' machine).1 = machine ∧
          (j.execute around' (i.execute around machine).1).1 = (i.execute around machine).1 := by
  have hi := shaped_of_ofText? hline
  have hj := shaped_of_ofText? hline'
  have hfirst : (i.execute around (j.execute around' machine).1).2.result =
      (i.execute around machine).2.result :=
    hi.result_execute_execute hj fun l hl => (h.2 l hl).1
  have hsecond : (j.execute around' (i.execute around machine).1).2.result =
      (j.execute around' machine).2.result :=
    hj.result_execute_execute hi fun l hl => (h.1 l hl).1
  refine ⟨h.execute_execute hi hj around around' machine, hfirst, hsecond,
    fun fault hfault => ⟨machine_execute_of_error hfault, ?_⟩,
    fun fault hfault => ⟨machine_execute_of_error hfault, ?_⟩⟩
  · exact machine_execute_of_error (hfirst.trans hfault)
  · exact machine_execute_of_error (hsecond.trans hfault)

/-- Two stores that both make memory longer: the length is that of the longer one in
either order, and the gap is filled with zeros. -/
theorem execute_comm_stores :
    let i : Instruction := ⟨.store, [.register 1, .address 5]⟩
    let j : Instruction := ⟨.store, [.register 2, .address 3]⟩
    let machine : Machine := { memory := ⟨#[7]⟩, registers := .ofList [(1, 11), (2, 12)] none }
    ofText? "STR R1, 5".toList = some i ∧ ofText? "STR R2,03".toList = some j ∧
      i.Independent j ∧
      (j.execute ⟨{}, 2⟩ (i.execute ⟨{}, 1⟩ machine).1).1.memory = ⟨#[7, 0, 0, 12, 0, 11]⟩ ∧
      (i.execute ⟨{}, 1⟩ (j.execute ⟨{}, 2⟩ machine).1).1.memory = ⟨#[7, 0, 0, 12, 0, 11]⟩ ∧
      (i.execute ⟨{}, 1⟩ (j.execute ⟨{}, 2⟩ machine).1).2.result = .ok .next := by
  intro i j machine
  have hi : ofText? "STR R1, 5".toList = some i := by decide +kernel
  have hj : ofText? "STR R2,03".toList = some j := by decide +kernel
  have hindependent : i.Independent j := by decide
  have hmemory : (j.execute ⟨{}, 2⟩ (i.execute ⟨{}, 1⟩ machine).1).1.memory =
      ⟨#[7, 0, 0, 12, 0, 11]⟩ := by decide +kernel
  obtain ⟨hsame, hfirst, -⟩ := execute_comm hi hj hindependent ⟨{}, 1⟩ ⟨{}, 2⟩ machine
  exact ⟨hi, hj, hindependent, hmemory, hsame ▸ hmemory, hfirst.trans rfl⟩

end Instruction

end TeachAsm
