import TeachAsm.Instruction.Execution
/-!
# An instruction's effect comes last

An instruction changes the machine as it goes, so it might have changed it in
part when a fault ends it. It has not: executing it is the same as evaluating
it, which only looks at the machine and says what is to change (`Effect`), and
then making that one change (`Opcode.execute_eq_lastly`). This holds whatever
the captures are, and so a fault leaves the machine as it was
(`Instruction.execute_of_error`).
-/

namespace TeachAsm

/-- A change to the machine. -/
inductive Effect where
  | none
  | setRegister (r : Register) (w : Word)
  | setWord (a : Nat) (w : Word)
  | setFlag (flag : Flag)
  deriving DecidableEq, Repr

/-- The machine after a change. -/
def Effect.apply : Effect → Machine → Machine
  | none, machine => machine
  | setRegister r w, machine => { machine with registers := machine.registers.write r w }
  | setWord a w, machine => { machine with memory := machine.memory.put a w }
  | setFlag flag, machine => { machine with registers := machine.registers.setFlag flag }

/-! ## Looking first -/

namespace Report

variable {α : Type} {report : Report (Effect × α)} {effect : Effect} {a : α} {fault : Fault}

/-- Makes the effect that a report comes to. -/
def onto (report : Report (Effect × α)) (machine : Machine) : Machine × Report α :=
  match report with
  | ⟨events, .ok (effect, a)⟩ => (effect.apply machine, ⟨events, .ok a⟩)
  | ⟨events, .error fault⟩ => (machine, ⟨events, .error fault⟩)

theorem onto_of_ok (h : report.result = .ok (effect, a)) (machine : Machine) :
    report.onto machine = (effect.apply machine, ⟨report.events, .ok a⟩) := by
  obtain ⟨events, result⟩ := report
  obtain rfl : result = .ok (effect, a) := h
  rfl

theorem onto_of_error (h : report.result = .error fault) (machine : Machine) :
    report.onto machine = (machine, ⟨report.events, .error fault⟩) := by
  obtain ⟨events, result⟩ := report
  obtain rfl : result = .error fault := h
  rfl

end Report

namespace Action

variable {α β : Type}

/-- The action that looks at the machine for what is to change, and makes the
change last. -/
def lastly (f : Machine → Report (Effect × α)) : Action α := fun machine =>
  (f machine).onto machine

theorem pure_eq_lastly (a : α) : (pure a : Action α) = lastly fun _ => pure (.none, a) :=
  rfl

theorem view_bind_of_ok {f : Machine → Report α} {machine : Machine} {a : α}
    (h : (f machine).result = .ok a) (g : α → Action β) :
    (view f >>= g) machine = ((g a machine).1,
      ⟨(f machine).events ++ (g a machine).2.events, (g a machine).2.result⟩) := by
  change Action.bind (view f) g machine = _
  rcases hf : f machine with ⟨events, result⟩
  rw [hf] at h
  obtain rfl : result = .ok a := h
  simp only [Action.bind, view, hf]

theorem view_bind_of_error {f : Machine → Report α} {machine : Machine} {fault : Fault}
    (h : (f machine).result = .error fault) (g : α → Action β) :
    (view f >>= g) machine = (machine, ⟨(f machine).events, .error fault⟩) := by
  change Action.bind (view f) g machine = _
  rcases hf : f machine with ⟨events, result⟩
  rw [hf] at h
  obtain rfl : result = .error fault := h
  simp only [Action.bind, view, hf]

/-- **Looking at the machine may be done by what comes last.** -/
theorem view_bind_lastly (f : Machine → Report α) (g : α → Machine → Report (Effect × β)) :
    (view f >>= fun a => lastly (g a)) =
      lastly fun machine => f machine >>= fun a => g a machine := by
  funext machine
  rw [lastly]
  cases hf : (f machine).result with
  | error fault =>
    rw [view_bind_of_error hf, Report.bind_of_error hf]
    rfl
  | ok a =>
    rw [view_bind_of_ok hf, Report.bind_of_ok hf]
    rcases hg : g a machine with ⟨events, result⟩
    rw [lastly, hg]
    cases result <;> rfl

theorem lift_bind_lastly (result : Except Fault α) (g : α → Machine → Report (Effect × β)) :
    ((liftM result : Action α) >>= fun a => lastly (g a)) =
      lastly fun machine => (liftM result : Report α) >>= fun a => g a machine :=
  view_bind_lastly (fun _ => Report.ofExcept result) g

theorem setRegister_bind_pure (r : Register) (w : Word) (a : α) :
    (setRegister r w >>= fun _ => pure a) = lastly fun _ => pure (.setRegister r w, a) :=
  rfl

theorem setFlag_bind_pure (flag : Flag) (a : α) :
    (setFlag flag >>= fun _ => pure a) = lastly fun _ => pure (.setFlag flag, a) :=
  rfl

/-- The evaluation of a write to memory. -/
theorem setWord_bind_pure (a : Nat) (w : Word) (fault : Fault) (b : β) :
    (setWord a w fault >>= fun _ => pure b) = lastly fun machine =>
      if machine.memory.Writable a then do
        Report.note (machine.memory.growth a)
        return (.setWord a w, b)
      else
        Report.fail fault := by
  funext machine
  change Action.bind (setWord a w fault) (fun _ => pure b) machine = _
  by_cases hw : machine.memory.Writable a
  · rw [Action.bind, setWord, lastly, if_pos hw, if_pos hw]
    rfl
  · rw [Action.bind, setWord, lastly, if_neg hw, if_neg hw]
    rfl

theorem ite_lastly (p : Prop) [Decidable p] (f g : Machine → Report (Effect × α)) :
    (if p then lastly f else lastly g) =
      lastly fun machine => if p then f machine else g machine := by
  split <;> rfl

end Action

/-! ## Evaluating an instruction -/

namespace Opcode

/-- What a line of an opcode is to change, and where execution goes. -/
def evaluate (around : Surroundings) (captures : Captures) (machine : Machine) :
    Opcode → Report (Effect × Control)
  | load => do
    let d ← captures.register 0
    let a ← captures.address 1
    let w ← machine.memory.read a.toNat
    return (.setRegister d w, .next)
  | store => do
    let s ← captures.register 0
    let a ← captures.address 1
    let w ← machine.registers.read s
    if machine.memory.Writable a.toNat then
      Report.note (machine.memory.growth a.toNat)
      return (.setWord a.toNat w, .next)
    else
      Report.fail (.addressOutOfRange around.line a)
  | compute operation => do
    let d ← captures.register 0
    let n ← captures.register 1
    let x ← machine.registers.read n
    let o ← captures.operand 2
    let y ← machine.operand o
    return (.setRegister d (operation.apply x y), .next)
  | copy => do
    let d ← captures.register 0
    let o ← captures.operand 1
    let y ← machine.operand o
    return (.setRegister d y, .next)
  | complement => do
    let d ← captures.register 0
    let o ← captures.operand 1
    let y ← machine.operand o
    return (.setRegister d (~~~y), .next)
  | compare => do
    let n ← captures.register 0
    let x ← machine.registers.read n
    let o ← captures.operand 1
    let y ← machine.operand o
    return (.setFlag (Flag.compare x y), .next)
  | branch condition =>
    if condition.holds machine.registers.flag then do
      let name ← captures.label 0
      let slot ← around.slot name
      return (.none, .jump slot)
    else
      return (.none, .next)
  | halt => return (.none, .halt)
  | label => return (.none, .next)

/-- **Executing is evaluating and then making the effect**, for every opcode and
any captures. -/
theorem execute_eq_lastly (around : Surroundings) (captures : Captures) (op : Opcode) :
    op.execute around captures =
      Action.lastly fun machine => op.evaluate around captures machine := by
  -- each change stands at the end already, and the looks in front of it go into
  -- the evaluation one after the other, from the last to the first
  cases op with
  | load | store | compute | copy | complement | compare =>
    simp only [execute, evaluate, Action.setRegister_bind_pure, Action.setFlag_bind_pure,
      Action.setWord_bind_pure, Action.view_bind_lastly, Action.lift_bind_lastly]
  | branch condition =>
    simp only [execute, evaluate, Action.pure_eq_lastly, Action.lift_bind_lastly,
      Action.ite_lastly, Action.view_bind_lastly, pure_bind]
  | halt | label => rfl

end Opcode

namespace Instruction

/-- What an instruction is to change, and where execution goes. -/
def evaluate (instruction : Instruction) (around : Surroundings) (machine : Machine) :
    Report (Effect × Control) :=
  instruction.opcode.evaluate around instruction.captures machine

variable {i : Instruction} {around : Surroundings} {machine : Machine} {fault : Fault}
variable {effect : Effect} {control : Control}

theorem execute_eq_lastly (i : Instruction) (around : Surroundings) :
    i.execute around = Action.lastly (i.evaluate around) :=
  i.opcode.execute_eq_lastly around i.captures

theorem execute_of_ok (h : (i.evaluate around machine).result = .ok (effect, control)) :
    i.execute around machine =
      (effect.apply machine, ⟨(i.evaluate around machine).events, .ok control⟩) := by
  rw [execute_eq_lastly, Action.lastly, Report.onto_of_ok h]

/-- **A fault leaves the machine as it was.** -/
theorem execute_of_error (h : (i.evaluate around machine).result = .error fault) :
    i.execute around machine = (machine, ⟨(i.evaluate around machine).events, .error fault⟩) := by
  rw [execute_eq_lastly, Action.lastly, Report.onto_of_error h]

/-- Executing has the result of evaluating, less the effect. -/
theorem result_execute (i : Instruction) (around : Surroundings) (machine : Machine) :
    (i.execute around machine).2.result = (i.evaluate around machine).result.map Prod.snd := by
  rcases hr : (i.evaluate around machine).result with fault | ⟨effect, control⟩
  · rw [execute_of_error hr]
    rfl
  · rw [execute_of_ok hr]
    rfl

/-- And so it fails with the same faults. -/
theorem result_execute_eq_error_iff :
    (i.execute around machine).2.result = .error fault ↔
      (i.evaluate around machine).result = .error fault := by
  rw [result_execute]
  cases (i.evaluate around machine).result <;> simp [Except.map]

theorem machine_execute_of_error (h : (i.execute around machine).2.result = .error fault) :
    (i.execute around machine).1 = machine := by
  rw [execute_of_error (result_execute_eq_error_iff.1 h)]

/-- An instruction that does not fail has made the effect that it comes to. -/
theorem exists_effect_of_execute {machine' : Machine} {events : List Event}
    (h : i.execute around machine = (machine', ⟨events, .ok control⟩)) :
    ∃ effect, (i.evaluate around machine).result = .ok (effect, control) ∧
      machine' = effect.apply machine := by
  rcases hr : (i.evaluate around machine).result with fault | ⟨effect, control'⟩
  · rw [execute_of_error hr] at h
    cases h
  · rw [execute_of_ok hr] at h
    cases h
    exact ⟨effect, rfl, rfl⟩

end Instruction

end TeachAsm
