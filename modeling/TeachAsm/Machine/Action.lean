import TeachAsm.Machine.Access
/-!
# Work on a machine

An action reports on its work like any other, and changes a machine as it
goes. After a fault nothing follows, but there is no way back: what has been
changed by then stays changed.
-/

namespace TeachAsm

/-- Work that changes a machine as it goes. -/
def Action (α : Type) : Type :=
  Machine → Machine × Report α

namespace Action

variable {α β : Type}

/-- First one action, then the one that depends on its value, on the machine as
the first has left it. -/
protected def bind (x : Action α) (f : α → Action β) : Action β := fun machine =>
  match x machine with
  | (machine, ⟨events, .ok a⟩) =>
    let (machine, report) := f a machine
    (machine, ⟨events ++ report.events, report.result⟩)
  | (machine, ⟨events, .error fault⟩) => (machine, ⟨events, .error fault⟩)

instance : Monad Action where
  pure a := fun machine => (machine, pure a)
  bind := Action.bind

/-- Looking at the machine. -/
def view (f : Machine → Report α) : Action α := fun machine =>
  (machine, f machine)

instance : MonadLift (Except Fault) Action where
  monadLift result := view fun _ => Report.ofExcept result

/-- Writes a register. -/
def setRegister (r : Register) (w : Word) : Action Unit := fun machine =>
  ({ machine with registers := machine.registers.write r w }, pure ())

/-- Sets the flag. -/
def setFlag (flag : Flag) : Action Unit := fun machine =>
  ({ machine with registers := machine.registers.setFlag flag }, pure ())

/-- Writes a word of memory, or fails with the given fault when its address is
past the limit. -/
def setWord (a : Nat) (w : Word) (fault : Fault) : Action Unit := fun machine =>
  if machine.memory.Writable a then
    let growth := machine.memory.growth a
    ({ machine with memory := machine.memory.put a w }, Report.note growth)
  else
    (machine, Report.fail fault)

end Action

end TeachAsm
