import TeachAsm.Fault
import TeachAsm.Template.Capture
/-!
# The fields of an instruction

An instruction asks for its captures by position and kind. Where the
capture is missing, or of another kind, the fault names the position.
-/

namespace TeachAsm

namespace Captures

variable {α : Type}

/-- What `pick` takes from the capture at a position. -/
def field (pick : Capture → Option α) (captures : Captures) (position : Nat) : Except Fault α :=
  match captures[position]?.bind pick with
  | some a => .ok a
  | none => .error (.missingCapture position)

/-- The register at a position. -/
def register : Captures → Nat → Except Fault Register :=
  field Capture.register?

/-- The address at a position. -/
def address : Captures → Nat → Except Fault Address :=
  field Capture.address?

/-- The operand at a position. -/
def operand : Captures → Nat → Except Fault Operand :=
  field Capture.operand?

/-- The name of a label at a position. -/
def label : Captures → Nat → Except Fault Text :=
  field Capture.label?

/-- A field is missing when nothing can be picked at its position, and the
fault names that position. -/
theorem field_eq_error_iff {pick : Capture → Option α} {captures : Captures} {position : Nat}
    {fault : Fault} :
    field pick captures position = .error fault ↔
      captures[position]?.bind pick = none ∧ fault = .missingCapture position := by
  unfold field
  split
  · next h => simp [h]
  · next h => simp [h, eq_comm]

theorem field_eq_ok_iff {pick : Capture → Option α} {captures : Captures} {position : Nat}
    {a : α} : field pick captures position = .ok a ↔ captures[position]?.bind pick = some a := by
  unfold field
  split
  · next h => simp [h]
  · next h => simp [h]

end Captures

end TeachAsm
