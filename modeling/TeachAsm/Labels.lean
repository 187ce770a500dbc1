import TeachAsm.Fault
/-!
# Labels

The labels of a program, each with the slot and the line of its declaration.
A name is declared once; a second declaration is a fault that names both lines.
-/

namespace TeachAsm

/-- Where a label is declared. -/
structure Declaration where
  name : Text
  slot : Nat
  line : Nat
  deriving DecidableEq, Repr

/-- The declarations made so far, the latest first. -/
structure Labels where
  declarations : List Declaration := []
  deriving DecidableEq, Repr

namespace Labels

/-- The declaration of a name. -/
def find? (labels : Labels) (name : Text) : Option Declaration :=
  labels.declarations.find? (·.name = name)

/-- The slot a name stands for. -/
def slot? (labels : Labels) (name : Text) : Option Nat :=
  (labels.find? name).map Declaration.slot

/-- The number of labels. -/
def size (labels : Labels) : Nat :=
  labels.declarations.length

/-- The labels with one more, unless its name is taken. -/
def declare (labels : Labels) (d : Declaration) : Except Fault Labels :=
  match labels.find? d.name with
  | some earlier => .error (.duplicateLabel d.name earlier.line d.line)
  | none => .ok ⟨d :: labels.declarations⟩

/-- A name that is declared stands for the slot of its declaration, and the
other names for what they stood for. -/
theorem slot?_of_declare {labels labels' : Labels} {d : Declaration}
    (h : labels.declare d = .ok labels') (name : Text) :
    labels'.slot? name = if d.name = name then some d.slot else labels.slot? name := by
  unfold declare at h
  split at h
  · simp at h
  · obtain rfl := Except.ok.inj h
    by_cases hname : d.name = name <;> simp [slot?, find?, hname]

end Labels

end TeachAsm
