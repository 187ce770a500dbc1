import TeachAsm.Machine.Word
import TeachAsm.Template.Basic
/-!
# Captures

A capture is the value that a placeholder reads from a line. Each has one
canonical text, without leading zeros; filling a template's holes with the
canonical texts of captures writes a line (`Template.fill`).
-/

namespace TeachAsm

/-- The last source of an instruction that computes. -/
inductive Operand where
  /-- What register `r` holds. -/
  | register (r : Register)
  /-- The value `w` itself. -/
  | immediate (w : Word)
  deriving DecidableEq, Repr

/-- The value a placeholder reads. -/
inductive Capture where
  | register (r : Register)
  | address (a : Address)
  | operand (o : Operand)
  | label (name : Text)
  deriving DecidableEq, Repr

/-- The captures of a line, in the order of the template's holes. -/
abbrev Captures := List Capture

/-- A register as a line writes it. -/
def Register.text (r : Register) : Text :=
  'R' :: Decimal.ofNat r.toNat

/-- An operand as a line writes it. -/
def Operand.text : Operand → Text
  | register r => Register.text r
  | immediate w => '#' :: w.decimal

/-- A capture as a line writes it, without leading zeros. -/
def Capture.text : Capture → Text
  | register r => Register.text r
  | address a => Decimal.ofNat a.toNat
  | operand o => o.text
  | label name => name

namespace Capture

/-- The register, in a capture of one. -/
def register? : Capture → Option Register
  | register r => some r
  | _ => none

/-- The address, in a capture of one. -/
def address? : Capture → Option Address
  | address a => some a
  | _ => none

/-- The operand, in a capture of one. -/
def operand? : Capture → Option Operand
  | operand o => some o
  | _ => none

/-- The name, in a capture of a label. -/
def label? : Capture → Option Text
  | label name => some name
  | _ => none

end Capture

/-- The placeholder that reads a capture of this kind. -/
def Capture.placeholder : Capture → Placeholder
  | register _ => .register
  | address _ => .memory
  | operand _ => .operand
  | label _ => .label

/-- The line in which each hole of a template holds its capture's text. A
hole without a capture stays empty. -/
def Template.fill : Template → Captures → Text
  | .hole _ :: pieces, capture :: captures => capture.text ++ fill pieces captures
  | .hole _ :: pieces, [] => fill pieces []
  | .literal c :: pieces, captures => c :: fill pieces captures
  | .blank c :: pieces, captures => c :: fill pieces captures
  | [], _ => []

end TeachAsm
