import TeachAsm.Machine.Word
/-!
# Faults

Everything that can go wrong when a program is loaded or run, as the cause and
what is known about it. Line numbers count the physical lines of the source
from one. `Fault.message` is the sentence that a user is shown.
-/

namespace TeachAsm

/-- Why a program could not be loaded, or why its run ended early. -/
inductive Fault where
  /-- There is no file of text at the path. -/
  | unreadableFile (path : Text)
  /-- The first line of code is not a memory image. -/
  | malformedImage (line : Nat)
  /-- The source holds no code. -/
  | missingImage
  /-- A line is neither an instruction nor a label in front of one. -/
  | unknownInstruction (line : Nat) (text : Text)
  /-- A branch is taken to a label that is declared nowhere. -/
  | undeclaredLabel (line : Nat) (name : Text)
  /-- A label is declared twice. -/
  | duplicateLabel (name : Text) (first second : Nat)
  /-- A store goes to an address past the limit of memory. -/
  | addressOutOfRange (line : Nat) (address : Address)
  /-- An instruction has no capture of the right kind at a position. -/
  | missingCapture (position : Nat)
  /-- A run has used up its steps. -/
  | stepLimit (limit : Nat)
  /-- The tracer could not take a record. -/
  | traceFailed
  deriving DecidableEq, Repr

/-- The sentence that tells a user of a fault. -/
def Fault.message : Fault → String
  | unreadableFile path => "failed to read `" ++ String.ofList path ++ "`"
  | malformedImage line => s!"line {line}: initial memory is not a JSON array of integers"
  | missingImage => "program is empty, expected a JSON memory image on the first line"
  | unknownInstruction line text =>
    s!"line {line}: no instruction matches `" ++ String.ofList text ++ "`"
  | undeclaredLabel line name =>
    s!"line {line}: branch to undeclared label `" ++ String.ofList name ++ "`"
  | duplicateLabel name first second =>
    "label `" ++ String.ofList name ++ s!"` declared on line {first} and again on line {second}"
  | addressOutOfRange line address =>
    s!"line {line}: store to address {address} is past the memory limit"
  | missingCapture position => s!"instruction has no operand at position {position}"
  | stepLimit limit => s!"step limit of {limit} reached before the program halted"
  | traceFailed => "failed to write trace"

namespace Fault

variable {α : Type}

@[simp] theorem mapError_ok (f : Fault → Fault) (a : α) :
    (Except.ok a : Except Fault α).mapError f = .ok a :=
  rfl

@[simp] theorem mapError_error (f : Fault → Fault) (fault : Fault) :
    (Except.error fault : Except Fault α).mapError f = .error (f fault) :=
  rfl

end Fault

end TeachAsm
