import TeachAsm.Machine.Basic
/-!
# Events

What loading and running a program tells its log. An event is a value of its
own kind, so that a log can be reasoned about; how it is shown follows from it:
a level, the part of the program that tells it, a message and named fields.
-/

namespace TeachAsm

/-- How much an event matters. -/
inductive Level where
  | error
  | warn
  | info
  | debug
  | trace
  deriving DecidableEq, Repr

namespace Level

/-- A level as a log line starts with it. -/
def name : Level → String
  | error => "ERROR"
  | warn => "WARN"
  | info => "INFO"
  | debug => "DEBUG"
  | trace => "TRACE"

/-- The place of a level, from the gravest to the least. -/
def rank : Level → Nat
  | error => 0
  | warn => 1
  | info => 2
  | debug => 3
  | trace => 4

end Level

/-- Something that happened while a program was loaded or run. -/
inductive Event where
  /-- The memory image has been read. -/
  | imageParsed (words : Nat)
  /-- A label has been given its slot. -/
  | labelResolved (name : Text) (slot : Nat)
  /-- The program is ready to run. -/
  | programLoaded (slots labels : Nat)
  /-- A register that does not exist has been read. -/
  | unsetRegister (r : Register)
  /-- An address past the end of memory has been read. -/
  | readPastEnd (address size : Nat)
  /-- Memory of the given size is about to grow for a store. -/
  | storePastEnd (address size : Nat)
  /-- The slot `counter` has been executed. -/
  | stepped (counter line : Nat) (text : Text) (control : Control)
  /-- Execution is over. -/
  | stopped (state : State) (operations : Nat)
  /-- What a whole run has led to. -/
  | concluded (state : State) (operations : Nat) (machine : Machine)
  deriving DecidableEq, Repr

/-- A named value of an event. -/
structure Field where
  name : String
  value : String
  /-- Whether a log line puts the value in quotes. -/
  quoted : Bool := false
  deriving DecidableEq, Repr

namespace Event

/-- How much an event matters. -/
def level : Event → Level
  | imageParsed .. | labelResolved .. | programLoaded .. => .debug
  | unsetRegister .. | readPastEnd .. | storePastEnd .. => .warn
  | stepped .. => .trace
  | stopped .. | concluded .. => .info

/-- Whether an event is a warning. -/
def isWarning (event : Event) : Bool :=
  event.level == .warn

/-- The part of the program that tells of an event. -/
def origin : Event → String
  | imageParsed .. | labelResolved .. | programLoaded .. => "aqa::program"
  | unsetRegister .. | readPastEnd .. | storePastEnd .. => "aqa::machine"
  | stepped .. | stopped .. => "aqa::vm"
  | concluded .. => "aqa_asm"

/-- What an event says. -/
def message : Event → String
  | imageParsed .. => "parsed initial memory"
  | labelResolved .. => "resolved label"
  | programLoaded .. => "loaded program"
  | unsetRegister .. => "read of unset register, using 0"
  | readPastEnd .. => "read past the end of memory, using 0"
  | storePastEnd .. => "store past the end of memory, growing it"
  | stepped .. => "step"
  | stopped .. => "program stopped"
  | concluded .. => "final state"

/-- The values an event comes with, in the order they are shown. -/
def fields : Event → List Field
  | imageParsed words => [⟨"words", toString words, false⟩]
  | labelResolved name slot =>
    [⟨"label", String.ofList name, true⟩, ⟨"slot", toString slot, false⟩]
  | programLoaded slots labels =>
    [⟨"slots", toString slots, false⟩, ⟨"labels", toString labels, false⟩]
  | unsetRegister r => [⟨"register", toString r, false⟩]
  | readPastEnd address size | storePastEnd address size =>
    [⟨"address", toString address, false⟩, ⟨"len", toString size, false⟩]
  | stepped counter line text control =>
    [⟨"pc", toString counter, false⟩, ⟨"line", toString line, false⟩,
     ⟨"text", String.ofList text, false⟩, ⟨"control", control.text, false⟩]
  | stopped state operations =>
    [⟨"state", state.name, false⟩, ⟨"operations", toString operations, false⟩]
  | concluded state operations machine =>
    [⟨"state", state.name, false⟩, ⟨"operations", toString operations, false⟩,
     ⟨"memory", String.ofList machine.memory.text, false⟩,
     ⟨"registers", String.ofList machine.registers.text, false⟩]

end Event

/-- A field in a log line. -/
def Field.text (field : Field) : String :=
  if field.quoted then
    field.name ++ "=\"" ++ field.value ++ "\""
  else
    field.name ++ "=" ++ field.value

/-- An event as a line of a log. -/
def Event.text (event : Event) : String :=
  " ".intercalate
    ((event.level.name ++ " " ++ event.origin ++ ": " ++ event.message)
      :: event.fields.map Field.text)

end TeachAsm
