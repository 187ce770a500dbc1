import TeachAsm.Text.Decimal
/-!
# Words, registers and addresses

A machine word is a signed number of 32 bits, and arithmetic on words wraps.
Registers are numbered with 32 bits and addresses with 64. The binary
operations of the instruction set are collected in `Operation`; a shift takes
its amount modulo the width of a word, and a shift to the right keeps the sign.
-/

namespace TeachAsm

/-- The contents of a register or of a memory cell. -/
abbrev Word := Int32

/-- The number of a register. -/
abbrev Register := UInt32

/-- The index of a memory cell, as an instruction names it. -/
abbrev Address := UInt64

namespace Word

/-- One more than the largest word. -/
def bound : Nat := 2147483648

/-- A word in decimal. -/
def decimal (w : Word) : Text :=
  Decimal.ofInt w.toInt

/-- The word with a given value, if it is in range. -/
def ofInt? (n : Int) : Option Word :=
  if Int32.minValue.toInt ≤ n ∧ n ≤ Int32.maxValue.toInt then some (Int32.ofInt n) else none

end Word

/-- The operations that combine two words into one. -/
inductive Operation where
  | add
  | sub
  | and
  | or
  | xor
  | shiftLeft
  | shiftRight
  deriving DecidableEq, Repr

/-- The value of an operation. Sums, differences and shifts to the left wrap;
both shifts take the amount modulo 32. -/
def Operation.apply : Operation → Word → Word → Word
  | add, x, y => x + y
  | sub, x, y => x - y
  | and, x, y => x &&& y
  | or, x, y => x ||| y
  | xor, x, y => x ^^^ y
  | shiftLeft, x, y => x <<< y
  | shiftRight, x, y => x >>> y

/-- The order of two words, which is all that a comparison leaves behind. -/
inductive Flag where
  | equal
  | greater
  | less
  deriving DecidableEq, Repr

namespace Flag

/-- How `x` compares with `y`, as signed numbers. -/
def compare (x y : Word) : Flag :=
  if x = y then equal else if x > y then greater else less

/-- The two letters that a flag is shown by. -/
def code : Flag → String
  | equal => "EQ"
  | greater => "GT"
  | less => "LT"

end Flag

end TeachAsm
