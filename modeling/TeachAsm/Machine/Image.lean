import TeachAsm.Machine.Memory
import TeachAsm.Machine.Registers
import TeachAsm.Text.Blank
/-!
# Memory and registers in writing

Memory is written as a JSON array of integers, `[1, -2, 3]`. Reading accepts
every JSON array whose elements are integers in the range of a word: spaces
are free around the elements, but a number has no fraction, no exponent, no
plus sign and no leading zero, and zero has no minus sign. Registers are only
written, as `{R2: 5, R10: 1, cmp: GT}`.
-/

namespace TeachAsm

namespace Image

/-- The spaces of JSON. -/
def isSpace (c : Char) : Bool :=
  c == ' ' || c == '\t' || c == '\n' || c == '\r'

/-- The natural number that a text writes without leading zeros. -/
def natural? : Text → Option Nat
  | ['0'] => some 0
  | '0' :: _ => none
  | digits => if digits ≠ [] ∧ digits.all Char.isDigit then some (Decimal.value digits) else none

/-- The integer that a text writes, zero without a sign. -/
def integer? : Text → Option Int
  | '-' :: digits =>
    match natural? digits with
    | some (n + 1) => some (Int.negSucc n)
    | _ => none
  | digits => (natural? digits).map Int.ofNat

/-- The word that an element of an array writes. -/
def word? (element : Text) : Option Word :=
  (integer? (Text.strip isSpace element)).bind Word.ofInt?

/-- The text between the brackets of an array. -/
def body? (t : Text) : Option Text :=
  match Text.strip isSpace t with
  | '[' :: rest => if rest.getLast? = some ']' then some rest.dropLast else none
  | _ => none

end Image

/-- The memory that a JSON array of integers writes. -/
def Memory.ofText? (t : Text) : Option Memory := do
  let body ← Image.body? t
  if body.all Image.isSpace then
    return {}
  else
    let words ← (body.splitOn ',').mapM Image.word?
    return ⟨words.toArray⟩

/-- Memory as a JSON array. -/
def Memory.text (m : Memory) : Text :=
  '[' :: (", ".toList.intercalate (m.words.toList.map Word.decimal) ++ [']'])

/-- What registers show of one entry. -/
def Registers.entryText (entry : Register × Word) : Text :=
  'R' :: (Decimal.ofNat entry.1.toNat ++ ": ".toList ++ entry.2.decimal)

/-- What registers show of the flag, which is nothing when it is unset. -/
def Registers.flagText : Option Flag → List Text
  | some flag => ["cmp: ".toList ++ flag.code.toList]
  | none => []

/-- Registers in ascending order, and the flag after them if it is set. -/
def Registers.text (rs : Registers) : Text :=
  '\x7b' :: (", ".toList.intercalate (rs.entries.map entryText ++ flagText rs.flag) ++ ['\x7d'])

end TeachAsm
