import Mathlib.Data.Int.Bitwise
import Mathlib.Data.Int.ModEq
import TeachAsm.Machine.Word
/-!
# Operations as operations on numbers

A word is a number between `-2 ^ 31` and `2 ^ 31`, and no two of these differ by a
multiple of `2 ^ 32` (`Word.eq_of_modEq`). `Operation.Yields` says what an operation
makes of two words without speaking of registers or carries: a sum, a difference and a
shift to the left are what they are for numbers, up to multiples of `2 ^ 32`; a shift to
the right is a division, rounded down; and the bitwise operations are those on
two's complements of any length. It is what the operations do (`Operation.yields_apply`),
and it leaves no choice (`Operation.Yields.unique`).
-/

namespace TeachAsm

/-! ## Bits of numbers -/

/-- A number is told from its bits. -/
theorem eq_of_testBit_eq {z y : Int} (h : ∀ k, z.testBit k = y.testBit k) : z = y := by
  -- far enough to the left, all bits are those of the sign
  have hsigns (m n : Nat) : ¬ ∀ k, (Int.ofNat m).testBit k = (Int.negSucc n).testBit k := by
    intro hall
    have hfar := hall (m + n)
    have hm : m < 2 ^ (m + n) :=
      Nat.lt_of_lt_of_le Nat.lt_two_pow_self (Nat.pow_le_pow_right (by decide) (by omega))
    have hn : n < 2 ^ (m + n) :=
      Nat.lt_of_lt_of_le Nat.lt_two_pow_self (Nat.pow_le_pow_right (by decide) (by omega))
    simp [Int.testBit, Nat.testBit_lt_two_pow hm, Nat.testBit_lt_two_pow hn] at hfar
  cases z with
  | ofNat m =>
    cases y with
    | ofNat n => exact congrArg Int.ofNat (Nat.eq_of_testBit_eq h)
    | negSucc n => exact absurd h (hsigns m n)
  | negSucc m =>
    cases y with
    | ofNat n => exact absurd (fun k => (h k).symm) (hsigns n m)
    | negSucc n =>
      exact congrArg Int.negSucc (Nat.eq_of_testBit_eq fun k => Bool.not_inj (h k))

/-- **The bits of a signed number are those of its two's complement**, and the sign
from there on. -/
theorem testBit_toInt {n : Nat} (x : BitVec n) (k : Nat) :
    x.toInt.testBit k = if k < n then x.getLsbD k else x.msb := by
  rw [BitVec.toInt_eq_msb_cond]
  cases hmsb : x.msb with
  | false =>
    have hnat : ((x.toNat : Int)).testBit k = x.getLsbD k := rfl
    rw [if_neg (by simp), hnat]
    split
    · rfl
    · exact BitVec.getLsbD_of_ge x k (by omega)
  | true =>
    have hneg : (x.toNat : Int) - (2 ^ n : Nat) = Int.negSucc (2 ^ n - (x.toNat + 1)) := by
      have := x.isLt
      omega
    have hbit : (Int.negSucc (2 ^ n - (x.toNat + 1))).testBit k =
        !(2 ^ n - (x.toNat + 1)).testBit k := rfl
    rw [if_pos rfl, hneg, hbit, Nat.testBit_two_pow_sub_succ x.isLt, BitVec.testBit_toNat]
    split
    · next hk => simp only [hk, decide_true, Bool.true_and, Bool.not_not]
    · next hk => simp only [hk, decide_false, Bool.false_and, Bool.not_false]

namespace Word

/-- **Words that agree up to multiples of `2 ^ 32` are the same.** -/
theorem eq_of_modEq {v w : Word} (h : v.toInt ≡ w.toInt [ZMOD 2 ^ 32]) : v = w := by
  have hv := Int32.le_toInt v
  have hv' := Int32.toInt_lt v
  have hw := Int32.le_toInt w
  have hw' := Int32.toInt_lt w
  refine Int32.toInt_inj.1 ?_
  unfold Int.ModEq at h
  omega

/-- What is reduced to a word is changed by a multiple of `2 ^ 32`. -/
theorem bmod_modEq (z : Int) : z.bmod (2 ^ 32) ≡ z [ZMOD 2 ^ 32] :=
  Int.bmod_emod

/-- The amount of a shift. -/
theorem toNat_smod (y : Word) : (y.toBitVec.smod 32).toNat = (y.toInt % 32).toNat := by
  have hmod : (y.toBitVec.smod 32).toInt = y.toInt % 32 := by
    rw [BitVec.toInt_smod]
    exact Int.fmod_eq_emod_of_nonneg _ (by decide)
  have hnonneg := Int.emod_nonneg y.toInt (b := 32) (by decide)
  rw [BitVec.toInt_eq_toNat_cond] at hmod
  split at hmod <;> omega

/-- **A shift to the left multiplies.** -/
theorem toInt_shiftLeft_modEq (x y : Word) :
    (x <<< y).toInt ≡ x.toInt * 2 ^ (y.toInt % 32).toNat [ZMOD 2 ^ 32] := by
  have hbits : (x <<< y).toInt =
      ((x.toBitVec.toNat : Int) * 2 ^ (y.toInt % 32).toNat).bmod (2 ^ 32) := by
    rw [← Int32.toInt_toBitVec, Int32.toBitVec_shiftLeft, BitVec.shiftLeft_eq', toNat_smod,
      BitVec.toInt_shiftLeft]
    simp [Int.shiftLeft_eq]
  have hsign : (x.toBitVec.toNat : Int) ≡ x.toInt [ZMOD 2 ^ 32] := by
    rw [← Int32.toInt_toBitVec, BitVec.toInt_eq_toNat_bmod]
    exact (bmod_modEq _).symm
  rw [hbits]
  exact (bmod_modEq _).trans (hsign.mul_right _)

/-- **A shift to the right divides**, and rounds down. -/
theorem toInt_shiftRight (x y : Word) :
    (x >>> y).toInt = x.toInt / 2 ^ (y.toInt % 32).toNat := by
  rw [← Int32.toInt_toBitVec, Int32.toBitVec_shiftRight, BitVec.toInt_sshiftRight', toNat_smod,
    Int.shiftRight_eq_div_pow, Int32.toInt_toBitVec]
  simp

/-- **The complement of a word**, as a number. -/
theorem toInt_complement (w : Word) : (~~~w).toInt = -1 - w.toInt := by
  have hw := Int32.le_toInt w
  have hw' := Int32.toInt_lt w
  rw [Int32.toInt_not, Int.bmod_eq_of_le (by omega) (by omega)]
  omega

end Word

namespace Operation

/-- **What an operation makes of two words**, as numbers. -/
def Yields : Operation → Word → Word → Word → Prop
  | add, x, y, w => w.toInt ≡ x.toInt + y.toInt [ZMOD 2 ^ 32]
  | sub, x, y, w => w.toInt ≡ x.toInt - y.toInt [ZMOD 2 ^ 32]
  | and, x, y, w => w.toInt = Int.land x.toInt y.toInt
  | or, x, y, w => w.toInt = Int.lor x.toInt y.toInt
  | xor, x, y, w => w.toInt = Int.xor x.toInt y.toInt
  | shiftLeft, x, y, w => w.toInt ≡ x.toInt * 2 ^ (y.toInt % 32).toNat [ZMOD 2 ^ 32]
  | shiftRight, x, y, w => w.toInt = x.toInt / 2 ^ (y.toInt % 32).toNat

instance : (operation : Operation) → (x y w : Word) → Decidable (operation.Yields x y w)
  | .add, x, y, w => inferInstanceAs (Decidable (w.toInt ≡ x.toInt + y.toInt [ZMOD 2 ^ 32]))
  | .sub, x, y, w => inferInstanceAs (Decidable (w.toInt ≡ x.toInt - y.toInt [ZMOD 2 ^ 32]))
  | .and, x, y, w => inferInstanceAs (Decidable (w.toInt = Int.land x.toInt y.toInt))
  | .or, x, y, w => inferInstanceAs (Decidable (w.toInt = Int.lor x.toInt y.toInt))
  | .xor, x, y, w => inferInstanceAs (Decidable (w.toInt = Int.xor x.toInt y.toInt))
  | .shiftLeft, x, y, w =>
    inferInstanceAs (Decidable (w.toInt ≡ x.toInt * 2 ^ (y.toInt % 32).toNat [ZMOD 2 ^ 32]))
  | .shiftRight, x, y, w =>
    inferInstanceAs (Decidable (w.toInt = x.toInt / 2 ^ (y.toInt % 32).toNat))

/-- A word whose bits are made of those of two others is made of them as a number. -/
theorem toInt_of_bits {f : Bool → Bool → Bool} {g : Int → Int → Int}
    (hg : ∀ z z' k, (g z z').testBit k = f (z.testBit k) (z'.testBit k)) {x y w : Word}
    (hbits : ∀ k, w.toBitVec.getLsbD k = f (x.toBitVec.getLsbD k) (y.toBitVec.getLsbD k))
    (hmsb : w.toBitVec.msb = f x.toBitVec.msb y.toBitVec.msb) :
    w.toInt = g x.toInt y.toInt := by
  refine eq_of_testBit_eq fun k => ?_
  rw [hg, ← Int32.toInt_toBitVec, ← Int32.toInt_toBitVec, ← Int32.toInt_toBitVec, testBit_toInt,
    testBit_toInt, testBit_toInt]
  split
  · exact hbits k
  · exact hmsb

/-- **An operation does what its numbers say.** -/
theorem yields_apply (operation : Operation) (x y : Word) :
    operation.Yields x y (operation.apply x y) := by
  cases operation with
  | add =>
    rw [Yields, apply, Int32.toInt_add]
    exact Word.bmod_modEq _
  | sub =>
    rw [Yields, apply, Int32.toInt_sub]
    exact Word.bmod_modEq _
  | and => exact toInt_of_bits Int.testBit_land (fun k => by simp [apply]) (by simp [apply])
  | or => exact toInt_of_bits Int.testBit_lor (fun k => by simp [apply]) (by simp [apply])
  | xor => exact toInt_of_bits Int.testBit_lxor (fun k => by simp [apply]) (by simp [apply])
  | shiftLeft => exact Word.toInt_shiftLeft_modEq x y
  | shiftRight => exact Word.toInt_shiftRight x y

/-- **And its numbers leave no choice.** -/
theorem Yields.unique {operation : Operation} {x y v w : Word} (hv : operation.Yields x y v)
    (hw : operation.Yields x y w) : v = w := by
  cases operation with
  | add | sub | shiftLeft => exact Word.eq_of_modEq (Int.ModEq.trans hv (Int.ModEq.symm hw))
  | and | or | xor | shiftRight => exact Int32.toInt_inj.1 (Eq.trans hv (Eq.symm hw))

end Operation

end TeachAsm
