-- SUMMARY: Numbers in the wide range as words: what is done to their bits is done to the numbers.
import Mathlib.Data.Int.Bitwise
import StructPadding.Package.Constant

/-!
# Wide numbers

A number in the wide range is what a word in two's complement stands for. The bits of a number go on without end, all of
them above the word being its sign, so an operation on the bits of words is the same operation on the numbers.
-/

namespace StructPadding

namespace Wide

/-- Whether a number is in the wide range. -/
def Fits (v : Int) : Prop := least ≤ v ∧ v ≤ greatest

instance (v : Int) : Decidable (Fits v) := inferInstanceAs (Decidable (_ ∧ _))

theorem fits?_eq_some_iff_fits {v w : Int} : fits? v = some w ↔ Fits v ∧ v = w := fits?_eq_some_iff

/-! ## Bits of numbers -/

/-- Numbers with the same bits are the same. -/
theorem eq_of_testBit_eq {a b : Int} (h : ∀ i, a.testBit i = b.testBit i) : a = b := by
  have hsmall (m n : Nat) : m.testBit (m + n) = false :=
    Nat.testBit_lt_two_pow (Nat.lt_of_le_of_lt (Nat.le_add_right m n) Nat.lt_two_pow_self)
  -- Numbers of different signs differ in all high bits.
  have hsign (m n : Nat) : ¬ ∀ i, (Int.ofNat m).testBit i = (Int.negSucc n).testBit i := by
    intro hbits
    have hhigh := hbits (m + n)
    simp only [Int.testBit, hsmall m n, Nat.add_comm m n ▸ hsmall n m] at hhigh
    cases hhigh
  cases a with
  | ofNat m =>
    cases b with
    | ofNat n => exact congrArg Int.ofNat (Nat.eq_of_testBit_eq h)
    | negSucc n => exact absurd h (hsign m n)
  | negSucc m =>
    cases b with
    | ofNat n => exact absurd (fun i => (h i).symm) (hsign n m)
    | negSucc n =>
      refine congrArg Int.negSucc (Nat.eq_of_testBit_eq fun i => ?_)
      exact Bool.not_inj (h i)

/-! ## Words -/

section

variable {n : Nat} (u w : BitVec n)

/-- The bits of the number that a word stands for are those of the word, and above them its sign. -/
theorem testBit_toInt (i : Nat) : w.toInt.testBit i = if i < n then w.getLsbD i else w.msb := by
  cases hmsb : w.msb with
  | false =>
    rw [BitVec.toInt_eq_toNat_of_msb hmsb]
    split
    · rfl
    · next hi => exact BitVec.getLsbD_of_ge w i (Nat.le_of_not_lt hi)
  | true =>
    have hnegative : w.toInt = Int.negSucc (~~~w).toNat := by
      have hlt := w.isLt
      rw [BitVec.toInt_eq_msb_cond, hmsb, if_pos rfl, BitVec.toNat_not, Int.negSucc_eq]
      omega
    have hbit : w.toInt.testBit i = !(~~~w).getLsbD i := by
      rw [hnegative]
      rfl
    rw [hbit, BitVec.getLsbD_not]
    split
    · next hi => simp [hi]
    · next hi => simp [hi]

theorem toInt_and : (u &&& w).toInt = u.toInt.land w.toInt := by
  refine eq_of_testBit_eq fun i => ?_
  rw [Int.testBit_land, testBit_toInt, testBit_toInt, testBit_toInt]
  split <;> simp

theorem toInt_or : (u ||| w).toInt = u.toInt.lor w.toInt := by
  refine eq_of_testBit_eq fun i => ?_
  rw [Int.testBit_lor, testBit_toInt, testBit_toInt, testBit_toInt]
  split <;> simp

theorem toInt_xor : (u ^^^ w).toInt = u.toInt.xor w.toInt := by
  refine eq_of_testBit_eq fun i => ?_
  rw [Int.testBit_lxor, testBit_toInt, testBit_toInt, testBit_toInt]
  split <;> simp

theorem toInt_andNot (hn : 0 < n) : (u &&& ~~~w).toInt = u.toInt.ldiff w.toInt := by
  refine eq_of_testBit_eq fun i => ?_
  rw [Int.testBit_ldiff, testBit_toInt, testBit_toInt, testBit_toInt]
  split
  · next hi => simp [hi]
  · simp [BitVec.msb_not, hn]

end

/-- A word of constants stands for a number in the wide range. -/
theorem fits_toInt (w : BitVec 128) : Fits w.toInt := by
  have hle := BitVec.le_toInt w
  have hlt := BitVec.toInt_lt (x := w)
  simp only [Fits, least, greatest]
  omega

/-- A number in the wide range is what its bits stand for. -/
theorem toInt_bits {v : Int} (h : Fits v) : (Constant.bits v).toInt = v := by
  simp only [Fits, least, greatest] at h
  exact BitVec.toInt_ofInt_eq_self (by decide) (by omega) (by omega)

section

open Constant (bits)

variable {a b : Int} (ha : Fits a) (hb : Fits b)
include ha hb

theorem toInt_bits_and : (bits a &&& bits b).toInt = a.land b := by rw [toInt_and, toInt_bits ha, toInt_bits hb]

theorem toInt_bits_or : (bits a ||| bits b).toInt = a.lor b := by rw [toInt_or, toInt_bits ha, toInt_bits hb]

theorem toInt_bits_xor : (bits a ^^^ bits b).toInt = a.xor b := by rw [toInt_xor, toInt_bits ha, toInt_bits hb]

theorem toInt_bits_andNot : (bits a &&& ~~~bits b).toInt = a.ldiff b := by
  rw [toInt_andNot _ _ (Nat.zero_lt_succ 127), toInt_bits ha, toInt_bits hb]

end

end Wide

end StructPadding
