-- SUMMARY: A number written in decimal is read back.
import Mathlib.Algebra.Group.Nat.Defs
import StructPadding.Parse.Literal

/-!
# Decimal numbers

The digits of a number in radix ten have the value of the number. As a literal they are not taken for another radix:
a leading zero stands alone.
-/

namespace StructPadding

namespace Numeral

theorem digit?_digitChar {n : Nat} (hn : n < 10) : digit? 10 n.digitChar = some n := by
  have hdigit : n.digitChar.isDigit = true := by simp [hn]
  have hvalue : n.digitChar.toNat - 48 = n := Nat.toNat_digitChar_sub_48_of_lt_ten hn
  simp [digit?, hdigit, hvalue, hn]

theorem valueFrom_append (radix acc : Nat) (cs ds : List Char) :
    valueFrom radix acc (cs ++ ds) = (valueFrom radix acc cs).bind fun v => valueFrom radix v ds := by
  induction cs generalizing acc with
  | nil => rfl
  | cons c cs ih => simp only [List.cons_append, valueFrom, ih, Option.bind_assoc]

theorem valueFrom_toDigits (n : Nat) : valueFrom 10 0 (Nat.toDigits 10 n) = some n := by
  induction n using Nat.strongRecOn with
  | ind n ih =>
    by_cases hn : n < 10
    · rw [Nat.toDigits_of_lt_base hn]
      simp [valueFrom, digit?_digitChar hn]
    · have hlast : n % 10 < 10 := Nat.mod_lt n (by decide)
      rw [Nat.toDigits_of_base_le (by decide) (Nat.le_of_not_lt hn), valueFrom_append, ih (n / 10) (by omega)]
      simp only [Option.bind_some, valueFrom, digit?_digitChar hlast, Option.some.injEq]
      omega

theorem natural?_toDigits (n : Nat) : natural? 10 (Nat.toDigits 10 n) = some n := by
  simp [natural?, valueFrom_toDigits]

end Numeral

namespace Literal

theorem head?_toDigits {n : Nat} (hn : 0 < n) : (Nat.toDigits 10 n).head? ≠ some '0' := by
  induction n using Nat.strongRecOn with
  | ind n ih =>
    by_cases hlt : n < 10
    · rw [Nat.toDigits_of_lt_base hlt]
      simp
      omega
    · have hhead := ih (n / 10) (by omega) (by omega)
      obtain ⟨c, cs, hdigits⟩ := List.exists_cons_of_ne_nil (Nat.toDigits_ne_nil (n := n / 10) (b := 10))
      rw [hdigits] at hhead
      rw [Nat.toDigits_of_base_le (by decide) (Nat.le_of_not_lt hlt), hdigits]
      exact hhead

/-- A decimal number is read with radix ten. -/
theorem radix_toDigits (n : Nat) : radix (Nat.toDigits 10 n) = (10, Nat.toDigits 10 n) := by
  rcases Nat.eq_zero_or_pos n with rfl | hn
  · rfl
  · have hhead := head?_toDigits hn
    obtain ⟨c, cs, hdigits⟩ := List.exists_cons_of_ne_nil (Nat.toDigits_ne_nil (n := n) (b := 10))
    rw [hdigits] at hhead ⊢
    unfold radix
    split <;> simp_all

theorem signed?_toDigits (n : Nat) : Numeral.signed? 10 (Nat.toDigits 10 n) = some (n : Int) := by
  have hdigit {c : Char} (hc : c ∈ Nat.toDigits 10 n) : c.isDigit = true :=
    Nat.isDigit_of_mem_toDigits (by decide) (by decide) hc
  unfold Numeral.signed?
  split
  · next heq => exact absurd (hdigit (heq ▸ List.mem_cons_self ..)) (by decide)
  · next heq => exact absurd (hdigit (heq ▸ List.mem_cons_self ..)) (by decide)
  · simp [Numeral.natural?_toDigits]

theorem int?_repr {n : Nat} (hn : n < 2 ^ 127) : int? n.repr = some (n : Int) := by
  have hplain : (Nat.toDigits 10 n).filter (· != '_') = Nat.toDigits 10 n := by
    refine List.filter_eq_self.2 fun c hc => ?_
    exact bne_iff_ne.2 fun h => Nat.underscore_not_in_toDigits (h ▸ hc)
  simp only [int?, Nat.toList_repr, hplain, radix_toDigits, signed?_toDigits, Option.bind_some]
  simp only [Wide.fits?, Wide.least, Wide.greatest]
  exact if_pos (by omega)

end Literal

end StructPadding
