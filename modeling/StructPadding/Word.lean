-- SUMMARY: Byte counts bounded by a 64-bit word: saturating and checked addition, multiplication and rounding.

/-!
# Word

Sizes and offsets are natural numbers up to `Word.limit`. The plain operations stop at the limit instead
of passing it; the operations with a question mark have no result there.
-/

namespace StructPadding.Word

/-- The largest byte count, one below two to the sixty-fourth. -/
def limit : Nat := 0xffffffffffffffff

/-- A count as read from outside, which fits a word by its type. -/
abbrev Count := Fin (limit + 1)

theorem Count.le_limit (c : Count) : c.val ≤ limit := Nat.le_of_lt_succ c.isLt

/-! ## Saturating operations -/

/-- The sum, or the limit where the sum passes it. -/
def add (a b : Nat) : Nat := min (a + b) limit

/-- The product, or the limit where the product passes it. -/
def mul (a b : Nat) : Nat := min (a * b) limit

/-- The least multiple of `a` that is not below `x`, or the greatest one within the limit. -/
def roundUp (x a : Nat) : Nat :=
  let y := add x (a - 1)
  y - y % a

theorem add_of_le {a b : Nat} (h : a + b ≤ limit) : add a b = a + b := Nat.min_eq_left h

theorem mul_of_le {a b : Nat} (h : a * b ≤ limit) : mul a b = a * b := Nat.min_eq_left h

theorem add_le_limit (a b : Nat) : add a b ≤ limit := Nat.min_le_right ..

theorem roundUp_le_limit (x a : Nat) : roundUp x a ≤ limit :=
  Nat.le_trans (Nat.sub_le ..) (add_le_limit ..)

theorem dvd_roundUp (x a : Nat) : a ∣ roundUp x a := Nat.dvd_sub_mod _

/-! ## Checked operations -/

/-- The number itself where it is a byte count. -/
def fits? (n : Nat) : Option Nat := if n ≤ limit then some n else none

/-- The exact sum where it is a byte count. -/
def add? (a b : Nat) : Option Nat := fits? (a + b)

/-- The exact product where it is a byte count. -/
def mul? (a b : Nat) : Option Nat := fits? (a * b)

/-- Rounding up, where nothing on the way passes the limit. -/
def roundUp? (x a : Nat) : Option Nat := (add? x (a - 1)).map fun y => y - y % a

@[simp] theorem fits?_eq_some_iff {n k : Nat} : fits? n = some k ↔ n ≤ limit ∧ n = k := by
  unfold fits?; grind

theorem add_eq_of_add? {a b n : Nat} (h : add? a b = some n) : add a b = n := by
  obtain ⟨hle, rfl⟩ := fits?_eq_some_iff.1 h
  exact add_of_le hle

theorem roundUp_eq_of_roundUp? {x a n : Nat} (h : roundUp? x a = some n) : roundUp x a = n := by
  obtain ⟨y, hy, rfl⟩ := Option.map_eq_some_iff.1 h
  simp [roundUp, add_eq_of_add? hy]

end StructPadding.Word
