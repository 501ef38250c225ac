-- SUMMARY: The range of constants: whole numbers that fit 128 bits with a sign.

/-!
# Wide

Constants are computed exactly, and exist only in the range of a signed 128-bit word.
-/

namespace StructPadding.Wide

def least : Int := -0x80000000000000000000000000000000

def greatest : Int := 0x7fffffffffffffffffffffffffffffff

/-- The number itself where it is in range. -/
def fits? (v : Int) : Option Int := if least ≤ v ∧ v ≤ greatest then some v else none

@[simp] theorem fits?_eq_some_iff {v w : Int} : fits? v = some w ↔ (least ≤ v ∧ v ≤ greatest) ∧ v = w := by
  unfold fits?; grind

end StructPadding.Wide
