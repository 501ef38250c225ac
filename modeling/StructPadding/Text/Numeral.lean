-- SUMMARY: Reading whole numbers from digits in any radix up to thirty-six.

/-!
# Numerals

A numeral is a nonempty run of digits below its radix; letters of either case are the digits from ten on.
-/

namespace StructPadding.Numeral

/-- The value of a digit in the given radix. -/
def digit? (radix : Nat) (c : Char) : Option Nat :=
  let v :=
    if c.isDigit then some (c.toNat - '0'.toNat)
    else if 'a' ≤ c ∧ c ≤ 'z' then some (c.toNat - 'a'.toNat + 10)
    else if 'A' ≤ c ∧ c ≤ 'Z' then some (c.toNat - 'A'.toNat + 10)
    else none
  v.filter (· < radix)

/-- The value of a list of digits, most significant first, continuing the value `acc`. -/
def valueFrom (radix acc : Nat) : List Char → Option Nat
  | [] => some acc
  | c :: cs => (digit? radix c).bind fun d => valueFrom radix (acc * radix + d) cs

/-- The number written by a nonempty list of digits. -/
def natural? (radix : Nat) (cs : List Char) : Option Nat :=
  if cs.isEmpty then none else valueFrom radix 0 cs

/-- The number written by digits behind an optional sign. -/
def signed? (radix : Nat) : List Char → Option Int
  | '-' :: cs => (natural? radix cs).map fun n => -(n : Int)
  | '+' :: cs => (natural? radix cs).map Int.ofNat
  | cs => (natural? radix cs).map Int.ofNat

end StructPadding.Numeral
