-- SUMMARY: The values of integer and rune literals.
import StructPadding.Wide
import StructPadding.Text.Numeral

/-!
# Literals

An integer literal is a numeral whose radix its first characters tell, with separators between digits. A rune
literal is one character or an escape.
-/

namespace StructPadding.Literal

/-- The radix of an integer literal without separators, and its digits. -/
def radix : List Char → Nat × List Char
  | '0' :: 'x' :: digits | '0' :: 'X' :: digits => (16, digits)
  | '0' :: 'b' :: digits | '0' :: 'B' :: digits => (2, digits)
  | '0' :: 'o' :: digits | '0' :: 'O' :: digits => (8, digits)
  | '0' :: d :: digits => (8, d :: digits)
  | digits => (10, digits)

/-- The value of an integer literal. -/
def int? (text : String) : Option Int :=
  let (radix, digits) := radix (text.toList.filter (· != '_'))
  (Numeral.signed? radix digits).bind Wide.fits?

/-- The value of an escape with a letter or a mark. -/
def namedEscape? : Char → Option Int
  | 'a' => some 0x07
  | 'b' => some 0x08
  | 'f' => some 0x0c
  | 'n' => some 0x0a
  | 'r' => some 0x0d
  | 't' => some 0x09
  | 'v' => some 0x0b
  | '\\' => some 0x5c
  | '\'' => some 0x27
  | _ => none

/-- The value of what stands behind a backslash. -/
def escape? (body : List Char) : Option Int :=
  match body with
  | [] => none
  | c :: rest =>
    match (if rest.isEmpty then namedEscape? c else none) with
    | some v => some v
    | none =>
      if c = 'x' ∨ c = 'u' ∨ c = 'U' then (Numeral.signed? 16 rest).bind Wide.fits?
      else if '0' ≤ c ∧ c ≤ '7' then (Numeral.signed? 8 body).bind Wide.fits?
      else none

/-- The value of the text between the quotes of a rune literal. -/
def rune? : List Char → Option Int
  | [] => none
  | '\\' :: body => escape? body
  | [c] => some c.toNat
  | _ => none

end StructPadding.Literal
