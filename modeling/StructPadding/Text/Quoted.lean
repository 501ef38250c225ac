-- SUMMARY: Text between quotes: taking quotes away, and writing text with escapes.
import StructPadding.Text.Hidden

/-!
# Quoted text

Literals keep the quotes they are written with; `unquote` takes them away. `quoted` writes a text so that
every character in it can be seen.
-/

namespace StructPadding

/-- The text between the first and the last character. -/
def unquote (s : String) : String := String.ofList (s.toList.drop 1).dropLast

/-- The hexadecimal digits of a number, without leading zeros. -/
def hexDigits (n : Nat) : List Char := Nat.toDigits 16 n

/-- Whether a character is seen as itself in quoted text. -/
def isVisible (c : Char) : Bool :=
  if c.toNat < 0x7f then 0x20 ≤ c.toNat else !Ranges.contains Ranges.hidden c

/-- A character of a quoted text: itself, or an escape. -/
def quotedChar (c : Char) : List Char :=
  match c with
  | '"' => ['\\', '"']
  | '\\' => ['\\', '\\']
  | '\n' => ['\\', 'n']
  | '\t' => ['\\', 't']
  | '\r' => ['\\', 'r']
  | '\x00' => ['\\', '0']
  | c => if isVisible c then [c] else "\\u\x7b".toList ++ hexDigits c.toNat ++ ['\x7d']

/-- The text in quotes, with escapes for what cannot be seen. -/
def quoted (s : String) : String := String.ofList ('"' :: s.toList.flatMap quotedChar ++ ['"'])

end StructPadding
