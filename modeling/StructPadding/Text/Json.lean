-- SUMMARY: JSON values and their indented text.

/-!
# JSON

Values are written over several lines with two blanks for each level; an empty list is written on one line.
-/

namespace StructPadding

inductive JsonValue
  | null
  | number (n : Nat)
  | text (s : String)
  | list (items : List JsonValue)
  /-- Fields in the order in which they are written. -/
  | object (fields : List (String × JsonValue))

namespace JsonValue

/-- The letter that escapes a control character, for those that have one. -/
def escapeLetter? : Char → Option Char
  | '\x08' => some 'b'
  | '\t' => some 't'
  | '\n' => some 'n'
  | '\x0c' => some 'f'
  | '\r' => some 'r'
  | '"' => some '"'
  | '\\' => some '\\'
  | _ => none

/-- A character of a text: itself, or an escape. -/
def escapeChar (c : Char) : List Char :=
  match escapeLetter? c with
  | some letter => ['\\', letter]
  | none =>
    if c.toNat < 0x20 then
      let digits := Nat.toDigits 16 c.toNat
      '\\' :: 'u' :: (List.replicate (4 - digits.length) '0' ++ digits)
    else [c]

def quote (s : String) : String := String.ofList ('"' :: s.toList.flatMap escapeChar ++ ['"'])

/-- A line break with the blanks of a level. -/
def lineBreak (level : Nat) : String := String.ofList ('\n' :: List.replicate (2 * level) ' ')

mutual

/-- The text of a value at a level of indentation. -/
def writeAt (level : Nat) : JsonValue → String
  | .null => "null"
  | .number n => toString n
  | .text s => quote s
  | .list [] => "[]"
  | .list items => "[" ++ writeItems (level + 1) "" items ++ lineBreak level ++ "]"
  | .object [] => "\x7b\x7d"
  | .object fields => "\x7b" ++ writeFields (level + 1) "" fields ++ lineBreak level ++ "\x7d"

/-- The items of a list, each on a line of its own, with a mark in front of the first. -/
def writeItems (level : Nat) (mark : String) : List JsonValue → String
  | [] => ""
  | v :: rest => mark ++ lineBreak level ++ writeAt level v ++ writeItems level "," rest

def writeFields (level : Nat) (mark : String) : List (String × JsonValue) → String
  | [] => ""
  | (name, v) :: rest =>
    mark ++ lineBreak level ++ quote name ++ ": " ++ writeAt level v ++ writeFields level "," rest

end

def write (v : JsonValue) : String := writeAt 0 v

end JsonValue

end StructPadding
