-- SUMMARY: The columns that characters take when they are shown.
import StructPadding.Text.Widths

/-!
# Columns

A line of text is shown in columns. Most characters take one, wide ones two, and marks that extend the
character before them none; a tab goes on to the next tab stop.
-/

namespace StructPadding

/-- The columns of a character other than a tab. One Khmer sign stands for a word and takes three. -/
def columns (c : Char) : Nat :=
  if c.toNat < 0x7f then (if c.toNat < 0x20 then 0 else 1)
  else if c.toNat < 0xa0 then 0
  else if c = '\u17d8' then 3
  else if Ranges.contains Ranges.columnless c then 0
  else if Ranges.contains Ranges.wide c then 2
  else 1

/-- Tab stops lie this far apart. -/
def tabWidth : Nat := 4

/-- A character of a line, with its place in bytes and its columns. -/
structure Cell where
  offset : Nat
  width : Nat
  char : Char
  deriving DecidableEq, Repr

namespace Cell

def stop (c : Cell) : Nat := c.offset + c.char.utf8Size

/-- The cells of a text that begins at a byte and a column. -/
def ofCharsFrom (offset column : Nat) : List Char → List Cell
  | [] => []
  | c :: cs =>
    let width := if c = '\t' then tabWidth - column % tabWidth else columns c
    ⟨offset, width, c⟩ :: ofCharsFrom (offset + c.utf8Size) (column + width) cs

/-- The cells of a line. -/
def ofChars (cs : List Char) : List Cell := ofCharsFrom 0 0 cs

/-- What is shown of the cell: blanks for a tab. -/
def shown (c : Cell) : List Char := if c.char = '\t' then List.replicate c.width ' ' else [c.char]

end Cell

/-- Whether a character is blank space. -/
def isBlank (c : Char) : Bool :=
  Ranges.contains
    [(0x9, 0xd), (0x20, 0x20), (0x85, 0x85), (0xa0, 0xa0), (0x1680, 0x1680), (0x2000, 0x200a), (0x2028, 0x2029),
     (0x202f, 0x202f), (0x205f, 0x205f), (0x3000, 0x3000)] c

end StructPadding
