-- SUMMARY: The lines of a source text, and the line and column of a byte.

/-!
# Lines

A source text is cut behind every newline. The last line may be empty. Columns count characters, not bytes.
-/

namespace StructPadding

structure Line where
  /-- Counted from one. -/
  number : Nat
  /-- The first byte. -/
  start : Nat
  /-- The characters, with the newline at the end. -/
  chars : List Char
  deriving DecidableEq, Repr, Inhabited

namespace Line

/-- The characters of each line. -/
def cut : List Char → List (List Char)
  | [] => [[]]
  | c :: cs =>
    if c = '\n' then [c] :: cut cs
    else
      match cut cs with
      | [] => [[c]]
      | l :: rest => (c :: l) :: rest

/-- The bytes of a list of characters. -/
def byteLength : List Char → Nat
  | [] => 0
  | c :: cs => c.utf8Size + byteLength cs

/-- Lines with the given characters, from a number and a byte on. -/
def numbered (number start : Nat) : List (List Char) → List Line
  | [] => []
  | cs :: rest => ⟨number, start, cs⟩ :: numbered (number + 1) (start + byteLength cs) rest

/-- The lines of a source text. -/
def ofSource (source : String) : List Line := numbered 1 0 (cut source.toList)

def stop (l : Line) : Nat := l.start + byteLength l.chars

/-- The line that a byte lies in; bytes behind the end belong to the last line. -/
def containing (lines : List Line) (offset : Nat) : Line :=
  ((lines.takeWhile (·.start ≤ offset)).getLast?).getD default

/-- Characters that end at the given number of bytes or before. -/
def charsWithin (bytes : Nat) : List Char → Nat
  | [] => 0
  | c :: cs => if c.utf8Size ≤ bytes then charsWithin (bytes - c.utf8Size) cs + 1 else 0

@[simp] theorem byteLength_nil : byteLength [] = 0 := rfl

@[simp] theorem byteLength_cons (c : Char) (cs : List Char) :
    byteLength (c :: cs) = c.utf8Size + byteLength cs := rfl

@[simp] theorem byteLength_append (as bs : List Char) :
    byteLength (as ++ bs) = byteLength as + byteLength bs := by
  induction as with
  | nil => simp
  | cons c cs ih => simp [ih, Nat.add_assoc]

/-- There is always a last line. -/
theorem cut_ne_nil (cs : List Char) : cut cs ≠ [] := by
  cases cs with
  | nil => simp [cut]
  | cons c cs => grind [cut]

end Line

/-- A place in a source text, both counted from one. -/
structure Location where
  line : Nat
  column : Nat
  deriving DecidableEq, Repr

/-- The line and the column of a byte. -/
def Location.ofOffset (lines : List Line) (offset : Nat) : Location :=
  let l := Line.containing lines offset
  ⟨l.number, Line.charsWithin (offset - l.start) l.chars + 1⟩

end StructPadding
