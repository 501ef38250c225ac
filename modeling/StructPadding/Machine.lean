-- SUMMARY: Compilation targets: word size, maximum alignment, the known architectures and the largest object.
import StructPadding.Word

/-!
# Machine

A target is described by the size of its machine word and the largest alignment it asks for. Both are
positive byte counts, which the type keeps.
-/

namespace StructPadding

/-- Pointer width and maximum alignment of a compilation target, in bytes. -/
structure Machine where
  wordSize : Nat
  maxAlign : Nat
  wordSize_pos : 0 < wordSize := by decide
  maxAlign_pos : 0 < maxAlign := by decide
  wordSize_le : wordSize ≤ Word.limit := by decide
  maxAlign_le : maxAlign ≤ Word.limit := by decide

namespace Machine

/-- Why two numbers describe no machine. -/
inductive Invalid
  | zeroWordSize
  | zeroMaxAlign
  deriving DecidableEq, Repr

def Invalid.message : Invalid → String
  | .zeroWordSize => "word size must be at least 1 byte"
  | .zeroMaxAlign => "maximum alignment must be at least 1 byte"

/-- The machine with the given word size and maximum alignment; the word size is looked at first. -/
def ofSizes (wordSize maxAlign : Word.Count) : Except Invalid Machine :=
  if hw : wordSize.val = 0 then .error .zeroWordSize
  else if ha : maxAlign.val = 0 then .error .zeroMaxAlign
  else .ok {
    wordSize := wordSize.val
    maxAlign := maxAlign.val
    wordSize_pos := Nat.pos_of_ne_zero hw
    maxAlign_pos := Nat.pos_of_ne_zero ha
    wordSize_le := wordSize.le_limit
    maxAlign_le := maxAlign.le_limit }

/-! ## Architectures -/

def amd64 : Machine := { wordSize := 8, maxAlign := 8 }

/-- Words and alignments of four bytes. -/
def narrow : Machine := { wordSize := 4, maxAlign := 4 }

/-- The architectures known by name, in the order they are listed to the user. -/
def architectures : List (String × Machine) :=
  [("386", narrow), ("amd64", amd64), ("amd64p32", { wordSize := 4, maxAlign := 8 }), ("arm", narrow),
   ("arm64", amd64), ("loong64", amd64), ("mips", narrow), ("mipsle", narrow), ("mips64", amd64),
   ("mips64le", amd64), ("ppc64", amd64), ("ppc64le", amd64), ("riscv64", amd64), ("s390x", amd64),
   ("sparc64", amd64), ("wasm", amd64)]

def knownNames : List String := architectures.map (·.1)

def ofArch? (name : String) : Option Machine := architectures.lookup name

/-! ## Limits and text -/

/-- The largest object the target can address: two to the fiftieth bytes for words of eight bytes and
    more, the largest signed word otherwise. -/
def maxObjectSize (m : Machine) : Nat :=
  if 8 ≤ m.wordSize then Nat.pow 2 50 else Nat.pow 2 (8 * m.wordSize - 1) - 1

/-- The size itself where an object of that size can exist on the target. -/
def addressable? (m : Machine) (size : Nat) : Option Nat :=
  if size ≤ m.maxObjectSize then some size else none

@[simp] theorem addressable?_eq_some_iff {m : Machine} {n k : Nat} :
    m.addressable? n = some k ↔ n ≤ m.maxObjectSize ∧ n = k := by
  unfold addressable?; grind

def text (m : Machine) : String := s!"word size {m.wordSize}, max align {m.maxAlign}"

end Machine

end StructPadding
