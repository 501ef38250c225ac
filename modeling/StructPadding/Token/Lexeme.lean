-- SUMMARY: Source text cut into lexemes, each the longest that some pattern matches.
import StructPadding.Source.Span
import StructPadding.Token.Pattern

/-!
# Lexemes

Every character of a source belongs to exactly one lexeme. At each place the longest match over all
patterns is taken; a character at which nothing matches is a stray lexeme of its own.
-/

namespace StructPadding.Token

/-- A piece of source text with its class and its bytes. -/
structure Lexeme where
  category : Category
  text : String
  span : Span
  deriving DecidableEq, Repr

namespace Lexeme

/-- The class and the number of characters of the lexeme that begins a nonempty text. -/
def first (cs : List Char) : Category × Nat :=
  match Regex.longest Pattern.all cs with
  | some (c, n + 1) => (c, n + 1)
  | _ => (.stray, 1)

/-- The lexemes of a text that starts at byte `offset`, behind `skip` characters that belong to the lexeme
    before. -/
def scanFrom (offset : Nat) : (skip : Nat) → List Char → List Lexeme
  | _, [] => []
  | skip + 1, c :: cs => scanFrom (offset + c.utf8Size) skip cs
  | 0, c :: cs =>
    let (category, n) := first (c :: cs)
    let text := String.ofList ((c :: cs).take n)
    { category, text, span := ⟨offset, offset + text.utf8ByteSize⟩ } ::
      scanFrom (offset + c.utf8Size) (n - 1) cs

/-- The lexemes of a source text. -/
def scan (source : String) : List Lexeme := scanFrom 0 0 source.toList

/-- Whether the lexeme breaks the line: a newline, or a comment that holds one. -/
def breaksLine (l : Lexeme) : Bool :=
  match l.category with
  | .newline => true
  | .blockComment => l.text.toList.contains '\n'
  | _ => false

/-- Every lexeme has a character. -/
theorem first_pos (cs : List Char) : 0 < (first cs).2 := by
  unfold first; split <;> simp

theorem scanFrom_nil (offset skip : Nat) : scanFrom offset skip [] = [] := by
  cases skip <;> rfl

end Lexeme

end StructPadding.Token
